import Mathlib.Logic.Function.Basic
import Jvc.Lib.Program

namespace program

/-- Programs running side by side over one state, one for each process. -/
structure Crowd (ι : Type) (Op : Type) (Res : Op → Type) (E α σ : Type) where
  prog : ι → Prog Op Res E α
  state : σ

namespace Crowd

variable {ι Op : Type} {Res : Op → Type} {E α σ : Type} [DecidableEq ι]
variable (M : Machine ι Op Res σ) (Env : σ → σ → Prop)

/-- One process performs one atomic operation, or the surroundings move. -/
inductive Step : Crowd ι Op Res E α σ → Crowd ι Op Res E α σ → Prop
  | act (c : Crowd ι Op Res E α σ) (i : ι) (op : Op) (k : Res op → Prog Op Res E α)
      (h : c.prog i = .act op k) :
      Step c ⟨Function.update c.prog i (k (M.step i op c.state).1), (M.step i op c.state).2⟩
  | env (c : Crowd ι Op Res E α σ) (s : σ) (h : Env c.state s) : Step c ⟨c.prog, s⟩

/-- Any finite interleaving. -/
abbrev Run : Crowd ι Op Res E α σ → Crowd ι Op Res E α σ → Prop :=
  Relation.ReflTransGen (Step M Env)

/-- What each process still has to do is proved among the others. -/
def Verified (R G : ι → σ → σ → Prop) (Q : ι → Except E α → σ → Prop)
    (c : Crowd ι Op Res E α σ) : Prop :=
  ∀ i, Prog.wp M i (R i) (G i) (c.prog i) (Q i) c.state

/-- What each process may do is what every other one expects. -/
structure Compatible (R G : ι → σ → σ → Prop) (Q : ι → Except E α → σ → Prop) : Prop where
  refl : ∀ i s, R i s s
  trans : ∀ i s t u, R i s t → R i t u → R i s u
  stable : ∀ i r s t, Q i r s → R i s t → Q i r t
  others : ∀ i j, i ≠ j → ∀ s t, G i s t → R j s t
  env : ∀ i s t, Env s t → R i s t

variable {M Env} {R G : ι → σ → σ → Prop} {Q : ι → Except E α → σ → Prop}
variable {c d : Crowd ι Op Res E α σ}

omit [DecidableEq ι] in
/-- Processes that are compatible while `N` holds. -/
theorem Compatible.of_while {D : σ → σ → Prop} {N : σ → Prop} (hrefl : ∀ s, D s s)
    (htrans : ∀ s t u, D s t → D t u → D s u) (hD : ∀ s t, D s t → N t → N s)
    (refl : ∀ i s, R i s s) (trans : ∀ i s t u, R i s t → R i t u → R i s u)
    (stable : ∀ i r s t, Q i r s → R i s t → Q i r t)
    (others : ∀ i j, i ≠ j → ∀ s t, N t → G i s t → R j s t)
    (env : ∀ i s t, Env s t → Prog.While D N (R i) s t) :
    Compatible Env (fun i => Prog.While D N (R i)) (fun i => Prog.While D N (G i))
      fun i r s => N s → Q i r s where
  refl i s := ⟨hrefl s, fun _ => refl i s⟩
  trans i s t u hst htu := ⟨htrans s t u hst.1 htu.1, fun hn =>
    trans i s t u (hst.2 (hD t u htu.1 hn)) (htu.2 hn)⟩
  stable i r s t hQ hst hn := stable i r s t (hQ (hD s t hst.1 hn)) (hst.2 hn)
  others i j hne s t hst := ⟨hst.1, fun hn => others i j hne s t hn (hst.2 hn)⟩
  env := env

/-- A step of the crowd is idle, guaranteed by the process that makes it, or one
of the surroundings. -/
theorem Step.guaranteed (hcompat : Compatible Env R G Q) (hc : Verified M R G Q c)
    (h : Step M Env c d) :
    d.state = c.state ∨ (∃ i, G i c.state d.state) ∨ Env c.state d.state := by
  cases h with
  | act i op k hprog =>
    have hi := hc i
    rw [hprog] at hi
    obtain ⟨hstep, -⟩ := hi c.state (hcompat.refl i c.state)
    rcases hstep with heq | hG
    · exact Or.inl heq
    · exact Or.inr (Or.inl ⟨i, hG⟩)
  | env s henv => exact Or.inr (Or.inr henv)

theorem Verified.step (hcompat : Compatible Env R G Q) (hc : Verified M R G Q c)
    (h : Step M Env c d) : Verified M R G Q d := by
  cases h with
  | act i op k hprog =>
    have hi := hc i
    rw [hprog] at hi
    obtain ⟨hstep, hrest⟩ := hi c.state (hcompat.refl i c.state)
    intro j
    dsimp only
    by_cases hj : j = i
    · subst hj
      rw [Function.update_self]
      exact hrest
    · rw [Function.update_of_ne hj]
      have hR : R j c.state (M.step i op c.state).2 := by
        rcases hstep with heq | hG
        · rw [heq]
          exact hcompat.refl j c.state
        · exact hcompat.others i j (Ne.symm hj) _ _ hG
      exact Prog.wp_stable (hcompat.trans j) (hcompat.stable j) (hc j) hR
  | env s henv =>
    intro j
    exact Prog.wp_stable (hcompat.trans j) (hcompat.stable j) (hc j) (hcompat.env j _ _ henv)

theorem Verified.run (hcompat : Compatible Env R G Q) (hc : Verified M R G Q c)
    (h : Run M Env c d) : Verified M R G Q d := by
  induction h with
  | refl => exact hc
  | tail _ hstep ih => exact ih.step hcompat hstep

omit [DecidableEq ι] in
/-- A process that has returned has its postcondition. -/
theorem Verified.returned (hc : Verified M R G Q c) {i : ι} {a : α} (h : c.prog i = .ret a) :
    Q i (.ok a) c.state := by
  have hi := hc i
  rw [h] at hi
  exact hi

omit [DecidableEq ι] in
theorem Verified.failed (hc : Verified M R G Q c) {i : ι} {e : E} (h : c.prog i = .fail e) :
    Q i (.error e) c.state := by
  have hi := hc i
  rw [h] at hi
  exact hi

/-- What every guarantee and the surroundings preserve holds throughout. -/
theorem Run.invariant (hcompat : Compatible Env R G Q) {I : σ → Prop}
    (hG : ∀ i s t, I s → G i s t → I t) (hEnv : ∀ s t, I s → Env s t → I t)
    (hc : Verified M R G Q c) (hI : I c.state) (h : Run M Env c d) : I d.state := by
  induction h with
  | refl => exact hI
  | tail hrun hstep ih =>
    rcases hstep.guaranteed hcompat (hc.run hcompat hrun) with heq | ⟨i, hi⟩ | henv
    · rw [heq]
      exact ih
    · exact hG i _ _ ih hi
    · exact hEnv _ _ ih henv

/-- A process that makes `n` steps while the others rest. -/
theorem run_after (c : Crowd ι Op Res E α σ) (i : ι) (n : Nat) :
    Run M Env c
      ⟨Function.update c.prog i ((c.prog i).after M i n c.state).1,
        ((c.prog i).after M i n c.state).2⟩ := by
  have hself : (⟨Function.update c.prog i (c.prog i), c.state⟩ : Crowd ι Op Res E α σ) = c := by
    rw [Function.update_eq_self]
  induction n generalizing c with
  | zero =>
    rw [Prog.after_zero, hself]
  | succ n ih =>
    cases hp : c.prog i with
    | ret a =>
      rw [Prog.after_ret, ← hp, hself]
    | fail e =>
      rw [Prog.after_fail, ← hp, hself]
    | act op k =>
      have hstep : Step M Env c _ := Step.act c i op k hp
      have hrest := ih ⟨Function.update c.prog i (k (M.step i op c.state).1),
        (M.step i op c.state).2⟩ (by rw [Function.update_eq_self])
      rw [Prog.after]
      simp only [Function.update_self, Function.update_idem] at hrest
      exact .head hstep hrest

end Crowd

end program
