import Jvc.Lib.Program

namespace program.Prog

variable {ι Op : Type} {Res : Op → Type} {σ E α β : Type}

/-- Whatever the program is answered, every operation it performs satisfies `P` and
every value it returns satisfies `Q`. -/
inductive Within (P : Op → Prop) (Q : α → Prop) : Prog Op Res E α → Prop
  | ret {a : α} (ha : Q a) : Within P Q (.ret a)
  | fail (e : E) : Within P Q (.fail e)
  | act {op : Op} {k : Res op → Prog Op Res E α} (hop : P op) (hk : ∀ r, Within P Q (k r)) :
      Within P Q (.act op k)

section Within

variable {P P' : Op → Prop} {Q : α → Prop} {Q' : β → Prop}

theorem Within.mono {Q' : α → Prop} (hP : ∀ op, P op → P' op) (hQ : ∀ a, Q a → Q' a)
    {p : Prog Op Res E α} (h : p.Within P Q) : p.Within P' Q' := by
  induction h with
  | ret ha => exact .ret (hQ _ ha)
  | fail e => exact .fail e
  | act hop _ ih => exact .act (hP _ hop) ih

theorem Within.bind {p : Prog Op Res E α} {f : α → Prog Op Res E β} (hp : p.Within P Q)
    (hf : ∀ a, Q a → (f a).Within P Q') : (p.bind f).Within P Q' := by
  induction hp with
  | ret ha => exact hf _ ha
  | fail e => exact .fail e
  | act hop _ ih => exact .act hop ih

theorem Within.seq {p : Prog Op Res E α} {f : α → Prog Op Res E β} (hp : p.Within P Q)
    (hf : ∀ a, Q a → (f a).Within P Q') : (p >>= f).Within P Q' := hp.bind hf

theorem Within.handle {p : Prog Op Res E α} {h : E → Prog Op Res E α} (hp : p.Within P Q)
    (hh : ∀ e, (h e).Within P Q) : (p.handle h).Within P Q := by
  induction hp with
  | ret ha => exact .ret ha
  | fail e => exact hh e
  | act hop _ ih => exact .act hop ih

theorem Within.ofExcept {r : Except E α} (h : ∀ a, r = .ok a → Q a) :
    (ofExcept r : Prog Op Res E α).Within P Q := by
  cases r with
  | ok a => exact .ret (h a rfl)
  | error e => exact .fail e

end Within

variable (M : Machine ι Op Res σ) (i : ι)

/-- Running alone, the program performs `op` in the state `t`. -/
inductive Reaches (op : Op) (t : σ) : Prog Op Res E α → σ → Prop
  | here (k : Res op → Prog Op Res E α) : Reaches op t (.act op k) t
  | later {op' : Op} {k : Res op' → Prog Op Res E α} {s : σ}
      (h : Reaches op t (k (M.step i op' s).1) (M.step i op' s).2) : Reaches op t (.act op' k) s

variable {M i} {op : Op} {s t : σ}

/-- The operation that the program performs first. -/
def next : Prog Op Res E α → Option Op
  | .act op _ => some op
  | _ => none

/-- A program performs the operation it has come to after some steps. -/
theorem reaches_of_next {p : Prog Op Res E α} {n : Nat} (h : (p.after M i n s).1.next = some op) :
    p.Reaches M i op (p.after M i n s).2 s := by
  induction n generalizing p s with
  | zero =>
    rw [after_zero] at h ⊢
    cases p with
    | act op' k =>
      cases h
      exact .here k
    | _ => cases h
  | succ n ih =>
    cases p with
    | act op' k => exact .later (ih h)
    | _ => cases h

/-- The operation is performed by the first part, or by the second after the first
has returned. -/
theorem Reaches.of_bind {p : Prog Op Res E α} {f : α → Prog Op Res E β}
    (h : (p.bind f).Reaches M i op t s) :
    p.Reaches M i op t s ∨ ∃ a u, p.run M i s = (.ok a, u) ∧ (f a).Reaches M i op t u := by
  induction p generalizing s with
  | ret a => exact .inr ⟨a, s, rfl, h⟩
  | fail e => cases h
  | act op' k ih =>
    cases h with
    | here => exact .inl (.here k)
    | later h => exact (ih _ h).imp .later id

theorem Reaches.of_seq {p : Prog Op Res E α} {f : α → Prog Op Res E β}
    (h : (p >>= f).Reaches M i op t s) :
    p.Reaches M i op t s ∨ ∃ a u, p.run M i s = (.ok a, u) ∧ (f a).Reaches M i op t u :=
  Reaches.of_bind h

/-- What the second part performs is performed once the first has returned. -/
theorem Reaches.seq {p : Prog Op Res E α} {f : α → Prog Op Res E β} {a : α} {u : σ}
    (hp : p.run M i s = (.ok a, u)) (h : (f a).Reaches M i op t u) :
    (p >>= f).Reaches M i op t s := by
  induction p generalizing s with
  | ret b =>
    cases hp
    exact h
  | fail e => cases hp
  | act op' k ih => exact .later (ih _ hp)

theorem Reaches.ensuring {p : Prog Op Res E α} (c : Prog Op Res E Unit)
    (h : p.Reaches M i op t s) : (p.ensuring c).Reaches M i op t s := by
  induction h with
  | here k => exact .here _
  | later _ ih => exact .later ih

theorem Reaches.of_ensuring {p : Prog Op Res E α} {c : Prog Op Res E Unit}
    (h : (p.ensuring c).Reaches M i op t s) :
    p.Reaches M i op t s ∨ c.Reaches M i op t (p.run M i s).2 := by
  induction p generalizing s with
  | ret a =>
    obtain h | ⟨u, v, -, h⟩ := Reaches.of_bind h
    · exact .inr h
    · cases h
  | fail e =>
    obtain h | ⟨u, v, -, h⟩ := Reaches.of_bind h
    · exact .inr h
    · cases h
  | act op' k ih =>
    cases h with
    | here => exact .inl (.here k)
    | later h => exact (ih _ h).imp .later id

theorem Within.reaches {P : Op → Prop} {Q : α → Prop} {p : Prog Op Res E α} (hp : p.Within P Q)
    (h : p.Reaches M i op t s) : P op := by
  induction h with
  | here =>
    cases hp with
    | act hop _ => exact hop
  | later _ ih =>
    cases hp with
    | act _ hk => exact ih (hk _)

/-- A run preserves what each of its operations preserves. -/
theorem Within.run {P : Op → Prop} {Q : α → Prop} {I : σ → Prop} {p : Prog Op Res E α}
    (hp : p.Within P Q) (hstep : ∀ op s, P op → I s → I (M.step i op s).2) (hs : I s) :
    I (p.run M i s).2 := by
  induction hp generalizing s with
  | ret ha => exact hs
  | fail e => exact hs
  | act hop _ ih => exact ih _ (hstep _ s hop hs)

theorem Within.returned {P : Op → Prop} {Q : α → Prop} {p : Prog Op Res E α} (hp : p.Within P Q)
    {a : α} {u : σ} (h : p.run M i s = (.ok a, u)) : Q a := by
  induction hp generalizing s with
  | ret ha =>
    cases h
    exact ha
  | fail e => cases h
  | act _ _ ih => exact ih _ h

/-- A part that does not perform the operation has returned when the rest does. -/
theorem Within.reaches_rest {P : Op → Prop} {Q : α → Prop} {p : Prog Op Res E α}
    {f : α → Prog Op Res E β} (hp : p.Within P Q) (hop : ¬ P op)
    (h : (p >>= f).Reaches M i op t s) :
    ∃ a u, p.run M i s = (.ok a, u) ∧ (f a).Reaches M i op t u :=
  h.of_seq.resolve_left fun hfirst => hop (hp.reaches hfirst)

/-- A program gives the same result in two states that answer its operations alike. -/
theorem Within.run_congr {P : Op → Prop} {Q : α → Prop} {R : σ → σ → Prop} {p : Prog Op Res E α}
    (hp : p.Within P Q) (hstep : ∀ op s t, P op → R s t →
      (M.step i op s).1 = (M.step i op t).1 ∧ R (M.step i op s).2 (M.step i op t).2)
    (h : R s t) : (p.run M i s).1 = (p.run M i t).1 := by
  induction hp generalizing s t with
  | ret ha => rfl
  | fail e => rfl
  | act hop _ ih =>
    obtain ⟨hanswer, hnext⟩ := hstep _ s t hop h
    rw [run_act, run_act, hanswer]
    exact ih _ hnext

end program.Prog
