import Mathlib.Logic.Relation

namespace program

/-- A program over an effect signature: it returns, fails with an error, or
performs one atomic operation and continues with the operation's response. -/
inductive Prog (Op : Type) (Res : Op → Type) (E : Type) (α : Type) : Type
  | ret (a : α) : Prog Op Res E α
  | fail (e : E) : Prog Op Res E α
  | act (op : Op) (k : Res op → Prog Op Res E α) : Prog Op Res E α

namespace Prog

variable {Op : Type} {Res : Op → Type} {E α β γ : Type}

def bind : Prog Op Res E α → (α → Prog Op Res E β) → Prog Op Res E β
  | .ret a, f => f a
  | .fail e, _ => .fail e
  | .act op k, f => .act op fun r => (k r).bind f

/-- `try p except h`: the handler sees every error and may fail again. -/
def handle : Prog Op Res E α → (E → Prog Op Res E α) → Prog Op Res E α
  | .ret a, _ => .ret a
  | .fail e, h => h e
  | .act op k, h => .act op fun r => (k r).handle h

/-- `try p finally c`: the closing program runs on both ways out. -/
def ensuring : Prog Op Res E α → Prog Op Res E Unit → Prog Op Res E α
  | .ret a, c => c.bind fun _ => .ret a
  | .fail e, c => c.bind fun _ => .fail e
  | .act op k, c => .act op fun r => (k r).ensuring c

def ofExcept : Except E α → Prog Op Res E α
  | .ok a => .ret a
  | .error e => .fail e

instance : Monad (Prog Op Res E) where
  pure := .ret
  bind := bind

instance : MonadExcept E (Prog Op Res E) where
  throw := .fail
  tryCatch := handle

@[simp] theorem pure_eq (a : α) : (pure a : Prog Op Res E α) = .ret a := rfl

@[simp] theorem throw_eq (e : E) : (throw e : Prog Op Res E α) = .fail e := rfl

@[simp] theorem tryCatch_eq (p : Prog Op Res E α) (h : E → Prog Op Res E α) :
    tryCatch p h = p.handle h := rfl

theorem bind_ret (p : Prog Op Res E α) : p.bind .ret = p := by
  induction p with
  | ret a => rfl
  | fail e => rfl
  | act op k ih => simp only [bind, ih]

theorem bind_bind (p : Prog Op Res E α) (f : α → Prog Op Res E β) (g : β → Prog Op Res E γ) :
    (p.bind f).bind g = p.bind fun a => (f a).bind g := by
  induction p with
  | ret a => rfl
  | fail e => rfl
  | act op k ih => simp only [bind, ih]

instance : LawfulMonad (Prog Op Res E) :=
  LawfulMonad.mk' _ (fun p => bind_ret p) (fun _ _ => rfl) (fun p f g => bind_bind p f g)

end Prog

/-- The atomic steps of a system: what an operation performed by a process
answers, and the state it leaves. -/
structure Machine (ι : Type) (Op : Type) (Res : Op → Type) (σ : Type) where
  step : ι → (op : Op) → σ → Res op × σ

namespace Prog

variable {ι Op : Type} {Res : Op → Type} {σ E α β : Type} (M : Machine ι Op Res σ) (i : ι)

/-- The rest of the program and the state reached after `n` atomic steps. -/
def after : Nat → Prog Op Res E α → σ → Prog Op Res E α × σ
  | n + 1, .act op k, s => after n (k (M.step i op s).1) (M.step i op s).2
  | _, p, s => (p, s)

@[simp] theorem after_zero (p : Prog Op Res E α) (s : σ) : p.after M i 0 s = (p, s) := by
  cases p <;> rfl

@[simp] theorem after_ret (n : Nat) (a : α) (s : σ) :
    (Prog.ret a : Prog Op Res E α).after M i n s = (.ret a, s) := by
  cases n <;> rfl

@[simp] theorem after_fail (n : Nat) (e : E) (s : σ) :
    (Prog.fail e : Prog Op Res E α).after M i n s = (.fail e, s) := by
  cases n <;> rfl

/-- The state left behind by a program cut off after `n` atomic steps. -/
def cut (n : Nat) (p : Prog Op Res E α) (s : σ) : σ := (p.after M i n s).2

def run : Prog Op Res E α → σ → Except E α × σ
  | .ret a, s => (.ok a, s)
  | .fail e, s => (.error e, s)
  | .act op k, s => run (k (M.step i op s).1) (M.step i op s).2

@[simp] theorem run_ret (a : α) (s : σ) :
    (Prog.ret a : Prog Op Res E α).run M i s = (.ok a, s) := rfl

@[simp] theorem run_fail (e : E) (s : σ) :
    (Prog.fail e : Prog Op Res E α).run M i s = (.error e, s) := rfl

@[simp] theorem run_act (op : Op) (k : Res op → Prog Op Res E α) (s : σ) :
    (Prog.act op k).run M i s = (k (M.step i op s).1).run M i (M.step i op s).2 := rfl

theorem run_bind (p : Prog Op Res E α) (f : α → Prog Op Res E β) (s : σ) :
    (p.bind f).run M i s = match p.run M i s with
      | (.ok a, s') => (f a).run M i s'
      | (.error e, s') => (.error e, s') := by
  induction p generalizing s with
  | ret a => rfl
  | fail e => rfl
  | act op k ih => exact ih _ _

theorem run_seq {p : Prog Op Res E α} {f : α → Prog Op Res E β} {s s' : σ} {a : α}
    (h : p.run M i s = (.ok a, s')) : (p >>= f).run M i s = (f a).run M i s' := by
  change (p.bind f).run M i s = _
  rw [run_bind, h]

theorem run_seq_error {p : Prog Op Res E α} {f : α → Prog Op Res E β} {s s' : σ} {e : E}
    (h : p.run M i s = (.error e, s')) : (p >>= f).run M i s = (.error e, s') := by
  change (p.bind f).run M i s = _
  rw [run_bind, h]

/-- What becomes of the returned value does not concern the state. -/
theorem run_map_state (p : Prog Op Res E α) (f : α → β) (s : σ) :
    ((f <$> p).run M i s).2 = (p.run M i s).2 := by
  induction p generalizing s with
  | ret a => rfl
  | fail e => rfl
  | act op k ih => exact ih _ _

theorem cut_map (p : Prog Op Res E α) (f : α → β) (n : Nat) (s : σ) :
    (f <$> p).cut M i n s = p.cut M i n s := by
  induction p generalizing s n with
  | ret a => cases n <;> rfl
  | fail e => cases n <;> rfl
  | act op k ih =>
    cases n with
    | zero => rfl
    | succ n => exact ih _ n _

/-- A sequence that returns has run both of its parts. -/
theorem run_seq_ok {p : Prog Op Res E α} {f : α → Prog Op Res E β} {s s' : σ} {b : β}
    (h : (p >>= f).run M i s = (.ok b, s')) :
    ∃ a u, p.run M i s = (.ok a, u) ∧ (f a).run M i u = (.ok b, s') := by
  rcases hp : p.run M i s with ⟨a | a, u⟩
  · rw [run_seq_error M i hp] at h
    cases h
  · rw [run_seq M i hp] at h
    exact ⟨a, u, rfl, h⟩

/-- A sequence that returns is cut off within its first part, or within what follows
what that part returns. -/
theorem cut_seq_ok {p : Prog Op Res E α} {f : α → Prog Op Res E β} {s s' : σ} {b : β}
    (h : (p >>= f).run M i s = (.ok b, s')) : ∃ a u, p.run M i s = (.ok a, u) ∧
      (f a).run M i u = (.ok b, s') ∧ ∀ n, (∃ m, (p >>= f).cut M i n s = p.cut M i m s) ∨
        ∃ m, (p >>= f).cut M i n s = (f a).cut M i m u := by
  induction p generalizing s with
  | ret a => exact ⟨a, s, rfl, h, fun n => .inr ⟨n, rfl⟩⟩
  | fail e => cases h
  | act op k ih =>
    obtain ⟨a, u, hp, hf, hcut⟩ := ih _ h
    refine ⟨a, u, hp, hf, fun n => ?_⟩
    cases n with
    | zero => exact .inl ⟨0, rfl⟩
    | succ n =>
      rcases hcut n with ⟨m, hm⟩ | ⟨m, hm⟩
      · exact .inl ⟨m + 1, hm⟩
      · exact .inr ⟨m, hm⟩

/-- A program that performs no operation leaves the state alone. -/
theorem cut_bind_pure (p : Prog Op Res E α) {f : α → Prog Op Res E β}
    (hf : ∀ a n s, (f a).cut M i n s = s) (n : Nat) (s : σ) :
    (p.bind f).cut M i n s = p.cut M i n s := by
  induction p generalizing s n with
  | ret a =>
    rw [bind, hf]
    cases n <;> rfl
  | fail e => cases n <;> rfl
  | act op k ih =>
    cases n with
    | zero => rfl
    | succ n => exact ih _ n _

/-- A program with a closing part is cut off within it, or before. -/
theorem cut_ensuring (p : Prog Op Res E α) (c : Prog Op Res E Unit) (n : Nat) (s : σ) :
    (∃ m, (p.ensuring c).cut M i n s = p.cut M i m s) ∨
      ∃ m, (p.ensuring c).cut M i n s = c.cut M i m (p.run M i s).2 := by
  induction p generalizing s n with
  | ret a => exact .inr ⟨n, cut_bind_pure M i c (fun _ n _ => by cases n <;> rfl) n s⟩
  | fail e => exact .inr ⟨n, cut_bind_pure M i c (fun _ n _ => by cases n <;> rfl) n s⟩
  | act op k ih =>
    cases n with
    | zero => exact .inl ⟨0, rfl⟩
    | succ n =>
      rcases ih (M.step i op s).1 n (M.step i op s).2 with ⟨m, hm⟩ | ⟨m, hm⟩
      · exact .inl ⟨m + 1, hm⟩
      · exact .inr ⟨m, hm⟩

/-- A completed run ends where it is cut off after its last step. -/
theorem run_state_eq_cut (p : Prog Op Res E α) (s : σ) : ∃ n, (p.run M i s).2 = p.cut M i n s := by
  induction p generalizing s with
  | ret a => exact ⟨0, rfl⟩
  | fail e => exact ⟨0, rfl⟩
  | act op k ih =>
    obtain ⟨n, hn⟩ := ih (M.step i op s).1 (M.step i op s).2
    exact ⟨n + 1, hn⟩

/-- The program run alone returns a value. -/
def Returns (p : Prog Op Res E α) (s : σ) : Prop := ∃ a s', p.run M i s = (.ok a, s')

theorem returns_ret (a : α) (s : σ) : (Prog.ret a : Prog Op Res E α).Returns M i s := ⟨a, s, rfl⟩

theorem returns_seq {p : Prog Op Res E α} {f : α → Prog Op Res E β} {s : σ}
    (hp : p.Returns M i s) (hf : ∀ a s', p.run M i s = (.ok a, s') → (f a).Returns M i s') :
    (p >>= f).Returns M i s := by
  obtain ⟨a, s', hrun⟩ := hp
  obtain ⟨b, s'', hrest⟩ := hf a s' hrun
  exact ⟨b, s'', by rw [run_seq M i hrun, hrest]⟩

theorem run_handle_ok {p : Prog Op Res E α} {h : E → Prog Op Res E α} {s s' : σ} {a : α}
    (hp : p.run M i s = (.ok a, s')) : (p.handle h).run M i s = (.ok a, s') := by
  induction p generalizing s with
  | ret b => exact hp
  | fail e => cases hp
  | act op k ih => exact ih _ hp

theorem run_handle_error {p : Prog Op Res E α} {h : E → Prog Op Res E α} {s s' : σ} {e : E}
    (hp : p.run M i s = (.error e, s')) : (p.handle h).run M i s = (h e).run M i s' := by
  induction p generalizing s with
  | ret b => cases hp
  | fail e' =>
    cases hp
    rfl
  | act op k ih => exact ih _ hp

theorem run_ensuring (p : Prog Op Res E α) (c : Prog Op Res E Unit) (s : σ) :
    (p.ensuring c).run M i s = match c.run M i (p.run M i s).2 with
      | (.ok _, s') => ((p.run M i s).1, s')
      | (.error e, s') => (.error e, s') := by
  induction p generalizing s with
  | ret a =>
    rw [ensuring, run_bind, run_ret]
    obtain ⟨r, s'⟩ := c.run M i s
    cases r <;> rfl
  | fail e =>
    rw [ensuring, run_bind, run_fail]
    obtain ⟨r, s'⟩ := c.run M i s
    cases r <;> rfl
  | act op k ih => exact ih _ _

/-- A postcondition given separately for a returned value and for an error. -/
def onResult (ok : α → σ → Prop) (err : E → σ → Prop) : Except E α → σ → Prop
  | .ok a, s => ok a s
  | .error e, s => err e s

@[simp] theorem onResult_ok (ok : α → σ → Prop) (err : E → σ → Prop) (a : α) (s : σ) :
    onResult ok err (.ok a) s ↔ ok a s := Iff.rfl

@[simp] theorem onResult_error (ok : α → σ → Prop) (err : E → σ → Prop) (e : E) (s : σ) :
    onResult ok err (.error e) s ↔ err e s := Iff.rfl

/-- A program run among others, which may move the state along `R` before each
of its atomic steps: every step leaves the state alone or is related by `G`, and
the outcome and final state satisfy `Q`. -/
def wp (R G : σ → σ → Prop) : Prog Op Res E α → (Except E α → σ → Prop) → σ → Prop
  | .ret a, Q, s => Q (.ok a) s
  | .fail e, Q, s => Q (.error e) s
  | .act op k, Q, s => ∀ s', R s s' →
    ((M.step i op s').2 = s' ∨ G s' (M.step i op s').2) ∧
      wp R G (k (M.step i op s').1) Q (M.step i op s').2

variable {M i}

section Rules

variable {R R' G G' : σ → σ → Prop} {Q Q' : Except E α → σ → Prop} {s s' : σ}

@[simp] theorem wp_ret (a : α) : wp M i R G (.ret a) Q s ↔ Q (.ok a) s := Iff.rfl

@[simp] theorem wp_fail (e : E) : wp M i R G (.fail e) Q s ↔ Q (.error e) s := Iff.rfl

theorem wp_act (op : Op) (k : Res op → Prog Op Res E α) :
    wp M i R G (.act op k) Q s ↔ ∀ s', R s s' →
      ((M.step i op s').2 = s' ∨ G s' (M.step i op s').2) ∧
        wp M i R G (k (M.step i op s').1) Q (M.step i op s').2 := Iff.rfl

@[simp] theorem wp_ofExcept (r : Except E α) : wp M i R G (ofExcept r) Q s ↔ Q r s := by
  cases r <;> rfl

theorem wp_mono {p : Prog Op Res E α} (hR : ∀ a b, R' a b → R a b) (hG : ∀ a b, G a b → G' a b)
    (hQ : ∀ r a, Q r a → Q' r a) (h : wp M i R G p Q s) : wp M i R' G' p Q' s := by
  induction p generalizing s with
  | ret a => exact hQ _ _ h
  | fail e => exact hQ _ _ h
  | act op k ih =>
    intro s' hs
    obtain ⟨hstep, hrest⟩ := h s' (hR _ _ hs)
    exact ⟨hstep.imp_right (hG _ _), ih _ hrest⟩

theorem wp_post {p : Prog Op Res E α} (h : wp M i R G p Q s)
    (hQ : ∀ r a, Q r a → Q' r a) : wp M i R G p Q' s :=
  wp_mono (fun _ _ => id) (fun _ _ => id) hQ h

/-- What is proved about the rest of a program stays true while the others move. -/
theorem wp_stable {p : Prog Op Res E α} (htrans : ∀ a b c, R a b → R b c → R a c)
    (hQ : ∀ r a b, Q r a → R a b → Q r b) (h : wp M i R G p Q s) (hs : R s s') :
    wp M i R G p Q s' := by
  cases p with
  | ret a => exact hQ _ _ _ h hs
  | fail e => exact hQ _ _ _ h hs
  | act op k => exact fun a ha => h a (htrans _ _ _ hs ha)

theorem wp_bind {p : Prog Op Res E α} {f : α → Prog Op Res E β}
    {Q : Except E β → σ → Prop} :
    wp M i R G (p.bind f) Q s ↔
      wp M i R G p (onResult (fun a => wp M i R G (f a) Q) fun e => Q (.error e)) s := by
  induction p generalizing s with
  | ret a => rfl
  | fail e => rfl
  | act op k ih => simp only [bind, wp_act, ih]

/-- What both sides preserve holds at the end as well. -/
theorem wp_invariant {p : Prog Op Res E α} {I : σ → Prop} (hR : ∀ a b, I a → R a b → I b)
    (hG : ∀ a b, I a → G a b → I b) (hs : I s) (h : wp M i R G p Q s) :
    wp M i R G p (fun r a => Q r a ∧ I a) s := by
  induction p generalizing s with
  | ret a => exact ⟨h, hs⟩
  | fail e => exact ⟨h, hs⟩
  | act op k ih =>
    intro s' hs'
    obtain ⟨hstep, hrest⟩ := h s' hs'
    have hI := hR s s' hs hs'
    refine ⟨hstep, ih _ ?_ hrest⟩
    rcases hstep with heq | hG'
    · rwa [heq]
    · exact hG _ _ hI hG'

section While

/-- Steps of a kind that holds while `N` does; `D` is what every step is. -/
def While (D : σ → σ → Prop) (N : σ → Prop) (R : σ → σ → Prop) (a b : σ) : Prop :=
  D a b ∧ (N b → R a b)

variable {D : σ → σ → Prop} {N : σ → Prop}

/-- Where `N` has failed there is nothing left to prove. -/
theorem wp_failed (hD : ∀ a b, D a b → N b → N a) (hstep : ∀ op a, D a (M.step i op a).2)
    {p : Prog Op Res E α} (hs : ¬ N s) :
    wp M i (While D N R) (While D N G) p (fun r a => N a → Q r a) s := by
  induction p generalizing s with
  | ret a => exact fun hn => absurd hn hs
  | fail e => exact fun hn => absurd hn hs
  | act op k ih =>
    intro s' hs'
    have hno : ¬ N s' := fun hn => hs (hD _ _ hs'.1 hn)
    have hnext : ¬ N (M.step i op s').2 := fun hn => hno (hD _ _ (hstep op s') hn)
    exact ⟨.inr ⟨hstep op s', fun hn => absurd hn hnext⟩, ih _ hnext⟩

/-- What is proved of a program may rest on what holds throughout a run. -/
theorem wp_while (hD : ∀ a b, D a b → N b → N a) (hstep : ∀ op a, D a (M.step i op a).2)
    {p : Prog Op Res E α} (h : wp M i R G p Q s) :
    wp M i (While D N R) (While D N G) p (fun r a => N a → Q r a) s := by
  induction p generalizing s with
  | ret a => exact fun _ => h
  | fail e => exact fun _ => h
  | act op k ih =>
    intro s' hs'
    by_cases hn : N s'
    · obtain ⟨hnext, hrest⟩ := h s' (hs'.2 hn)
      refine ⟨hnext.imp_right fun hG => ⟨hstep op s', fun _ => hG⟩, ih _ hrest⟩
    · have hno : ¬ N (M.step i op s').2 := fun h' => hn (hD _ _ (hstep op s') h')
      exact ⟨.inr ⟨hstep op s', fun h' => absurd h' hno⟩, wp_failed hD hstep hno⟩

end While

@[simp] theorem wp_seq {p : Prog Op Res E α} {f : α → Prog Op Res E β}
    {Q : Except E β → σ → Prop} :
    wp M i R G (p >>= f) Q s ↔
      wp M i R G p (onResult (fun a => wp M i R G (f a) Q) fun e => Q (.error e)) s := wp_bind

@[simp] theorem wp_map {p : Prog Op Res E α} {f : α → β} {Q : Except E β → σ → Prop} :
    wp M i R G (f <$> p) Q s ↔
      wp M i R G p (onResult (fun a => Q (.ok (f a))) fun e => Q (.error e)) s := wp_bind

@[simp] theorem wp_handle {p : Prog Op Res E α} {h : E → Prog Op Res E α} :
    wp M i R G (p.handle h) Q s ↔
      wp M i R G p (onResult (fun a => Q (.ok a)) fun e => wp M i R G (h e) Q) s := by
  induction p generalizing s with
  | ret a => rfl
  | fail e => rfl
  | act op k ih => simp only [handle, wp_act, ih]

@[simp] theorem wp_ensuring {p : Prog Op Res E α} {c : Prog Op Res E Unit} :
    wp M i R G (p.ensuring c) Q s ↔
      wp M i R G p (fun r => wp M i R G c (onResult (fun _ => Q r) fun e => Q (.error e))) s := by
  induction p generalizing s with
  | ret a => exact wp_bind
  | fail e => exact wp_bind
  | act op k ih => simp only [ensuring, wp_act, ih]

end Rules

section Soundness

variable {R G : σ → σ → Prop} {Q : Except E α → σ → Prop} {s : σ}

/-- A program that runs alone reaches its postcondition. -/
theorem run_of_wp {p : Prog Op Res E α} (hrefl : ∀ a, R a a) (h : wp M i R G p Q s) :
    Q (p.run M i s).1 (p.run M i s).2 := by
  induction p generalizing s with
  | ret a => exact h
  | fail e => exact h
  | act op k ih => exact ih _ (h s (hrefl s)).2

/-- A state reached by cutting the program off is linked to the start by the
step relation. -/
theorem cut_of_wp {p : Prog Op Res E α} (hrefl : ∀ a, R a a) (h : wp M i R G p Q s) (n : Nat) :
    Relation.ReflTransGen G s (p.cut M i n s) := by
  induction p generalizing s n with
  | ret a => cases n <;> exact .refl
  | fail e => cases n <;> exact .refl
  | act op k ih =>
    cases n with
    | zero => exact .refl
    | succ n =>
      obtain ⟨hstep, hrest⟩ := h s (hrefl s)
      rcases hstep with hs | hs
      · have hcut := ih _ hrest n
        rw [hs] at hcut
        simpa only [cut, after, hs] using hcut
      · exact .head hs (ih _ hrest n)

/-- What every step of the program preserves holds wherever it is cut off. -/
theorem cut_invariant {p : Prog Op Res E α} {I : σ → Prop} (hrefl : ∀ a, R a a)
    (h : wp M i R G p Q s) (hG : ∀ a b, I a → G a b → I b) (hs : I s) (n : Nat) :
    I (p.cut M i n s) := by
  have hsteps := cut_of_wp hrefl h n
  generalize p.cut M i n s = t at hsteps
  induction hsteps with
  | refl => exact hs
  | tail _ hstep ih => exact hG _ _ ih hstep

end Soundness

end Prog

end program
