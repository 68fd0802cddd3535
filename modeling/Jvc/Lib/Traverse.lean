import Mathlib.Tactic.Common

namespace traverse

variable {α β γ ε : Type} {f : α → Except ε β} {l : List α}

/-- What a computation with a first step gives is given by the rest of it. -/
theorem bind_ok {x : Except ε α} {g : α → Except ε β} {b : β} :
    (x >>= g) = .ok b ↔ ∃ a, x = .ok a ∧ g a = .ok b := by
  cases x with
  | error e =>
    constructor
    · intro h
      cases h
    · rintro ⟨a, h, -⟩
      cases h
  | ok a =>
    constructor
    · intro h
      exact ⟨a, rfl, h⟩
    · rintro ⟨a', h, hb⟩
      cases h
      exact hb

/-- A guard that raises lets through what it does not stop. -/
theorem guard_ok {c : Prop} [Decidable c] {e : ε} {g : γ → Except ε β} {x : Except ε β} {b : β} :
    (if c then throw e >>= g else x) = .ok b ↔ ¬ c ∧ x = .ok b := by
  split
  · rename_i hc
    constructor
    · intro h
      cases h
    · rintro ⟨hnot, -⟩
      exact absurd hc hnot
  · rename_i hc
    exact ⟨fun h => ⟨hc, h⟩, fun h => h.2⟩

theorem last_guard_ok {c : Prop} [Decidable c] {e : ε} {done : Unit} :
    (if c then throw e else pure () : Except ε Unit) = .ok done ↔ ¬ c := by
  split
  · rename_i hc
    constructor
    · intro h
      cases h
    · intro hnot
      exact absurd hc hnot
  · rename_i hc
    exact ⟨fun _ => hc, fun _ => rfl⟩

theorem pure_ok {a b : α} : (pure a : Except ε α) = .ok b ↔ a = b := Except.ok.injEq a b ▸ Iff.rfl

theorem mapM_ok {g : α → β} (h : ∀ a ∈ l, f a = .ok (g a)) : l.mapM f = .ok (l.map g) := by
  induction l with
  | nil => rfl
  | cons a l ih =>
    have hrest := ih fun b hb => h b (List.mem_cons_of_mem a hb)
    rw [List.mapM_cons, h a List.mem_cons_self, hrest]
    rfl

/-- A traversal has a result exactly where each of its elements has one. -/
theorem mapM_ok_iff : (∃ bs, l.mapM f = .ok bs) ↔ ∀ a ∈ l, ∃ b, f a = .ok b := by
  induction l with
  | nil => exact ⟨fun _ a ha => (by cases ha), fun _ => ⟨[], rfl⟩⟩
  | cons a l ih =>
    rw [List.forall_mem_cons, ← ih]
    constructor
    · rintro ⟨bs, h⟩
      rw [List.mapM_cons, bind_ok] at h
      obtain ⟨b, hfirst, h⟩ := h
      rw [bind_ok] at h
      obtain ⟨bs', hrest, -⟩ := h
      exact ⟨⟨b, hfirst⟩, bs', hrest⟩
    · rintro ⟨⟨b, hfirst⟩, bs, hrest⟩
      refine ⟨b :: bs, ?_⟩
      rw [List.mapM_cons, hfirst, hrest]
      rfl

theorem forM_ok_iff {f : α → Except ε Unit} {done : Unit} :
    forM l f = .ok done ↔ ∀ a ∈ l, f a = .ok () := by
  induction l with
  | nil => exact ⟨fun _ a ha => (by cases ha), fun _ => rfl⟩
  | cons a l ih =>
    rw [List.forall_mem_cons, ← ih, List.forM_cons, bind_ok]
    constructor
    · rintro ⟨⟨⟩, hfirst, hrest⟩
      exact ⟨hfirst, hrest⟩
    · rintro ⟨hfirst, hrest⟩
      exact ⟨(), hfirst, hrest⟩

end traverse
