import Mathlib.Tactic.Common

namespace ascii

theorem toNat_toLower {c : Char} (h : 65 ≤ c.toNat ∧ c.toNat ≤ 90) :
    c.toLower.toNat = c.toNat + 32 := by
  have hupper : c.val ≥ 'A'.val ∧ c.val ≤ 'Z'.val := by
    constructor
    · exact UInt32.le_iff_toNat_le.mpr h.1
    · exact UInt32.le_iff_toNat_le.mpr h.2
  have hval : c.toLower.val = c.val + ('a'.val - 'A'.val) := by
    delta Char.toLower
    rw [dif_pos hupper]
  have hn : ('a'.val - 'A'.val).toNat = 32 := by decide
  have h2 := h.2
  rw [← Char.toNat_val, hval, UInt32.toNat_add, hn, Char.toNat_val]
  omega

theorem toLower_eq_self {c : Char} (h : ¬ (65 ≤ c.toNat ∧ c.toNat ≤ 90)) : c.toLower = c := by
  have hlower : ¬ (c.val ≥ 'A'.val ∧ c.val ≤ 'Z'.val) := by
    rintro ⟨hl, hu⟩
    exact h ⟨UInt32.le_iff_toNat_le.mp hl, UInt32.le_iff_toNat_le.mp hu⟩
  exact dif_neg hlower

theorem toLower_of_notUpper {c : Char} (h : c.isUpper = false) : c.toLower = c := by
  apply toLower_eq_self
  rintro ⟨hl, hu⟩
  have hupper : c.isUpper = true := by
    delta Char.isUpper
    rw [decide_eq_true_eq]
    exact ⟨UInt32.le_iff_toNat_le.mpr hl, UInt32.le_iff_toNat_le.mpr hu⟩
  rw [h] at hupper
  cases hupper

theorem mark_toLower {c m : Char} (h : m = c.toLower) (hmark : m = '/' ∨ m = '.') : c = m := by
  by_cases hupper : 65 ≤ c.toNat ∧ c.toNat ≤ 90
  · have hlower := toNat_toLower hupper
    rw [← h] at hlower
    rcases hmark with rfl | rfl
    · have hslash : ('/' : Char).toNat = 47 := by decide
      omega
    · have hdot : ('.' : Char).toNat = 46 := by decide
      omega
  · rw [toLower_eq_self hupper] at h
    exact h.symm

theorem toLower_toLower (c : Char) : c.toLower.toLower = c.toLower := by
  by_cases hupper : 65 ≤ c.toNat ∧ c.toNat ≤ 90
  · have hlower := toNat_toLower hupper
    apply toLower_eq_self
    omega
  · rw [toLower_eq_self hupper, toLower_eq_self hupper]

/-- Only a line feed becomes one. -/
theorem toLower_ne_newline {c : Char} (h : c ≠ '\n') : c.toLower ≠ '\n' := by
  intro heq
  by_cases hupper : 65 ≤ c.toNat ∧ c.toNat ≤ 90
  · have hlower := toNat_toLower hupper
    rw [heq] at hlower
    have hline : ('\n' : Char).toNat = 10 := by decide
    omega
  · rw [toLower_eq_self hupper] at heq
    exact h heq

end ascii
