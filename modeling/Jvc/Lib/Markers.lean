import Mathlib.Data.List.Infix

namespace markers

variable {α : Type} [DecidableEq α]

/-- `text.split(marker, 1)` where the marker occurs: what is before its first occurrence
and what is behind it. -/
def cut (marker : List α) : List α → Option (List α × List α)
  | [] => if marker.isPrefixOf [] then some ([], []) else none
  | c :: cs =>
    if marker.isPrefixOf (c :: cs) then some ([], (c :: cs).drop marker.length)
    else (cut marker cs).map fun (front, back) => (c :: front, back)

/-- `text.split(marker, 1)` -/
def split (marker text : List α) : List (List α) :=
  match cut marker text with
  | some (front, back) => [front, back]
  | none => [text]

/-- `text.count(marker)`, with the number of elements of the last occurrence that are
still to be passed. -/
def countFrom (marker : List α) : Nat → List α → Nat
  | _, [] => 0
  | skip + 1, _ :: cs => countFrom marker skip cs
  | 0, c :: cs =>
    if marker.isPrefixOf (c :: cs) then countFrom marker (marker.length - 1) cs + 1
    else countFrom marker 0 cs

/-- `text.count(marker)` for a marker that is not empty. -/
def count (marker text : List α) : Nat := countFrom marker 0 text

/-- The marker occurs in one place. -/
def Once (marker text : List α) : Prop :=
  ∃ front back, text = front ++ marker ++ back ∧
    ∀ front' back', text = front' ++ marker ++ back' → front' = front

section Cut

variable {marker text front back : List α}

theorem cut_spec (h : cut marker text = some (front, back)) : text = front ++ marker ++ back := by
  induction text generalizing front with
  | nil =>
    rw [cut] at h
    split at h
    · rename_i hstart
      rw [List.isPrefixOf_iff_prefix, List.prefix_nil] at hstart
      cases h
      rw [hstart]
      rfl
    · cases h
  | cons c cs ih =>
    rw [cut] at h
    split at h
    · rename_i hstart
      obtain ⟨rest, hrest⟩ := List.isPrefixOf_iff_prefix.mp hstart
      cases h
      rw [← hrest, List.drop_left, List.nil_append]
    · obtain ⟨⟨front', back'⟩, hcut, heq⟩ := Option.map_eq_some_iff.mp h
      cases heq
      rw [ih hcut]
      rfl

theorem split_of_cut (h : cut marker text = some (front, back)) : split marker text = [front, back] := by
  rw [split, h]

theorem cut_eq_none (h : cut marker text = none) : ¬ marker <:+: text := by
  induction text with
  | nil =>
    rw [cut] at h
    split at h
    · cases h
    · rename_i hstart
      intro hinfix
      apply hstart
      rw [List.isPrefixOf_iff_prefix, List.eq_nil_of_infix_nil hinfix]
  | cons c cs ih =>
    rw [cut] at h
    split at h
    · cases h
    · rename_i hstart
      rw [Option.map_eq_none_iff] at h
      rw [List.infix_cons_iff]
      rintro (hfirst | hlater)
      · exact hstart (List.isPrefixOf_iff_prefix.mpr hfirst)
      · exact ih h hlater

/-- A marker that occurs once is cut out there. -/
theorem cut_of_once (h : Once marker text) : ∃ front back, cut marker text = some (front, back) ∧
    text = front ++ marker ++ back ∧
      ∀ front' back', text = front' ++ marker ++ back' → front' = front ∧ back' = back := by
  obtain ⟨front, back, heq, honly⟩ := h
  cases hcut : cut marker text with
  | none => exact absurd ⟨front, back, heq.symm⟩ (cut_eq_none hcut)
  | some found =>
    obtain ⟨front', back'⟩ := found
    have hspec := cut_spec hcut
    refine ⟨front', back', rfl, hspec, fun front'' back'' h => ?_⟩
    have hfront : front'' = front' := (honly _ _ h).trans (honly _ _ hspec).symm
    refine ⟨hfront, ?_⟩
    rw [hfront, hspec] at h
    exact (List.append_cancel_left h).symm

end Cut

section Count

variable {x : α} {rest text : List α}

omit [DecidableEq α] in
/-- A marker whose first element occurs nowhere else in it does not overlap itself. -/
theorem shift_of_overlap (hx : x ∉ rest) {behind front back : List α} (hfront : front ≠ [])
    (h : (x :: rest) ++ behind = front ++ (x :: rest) ++ back) :
    ∃ front', front = (x :: rest) ++ front' ∧ behind = front' ++ (x :: rest) ++ back := by
  rw [List.append_assoc, List.append_eq_append_iff] at h
  rcases h with ⟨front', hf, hb⟩ | ⟨inside, hm, hb⟩
  · exact ⟨front', hf, by rw [hb, List.append_assoc]⟩
  · cases inside with
    | nil =>
      rw [List.append_nil] at hm
      rw [List.nil_append] at hb
      exact ⟨[], by rw [hm, List.append_nil], by rw [← hb, List.nil_append]⟩
    | cons y inside =>
      rw [List.cons_append, List.cons_append, List.cons.injEq] at hb
      cases front with
      | nil => exact absurd rfl hfront
      | cons z front =>
        rw [List.cons_append, List.cons.injEq] at hm
        rw [hm.2, hb.1] at hx
        exact absurd (List.mem_append_right _ List.mem_cons_self) hx

theorem countFrom_skip (marker front cs : List α) :
    countFrom marker front.length (front ++ cs) = countFrom marker 0 cs := by
  induction front with
  | nil => rfl
  | cons c front ih => exact ih

theorem count_prefix (behind : List α) :
    count (x :: rest) ((x :: rest) ++ behind) = count (x :: rest) behind + 1 := by
  have hstart : (x :: rest).isPrefixOf (x :: (rest ++ behind)) = true :=
    List.isPrefixOf_iff_prefix.mpr (List.prefix_append (x :: rest) behind)
  rw [count, List.cons_append, countFrom, if_pos hstart, List.length_cons, Nat.add_sub_cancel,
    countFrom_skip, count]

theorem count_cons {c : α} {cs : List α} (h : ¬ (x :: rest) <+: (c :: cs)) :
    count (x :: rest) (c :: cs) = count (x :: rest) cs := by
  rw [← List.isPrefixOf_iff_prefix] at h
  rw [count, countFrom, if_neg h, count]

/-- A front without the first element of the marker adds nothing to the count. -/
theorem count_append {front : List α} (h : x ∉ front) (back : List α) :
    count (x :: rest) (front ++ back) = count (x :: rest) back := by
  induction front with
  | nil => rfl
  | cons c front ih =>
    rw [List.mem_cons, not_or] at h
    have hstart : ¬ (x :: rest) <+: (c :: (front ++ back)) := by
      rw [List.cons_prefix_cons]
      exact fun hfirst => h.1 hfirst.1
    rw [List.cons_append, count_cons hstart, ih h.2]

theorem count_eq_zero : count (x :: rest) text = 0 ↔ ¬ (x :: rest) <:+: text := by
  induction text with
  | nil => simp [count, countFrom]
  | cons c cs ih =>
    by_cases hstart : (x :: rest) <+: (c :: cs)
    · obtain ⟨behind, hbehind⟩ := hstart
      rw [← hbehind, count_prefix]
      constructor
      · intro h
        cases h
      · intro h
        exact absurd (List.prefix_append _ _).isInfix h
    · rw [count_cons hstart, ih, List.infix_cons_iff, not_or]
      exact ⟨fun h => ⟨hstart, h⟩, And.right⟩

/-- The count is one if the marker occurs in one place. -/
theorem count_eq_one (hx : x ∉ rest) : count (x :: rest) text = 1 ↔ Once (x :: rest) text := by
  induction text with
  | nil =>
    constructor
    · intro h
      cases h
    · rintro ⟨front, back, heq, -⟩
      simp at heq
  | cons c cs ih =>
    by_cases hstart : (x :: rest) <+: (c :: cs)
    · obtain ⟨behind, hbehind⟩ := hstart
      rw [← hbehind, count_prefix, Nat.add_eq_right, count_eq_zero]
      constructor
      · intro hnone
        refine ⟨[], behind, rfl, fun front back h => ?_⟩
        by_contra hfront
        obtain ⟨front', -, hlater⟩ := shift_of_overlap hx hfront h
        exact hnone ⟨front', back, hlater.symm⟩
      · rintro ⟨front, back, -, honly⟩ ⟨front', back', hlater⟩
        have hfirst := honly [] behind rfl
        have hsecond := honly ((x :: rest) ++ front') back' (by
          rw [← hlater]
          simp only [List.append_assoc])
        rw [← hfirst] at hsecond
        cases hsecond
    · rw [count_cons hstart, ih]
      have hshift : ∀ front back, c :: cs = front ++ (x :: rest) ++ back →
          ∃ front', front = c :: front' ∧ cs = front' ++ (x :: rest) ++ back := by
        intro front back h
        cases front with
        | nil => exact absurd ⟨back, h.symm⟩ hstart
        | cons d front =>
          rw [List.cons_append, List.cons_append, List.cons.injEq] at h
          exact ⟨front, by rw [h.1], h.2⟩
      constructor
      · rintro ⟨front, back, heq, honly⟩
        refine ⟨c :: front, back, by rw [heq]; rfl, fun front' back' h => ?_⟩
        obtain ⟨front'', hf, hcs⟩ := hshift front' back' h
        rw [hf, honly front'' back' hcs]
      · rintro ⟨front, back, heq, honly⟩
        obtain ⟨front', hf, hcs⟩ := hshift front back heq
        refine ⟨front', back, hcs, fun front'' back'' h => ?_⟩
        have hsame := honly (c :: front'') back'' (by rw [h]; rfl)
        rw [hf] at hsame
        exact (List.cons.inj hsame).2

end Count

end markers
