import Jvc.Lib.Lines
import Jvc.Policy.Boundaries

namespace jvc.policy

section Components

theorem mem_components {cs : List Char} {part : String} (h : part ∈ components cs) :
    part ≠ "" ∧ ∀ c ∈ part.toList, c ∈ cs ∧ c ≠ '/' := by
  simp only [components, List.mem_map, List.mem_filter] at h
  obtain ⟨l, ⟨hl, hne⟩, rfl⟩ := h
  refine ⟨fun hempty => ?_, fun c hc => ?_⟩
  · have hlist := congrArg String.toList hempty
    rw [String.toList_ofList] at hlist
    simp [hlist] at hne
  · rw [String.toList_ofList] at hc
    exact lines.mem_splitOn hl hc

/-- One component after those resolved so far, last first. -/
def resolveStep (done : List String) (part : String) : List String :=
  if part = "." then done else if part = ".." then done.tail else part :: done

theorem resolveParts_eq (parts : List String) :
    resolveParts parts = (parts.foldl resolveStep []).reverse := rfl

theorem length_resolve (parts done : List String) :
    (parts.foldl resolveStep done).length ≤ done.length + parts.length := by
  induction parts generalizing done with
  | nil => exact le_rfl
  | cons part parts ih =>
    refine (ih _).trans ?_
    rw [List.length_cons, resolveStep]
    split
    · omega
    · split
      · rw [List.length_tail]
        omega
      · rw [List.length_cons]
        omega

/-- What is resolved beyond the first `n` components was there before or is one of
the components read. -/
theorem mem_drop_resolve {parts done : List String} {n : Nat} {x : String}
    (h : x ∈ (parts.foldl resolveStep done).reverse.drop n) :
    x ∈ done.reverse.drop n ∨ (x ∈ parts ∧ x ≠ "." ∧ x ≠ "..") := by
  induction parts generalizing done with
  | nil => exact .inl h
  | cons part parts ih =>
    rcases ih h with h | ⟨hx, hdots⟩
    · rw [resolveStep] at h
      split at h
      · exact .inl h
      · rename_i hdot
        split at h
        · refine .inl ?_
          have htail : done.tail.reverse = done.reverse.dropLast := by
            rw [← List.reverse_reverse done, List.tail_reverse, List.reverse_reverse,
              List.reverse_reverse]
          rw [htail] at h
          exact (List.dropLast_prefix _).sublist.drop n |>.subset h
        · rename_i hdots
          rw [List.reverse_cons, List.drop_append] at h
          rcases List.mem_append.mp h with h | h
          · exact .inl h
          · have hpart := List.mem_singleton.mp (List.mem_of_mem_drop h)
            subst hpart
            exact .inr ⟨List.mem_cons_self, hdot, hdots⟩
    · exact .inr ⟨List.mem_cons_of_mem _ hx, hdots⟩

theorem mem_joined {parts : List String} {ch : Char} (h : ch ∈ ("/".intercalate parts).toList) :
    ch = '/' ∨ ∃ x ∈ parts, ch ∈ x.toList := by
  induction parts with
  | nil =>
    rw [String.intercalate_nil] at h
    cases h
  | cons x rest ih =>
    by_cases hrest : rest = []
    · subst hrest
      rw [String.intercalate_singleton] at h
      exact .inr ⟨x, List.mem_cons_self, h⟩
    · rw [String.intercalate_cons_of_ne_nil hrest, String.toList_append, String.toList_append] at h
      rcases List.mem_append.mp h with h | h
      · rcases List.mem_append.mp h with h | h
        · exact .inr ⟨x, List.mem_cons_self, h⟩
        · exact .inl (List.mem_singleton.mp h)
      · rcases ih h with heq | ⟨y, hy, h⟩
        · exact .inl heq
        · exact .inr ⟨y, List.mem_cons_of_mem x hy, h⟩

end Components

section Joining

variable {names : List String}

theorem toList_joined (names : List String) :
    ("/".intercalate names).toList = ['/'].intercalate (names.map String.toList) := by
  rw [String.toList_intercalate]
  rfl

/-- The components of joined names are these names. -/
theorem splitOn_joined (hne : names ≠ []) (hflat : ∀ x ∈ names, '/' ∉ x.toList) :
    ("/".intercalate names).toList.splitOn '/' = names.map String.toList := by
  rw [toList_joined, List.splitOn_intercalate]
  · intro l hl
    obtain ⟨x, hx, rfl⟩ := List.mem_map.mp hl
    exact hflat x hx
  · simpa using hne

theorem components_joined (hne : names ≠ []) (hflat : ∀ x ∈ names, x ≠ "" ∧ '/' ∉ x.toList) :
    components ("/".intercalate names).toList = names := by
  rw [components, splitOn_joined hne fun x hx => (hflat x hx).2, List.filter_eq_self.mpr,
    List.map_map]
  · have hid : String.ofList ∘ String.toList = id := funext fun _ => String.ofList_toList
    rw [hid, List.map_id]
  · intro l hl
    obtain ⟨x, hx, rfl⟩ := List.mem_map.mp hl
    have hx := (hflat x hx).1
    rw [decide_eq_true_eq]
    intro hnil
    exact hx (String.toList_injective hnil)

/-- Names are resolved already. -/
theorem resolveParts_names {parts : List String} (h : ∀ x ∈ parts, x ≠ "." ∧ x ≠ "..") :
    resolveParts parts = parts := by
  have hfold : ∀ done : List String, parts.foldl resolveStep done = parts.reverse ++ done := by
    induction parts with
    | nil => exact fun _ => rfl
    | cons x parts ih =>
      intro done
      obtain ⟨hdot, hdots⟩ := h x List.mem_cons_self
      rw [List.foldl_cons, resolveStep, if_neg hdot, if_neg hdots,
        ih fun y hy => h y (List.mem_cons_of_mem x hy), List.reverse_cons, List.append_assoc,
        List.singleton_append]
  rw [resolveParts_eq, hfold, List.append_nil, List.reverse_reverse]

theorem components_append_slash (xs ys : List Char) :
    components (xs ++ '/' :: ys) = components xs ++ components ys := by
  rw [components, List.splitOn, List.splitOnP_append_cons _ _ (by decide), List.filter_append,
    List.map_append]
  rfl

end Joining

section Resolved

/-- The components are names: none of them is empty, `.`, `..` or has a separator. -/
def ProperNames (parts : List String) : Prop :=
  ∀ x ∈ parts, x ≠ "" ∧ x ≠ "." ∧ x ≠ ".." ∧ '/' ∉ x.toList

variable {parts : List String}

theorem components_ofParts (h : ProperNames parts) : components (ofParts parts).toList = parts := by
  have hsplit : (ofParts parts).toList = [] ++ '/' :: ("/".intercalate parts).toList := by
    rw [ofParts, String.toList_append]
    rfl
  rw [hsplit, components_append_slash]
  have hnil : components [] = [] := rfl
  rw [hnil, List.nil_append]
  by_cases hparts : parts = []
  · subst hparts
    rfl
  · exact components_joined hparts fun x hx => ⟨(h x hx).1, (h x hx).2.2.2⟩

theorem resolved_ofParts (h : ProperNames parts) : resolved (ofParts parts) = ofParts parts := by
  rw [resolved, components_ofParts h, resolveParts_names fun x hx => ⟨(h x hx).2.1, (h x hx).2.2.1⟩]

theorem properNames_resolve (cs : List Char) : ProperNames (resolveParts (components cs)) := by
  intro x hx
  rw [resolveParts_eq] at hx
  obtain hnil | ⟨hmem, hdot, hdots⟩ := mem_drop_resolve (n := 0) hx
  · cases hnil
  · obtain ⟨hne, hchars⟩ := mem_components hmem
    exact ⟨hne, hdot, hdots, fun hslash => (hchars _ hslash).2 rfl⟩

/-- A file of a directory that is named by its absolute path. -/
theorem resolved_append {root name : String} (hroot : resolved root = root) (hne : root ≠ "/")
    (hname : ProperNames [name]) : resolved (root ++ "/" ++ name) = root ++ "/" ++ name := by
  have hbase : resolveParts (components root.toList) ≠ [] := by
    intro hnil
    rw [resolved, hnil] at hroot
    exact hne hroot.symm
  have hjoin : root ++ "/" ++ name = ofParts (resolveParts (components root.toList) ++ [name]) := by
    rw [ofParts, String.intercalate_append_of_ne_nil hbase (List.cons_ne_nil _ _),
      String.intercalate_singleton]
    conv_lhs => rw [← hroot, resolved, ofParts]
    simp only [String.append_assoc]
  rw [hjoin]
  refine resolved_ofParts fun x hx => ?_
  rcases List.mem_append.mp hx with hx | hx
  · exact properNames_resolve _ x hx
  · exact hname x hx

end Resolved

/-- The components of a root, and of the canonical path below it. -/
structure CanonicalParts (root : Path) (p : Path) (c : String) (parts : List String) : Prop where
  target : p = ofParts (resolveParts (components root.toList) ++ parts)
  canonical : c = "/".intercalate parts
  nonempty : parts ≠ []
  plain : ∀ x ∈ parts, x ≠ "" ∧ x ≠ "." ∧ x ≠ ".." ∧
    ∀ ch ∈ x.toList, ch ≠ '/' ∧ ch ≠ '\\' ∧ controlChar ch = false

theorem mem_strip {s : String} {c : Char} (h : c ∈ (strip s).toList) : c ∈ s.toList := by
  rw [strip, String.toList_ofList, List.mem_reverse] at h
  have hmid := List.dropWhile_subset _ h
  rw [List.mem_reverse] at hmid
  exact List.dropWhile_subset _ hmid

theorem not_mem_slashes (s : String) : '\\' ∉ slashes s := by
  intro h
  obtain ⟨c, -, hc⟩ := List.mem_map.mp h
  split at hc
  · cases hc
  · rename_i hne
    exact hne hc

/-- A canonical path lies properly below the root. -/
theorem canonical_target_parts [Text] {root relative_path c : String} {p : Path}
    (h : canonical_target root relative_path = .ok (p, c)) :
    ∃ parts, CanonicalParts root p c parts := by
  unfold canonical_target at h
  extract_lets clean cs base target at h
  split at h
  · cases h
  split at h
  · cases h
  split at h
  · cases h
  rename_i hsafe
  split at h
  · cases h
  split at h
  · cases h
  rename_i hprefix
  split at h
  · cases h
  rename_i hlength
  cases h
  rw [Bool.not_eq_true, Bool.not_eq_false', List.isPrefixOf_iff_prefix] at hprefix
  obtain ⟨parts, hparts⟩ := hprefix
  have hdrop : target.drop base.length = parts := by
    rw [← hparts, List.drop_left]
  refine ⟨parts, by rw [hparts], by rw [hdrop], ?_, fun x hx => ?_⟩
  · rintro rfl
    rw [List.append_nil] at hparts
    exact hlength (congrArg List.length hparts).symm
  · rw [← hdrop] at hx
    have hmem : x ∈ components cs ∧ x ≠ "." ∧ x ≠ ".." := by
      have hresolve : target =
          ((components cs).foldl resolveStep (base.foldl resolveStep [])).reverse := by
        rw [← List.foldl_append, ← resolveParts_eq]
      rw [hresolve] at hx
      rcases mem_drop_resolve hx with hx | hx
      · have hlen := length_resolve base []
        rw [List.drop_eq_nil_of_le (by simpa using hlen)] at hx
        cases hx
      · exact hx
    obtain ⟨hmem, hdot, hdots⟩ := hmem
    obtain ⟨hne, hchars⟩ := mem_components hmem
    refine ⟨hne, hdot, hdots, fun ch hch => ?_⟩
    obtain ⟨hcs, hslash⟩ := hchars ch hch
    refine ⟨hslash, ?_, ?_⟩
    · rintro rfl
      have hback := mem_strip hcs
      rw [String.toList_ofList] at hback
      exact not_mem_slashes _ hback
    · simp only [Bool.or_eq_true, List.any_eq_true, not_or, not_exists] at hsafe
      have hno := hsafe.1 ch
      simpa [hcs] using hno

theorem CanonicalParts.resolved {root c : String} {p : Path} {parts : List String}
    (h : CanonicalParts root p c parts) : policy.resolved p = p := by
  rw [h.target]
  refine resolved_ofParts fun x hx => ?_
  rcases List.mem_append.mp hx with hx | hx
  · exact properNames_resolve _ x hx
  · obtain ⟨hne, hdot, hdots, hchars⟩ := h.plain x hx
    exact ⟨hne, hdot, hdots, fun hslash => (hchars _ hslash).1 rfl⟩

/-- A canonical path has neither a backslash nor a control character. -/
theorem CanonicalParts.chars {root c : String} {p : Path} {parts : List String}
    (h : CanonicalParts root p c parts) : ∀ ch ∈ c.toList, ch ≠ '\\' ∧ controlChar ch = false := by
  intro ch hch
  rw [h.canonical] at hch
  rcases mem_joined hch with rfl | ⟨x, hx, hch⟩
  · decide
  · exact ((h.plain x hx).2.2.2 ch hch).2

end jvc.policy
