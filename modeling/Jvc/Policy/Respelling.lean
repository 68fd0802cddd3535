import Mathlib.Data.List.Infix
import Jvc.Policy.Canonical

namespace jvc.policy

/-- Walking along the components of a path, from a directory below `/` to another:
`.` stays there, and `..` goes to the parent. -/
inductive Leads : List String → List String → List String → Prop
  | here (dir : List String) : Leads dir [] dir
  | dot {dir rest dest : List String} {x : String} (hdot : x = ".") (h : Leads dir rest dest) :
      Leads dir (x :: rest) dest
  | up {dir rest dest : List String} {x : String} (hdots : x = "..")
      (h : Leads dir.dropLast rest dest) : Leads dir (x :: rest) dest
  | down {dir rest dest : List String} {x : String} (hdot : x ≠ ".") (hdots : x ≠ "..")
      (h : Leads (dir ++ [x]) rest dest) : Leads dir (x :: rest) dest

/-- The first name does not begin with whitespace, and the last does not end with it. -/
structure Trimmed (names : List String) : Prop where
  first : ∀ x ∈ names.head?, ∀ ch ∈ x.toList.head?, isSpace ch = false
  last : ∀ x ∈ names.getLast?, ∀ ch ∈ x.toList.getLast?, isSpace ch = false

/-- The components of `root.resolve()`. -/
def rootParts (root : Path) : List String := resolveParts (components root.toList)

/-- `relative_path.replace("\\", "/").strip()` -/
def stripped (relative_path : String) : List Char :=
  (strip (String.ofList (slashes relative_path))).toList

/-- `root / c` -/
def joined (root : Path) (c : String) : Path :=
  if rootParts root = [] then "/" ++ c else ofParts (rootParts root) ++ "/" ++ c

/-- What a canonical path is relied on for: its components are names, it is spelled as
the target is from the root, and spelling it again gives the same target. -/
structure Respelled [Text] (root t c : String) : Prop where
  nonempty : c ≠ ""
  names : ∀ x ∈ c.toList.splitOn '/', x ≠ [] ∧ x ≠ ['.'] ∧ x ≠ ['.', '.']
  target : t = joined root c
  again : canonical_target root c = .ok (t, c)

section Walking

variable {dir rest dest done parts : List String}

theorem leads_resolve (done rest : List String) :
    Leads done.reverse rest (rest.foldl resolveStep done).reverse := by
  induction rest generalizing done with
  | nil => exact .here _
  | cons x rest ih =>
    rw [List.foldl_cons, resolveStep]
    split
    · rename_i hdot
      exact .dot hdot (ih done)
    · rename_i hdot
      split
      · rename_i hdots
        apply Leads.up hdots
        have htail : done.tail.reverse = done.reverse.dropLast := by
          rw [← List.reverse_reverse done, List.tail_reverse, List.reverse_reverse,
            List.reverse_reverse]
        rw [← htail]
        exact ih done.tail
      · rename_i hdots
        apply Leads.down hdot hdots
        have hnext := ih (x :: done)
        rwa [List.reverse_cons] at hnext

/-- There is one place a path leads to. -/
theorem Leads.unique {dest' : List String} (h : Leads dir rest dest) (h' : Leads dir rest dest') :
    dest = dest' := by
  induction h with
  | here dir =>
    cases h'
    rfl
  | dot hdot _ ih =>
    cases h' with
    | dot _ h' => exact ih h'
    | up hdots => exact absurd (hdot.symm.trans hdots) (by decide)
    | down hne => exact absurd hdot hne
  | up hdots _ ih =>
    cases h' with
    | dot hdot => exact absurd (hdot.symm.trans hdots) (by decide)
    | up _ h' => exact ih h'
    | down _ hne => exact absurd hdots hne
  | down hne hnes _ ih =>
    cases h' with
    | dot hdot => exact absurd hdot hne
    | up hdots => exact absurd hdots hnes
    | down _ _ h' => exact ih h'

/-- Resolving the components of a path is walking along it. -/
theorem leads_iff {base : List String} (hbase : resolveParts base = base) :
    Leads base rest dest ↔ dest = resolveParts (base ++ rest) := by
  have hleads := leads_resolve base.reverse rest
  rw [resolveParts_eq] at hbase
  have hfold : base.foldl resolveStep [] = base.reverse := by
    rw [← List.reverse_reverse (base.foldl resolveStep []), hbase]
  rw [List.reverse_reverse] at hleads
  rw [resolveParts_eq, List.foldl_append, hfold]
  constructor
  · intro h
    exact h.unique hleads
  · rintro rfl
    exact hleads

end Walking

section Joining

variable {names : List String} {ls : List (List Char)}

theorem encodedAlias_slash (cs : List Char) : encodedAlias ('/' :: cs) = encodedAlias cs := by
  simp [encodedAlias]

theorem hexDigit_slash : hexDigit '/' = false := by decide

/-- No encoded character reaches over a separator. -/
theorem encodedAlias_append_slash (xs ys : List Char) :
    encodedAlias (xs ++ '/' :: ys) = (encodedAlias xs || encodedAlias ys) := by
  induction xs with
  | nil => rw [List.nil_append, encodedAlias_slash, encodedAlias, Bool.false_or]
  | cons c cs ih =>
    by_cases hc : c = '%'
    · subst hc
      match cs, ih with
      | [], ih =>
        cases ys with
        | nil => rfl
        | cons b ys => simp [encodedAlias, hexDigit_slash]
      | [a], ih => simpa [encodedAlias, hexDigit_slash] using ih
      | a :: b :: cs, ih =>
        simp only [List.cons_append, encodedAlias] at ih ⊢
        rw [ih, Bool.or_assoc]
    · have hskip : ∀ cs, encodedAlias (c :: cs) = encodedAlias cs := fun cs => by
        simp [encodedAlias, hc]
      rw [List.cons_append, hskip, hskip, ih]

theorem encodedAlias_joined (ls : List (List Char)) :
    encodedAlias (['/'].intercalate ls) = ls.any encodedAlias := by
  induction ls with
  | nil => rfl
  | cons l ls ih =>
    by_cases hls : ls = []
    · subst hls
      simp
    · rw [List.intercalate_cons_of_ne_nil hls, List.append_assoc, List.singleton_append,
        encodedAlias_append_slash, ih, List.any_cons]

/-- The names of a text without encoded characters have none when they are joined. -/
theorem encodedAlias_names {cs : List Char} (h : encodedAlias cs = false)
    (hnames : ∀ x ∈ names, x ∈ components cs) :
    encodedAlias ("/".intercalate names).toList = false := by
  rw [← @List.intercalate_splitOn _ cs _ _ '/', encodedAlias_joined] at h
  rw [toList_joined, encodedAlias_joined, List.any_eq_false]
  intro l hl
  obtain ⟨x, hx, rfl⟩ := List.mem_map.mp hl
  obtain ⟨part, hpart, rfl⟩ := List.mem_map.mp (hnames x hx)
  rw [String.toList_ofList]
  exact List.any_eq_false.mp h part (List.mem_of_mem_filter hpart)

theorem head?_joined {x : String} (hx : x ≠ "") (names : List String) :
    ("/".intercalate (x :: names)).toList.head? = x.toList.head? := by
  have hne : x.toList ≠ [] := fun h => hx (String.toList_injective h)
  rw [toList_joined, List.map_cons]
  cases hnames : names.map String.toList with
  | nil => rw [List.intercalate_singleton]
  | cons y ys => rw [List.intercalate_cons_cons, List.append_assoc, List.head?_append_of_ne_nil _ hne]

theorem joined_ne_nil (hne : names ≠ []) (hflat : ∀ x ∈ names, x ≠ "") :
    ("/".intercalate names).toList ≠ [] := by
  cases names with
  | nil => exact absurd rfl hne
  | cons x names =>
    intro h
    have hhead := head?_joined (hflat x List.mem_cons_self) names
    rw [h, List.head?_nil, eq_comm, List.head?_eq_none_iff] at hhead
    exact hflat x List.mem_cons_self (String.toList_injective hhead)

theorem getLast?_joined (hne : names ≠ []) (hflat : ∀ x ∈ names, x ≠ "") :
    ("/".intercalate names).toList.getLast? = (names.getLast hne).toList.getLast? := by
  induction names with
  | nil => exact absurd rfl hne
  | cons x names ih =>
    by_cases hnames : names = []
    · subst hnames
      rw [String.intercalate_singleton, List.getLast_singleton]
    · have hflat' : ∀ y ∈ names, y ≠ "" := fun y hy => hflat y (List.mem_cons_of_mem x hy)
      rw [String.intercalate_cons_of_ne_nil hnames, String.toList_append,
        List.getLast?_append_of_ne_nil _ (joined_ne_nil hnames hflat'), ih hnames hflat',
        List.getLast_cons hnames]

end Joining

section Stripping

theorem dropWhile_eq_self {p : Char → Bool} {cs : List Char} :
    cs.dropWhile p = cs ↔ ∀ ch ∈ cs.head?, p ch = false := by
  cases cs with
  | nil => simp
  | cons c cs =>
    rw [List.head?_cons]
    constructor
    · intro h ch hch
      cases hch
      by_contra hp
      rw [Bool.not_eq_false] at hp
      rw [List.dropWhile_cons_of_pos hp] at h
      have hlen := (List.dropWhile_suffix p (l := cs)).length_le
      rw [h, List.length_cons] at hlen
      omega
    · intro h
      exact List.dropWhile_cons_of_neg (by rw [h c rfl]; exact Bool.false_ne_true)

/-- What `strip` leaves is no longer than the text, and shorter if it changes it. -/
theorem strip_length_le (s : String) : (strip s).toList.length ≤ s.toList.length ∧
    ((strip s).toList.length = s.toList.length → strip s = s) := by
  have hfront := List.dropWhile_suffix isSpace (l := s.toList)
  have hback := List.dropWhile_suffix isSpace (l := (s.toList.dropWhile isSpace).reverse)
  have hlen := hback.length_le
  rw [List.length_reverse] at hlen
  rw [strip, String.toList_ofList, List.length_reverse]
  refine ⟨hlen.trans hfront.length_le, fun heq => ?_⟩
  have hle := hfront.length_le
  have hsame := hfront.eq_of_length (by omega)
  rw [hsame] at hback ⊢
  rw [hsame] at heq
  rw [hback.eq_of_length (by rw [heq, List.length_reverse]), List.reverse_reverse,
    String.ofList_toList]

theorem strip_eq_self {s : String} : strip s = s ↔
    (∀ ch ∈ s.toList.head?, isSpace ch = false) ∧ ∀ ch ∈ s.toList.getLast?, isSpace ch = false := by
  constructor
  · intro h
    have hlen := congrArg (fun s => s.toList.length) h
    simp only [strip, String.toList_ofList, List.length_reverse] at hlen
    have hfront := List.dropWhile_suffix isSpace (l := s.toList)
    have hback := List.dropWhile_suffix isSpace (l := (s.toList.dropWhile isSpace).reverse)
    have hle := hback.length_le
    rw [List.length_reverse] at hle
    have hsame := hfront.eq_of_length (by have := hfront.length_le; omega)
    rw [hsame] at hback hlen
    have hsame' := hback.eq_of_length (by rw [hlen, List.length_reverse])
    rw [dropWhile_eq_self] at hsame hsame'
    rw [List.head?_reverse] at hsame'
    exact ⟨hsame, hsame'⟩
  · rintro ⟨hfirst, hlast⟩
    rw [strip, dropWhile_eq_self.mpr hfirst, dropWhile_eq_self.mpr, List.reverse_reverse,
      String.ofList_toList]
    rwa [List.head?_reverse]

theorem strip_strip (s : String) : strip (strip s) = strip s := by
  have hfirst := List.head?_dropWhile_not isSpace s.toList
  have hlast := List.head?_dropWhile_not isSpace (s.toList.dropWhile isSpace).reverse
  have hsuffix := List.dropWhile_suffix isSpace (l := (s.toList.dropWhile isSpace).reverse)
  rw [← List.reverse_prefix, List.reverse_reverse] at hsuffix
  have hstrip : (strip s).toList = ((s.toList.dropWhile isSpace).reverse.dropWhile isSpace).reverse :=
    String.toList_ofList
  rw [strip_eq_self, hstrip]
  constructor
  · intro c hc
    obtain ⟨rest, hrest⟩ := List.head?_eq_some_iff.mp hc
    rw [hrest] at hsuffix
    obtain ⟨behind, hbehind⟩ := hsuffix
    rw [← hbehind] at hfirst
    exact hfirst
  · intro c hc
    rw [List.getLast?_reverse, Option.mem_def] at hc
    rw [hc] at hlast
    exact hlast

end Stripping

section Lengths

/-- The length of names that are joined, with a separator behind each of them. -/
def weight : List String → Nat
  | [] => 0
  | x :: names => x.toList.length + 1 + weight names

theorem weight_cons (x : String) (names : List String) :
    weight (x :: names) = x.toList.length + 1 + weight names := rfl

theorem weight_append (xs ys : List String) : weight (xs ++ ys) = weight xs + weight ys := by
  induction xs with
  | nil => rw [List.nil_append, weight, Nat.zero_add]
  | cons x xs ih =>
    rw [List.cons_append, weight_cons, ih, weight_cons]
    omega

theorem weight_reverse (names : List String) : weight names.reverse = weight names := by
  induction names with
  | nil => rfl
  | cons x names ih =>
    rw [List.reverse_cons, weight_append, ih, weight_cons, weight_cons, weight]
    omega

theorem length_joined {names : List String} (hne : names ≠ []) :
    ("/".intercalate names).toList.length + 1 = weight names := by
  induction names with
  | nil => exact absurd rfl hne
  | cons x names ih =>
    by_cases hnames : names = []
    · subst hnames
      rw [String.intercalate_singleton, weight_cons]
      rfl
    · have hrest := ih hnames
      rw [String.intercalate_cons_of_ne_nil hnames, String.toList_append, String.toList_append,
        List.length_append, List.length_append, weight_cons]
      have hslash : "/".toList.length = 1 := rfl
      omega

/-- Empty components take room too. -/
theorem weight_components (cs : List Char) : weight (components cs) ≤ cs.length + 1 := by
  have hfilter : ∀ ls : List (List Char),
      weight ((ls.filter (· ≠ [])).map String.ofList) ≤ weight (ls.map String.ofList) := by
    intro ls
    induction ls with
    | nil => exact le_rfl
    | cons l ls ih =>
      rw [List.filter_cons, List.map_cons, weight_cons]
      split
      · rw [List.map_cons, weight_cons]
        omega
      · omega
  have hall : weight ((cs.splitOn '/').map String.ofList) = cs.length + 1 := by
    have hne : (cs.splitOn '/').map String.ofList ≠ [] := by
      rw [ne_eq, List.map_eq_nil_iff]
      exact List.splitOn_ne_nil '/' cs
    rw [← length_joined hne, toList_joined, List.map_map]
    have hid : String.toList ∘ String.ofList = id := funext fun _ => String.toList_ofList
    rw [hid, List.map_id, List.intercalate_splitOn]
  exact (hfilter _).trans hall.le

theorem weight_resolve (parts done : List String) :
    weight (parts.foldl resolveStep done) ≤ weight done + weight parts := by
  induction parts generalizing done with
  | nil => exact Nat.le_add_right _ _
  | cons x parts ih =>
    have hrest := ih (resolveStep done x)
    have hstep : weight (resolveStep done x) ≤ weight done + (x.toList.length + 1) := by
      rw [resolveStep]
      split
      · omega
      · split
        · cases done with
          | nil => exact Nat.zero_le _
          | cons y done =>
            rw [List.tail_cons, weight_cons]
            omega
        · rw [weight_cons]
          omega
    rw [List.foldl_cons, weight_cons]
    omega

end Lengths

section Resolving

variable [Text] {root : Path} {s t c : String} {cs : List Char} {names : List String}

/-- What `canonical_target` asks of a text before it resolves it. -/
structure Relative (cs : List Char) : Prop where
  nonempty : cs ≠ []
  device : ¬ ("//?/".toList.isPrefixOf cs || "//./".toList.isPrefixOf cs) = true
  plain : ¬ (cs.any controlChar || encodedAlias cs) = true
  inside : ¬ (cs.head? = some '/' ∨ ':' ∈ cs)

theorem rootParts_names (root : Path) : ∀ x ∈ rootParts root, x ≠ "." ∧ x ≠ ".." := by
  intro x hx
  rw [rootParts, resolveParts_eq] at hx
  obtain hnil | ⟨-, hx⟩ := mem_drop_resolve (n := 0) hx
  · cases hnil
  · exact hx

theorem rootParts_fold (root : Path) :
    (rootParts root).foldl resolveStep [] = (rootParts root).reverse := by
  have hresolved := resolveParts_names (rootParts_names root)
  rw [resolveParts_eq] at hresolved
  rw [← hresolved, List.reverse_reverse, hresolved]

theorem leads_root_iff {dest : List String} : Leads (rootParts root) (components cs) dest ↔
    dest = resolveParts (rootParts root ++ components cs) :=
  leads_iff (resolveParts_names (rootParts_names root))

/-- A path is canonicalized if it leads to a place properly below the root. -/
theorem canonical_target_ok : canonical_target root s = .ok (t, c) ↔
    Relative (stripped s) ∧ ∃ names, names ≠ [] ∧
      Leads (rootParts root) (components (stripped s)) (rootParts root ++ names) ∧
        t = ofParts (rootParts root ++ names) ∧ c = "/".intercalate names := by
  simp only [leads_root_iff]
  unfold canonical_target
  extract_lets clean cs base target
  have hcs : stripped s = cs := rfl
  rw [hcs]
  constructor
  · intro h
    split at h
    · cases h
    rename_i hempty
    split at h
    · cases h
    rename_i hdevice
    split at h
    · cases h
    rename_i hplain
    split at h
    · cases h
    rename_i hinside
    split at h
    · cases h
    rename_i hprefix
    split at h
    · cases h
    rename_i hlength
    cases h
    rw [Bool.not_eq_true, Bool.not_eq_false', List.isPrefixOf_iff_prefix] at hprefix
    obtain ⟨names, hnames⟩ := hprefix
    refine ⟨⟨fun hnil => hempty (List.isEmpty_iff.mpr hnil), hdevice, hplain, ?_⟩, names, ?_,
      hnames, ?_, ?_⟩
    · simpa [List.contains_iff_mem] using hinside
    · rintro rfl
      rw [List.append_nil] at hnames
      exact hlength (congrArg List.length hnames).symm
    · exact congrArg ofParts hnames.symm
    · rw [← hnames, List.drop_left]
  · rintro ⟨⟨hempty, hdevice, hplain, hinside⟩, names, hne, hnames, rfl, rfl⟩
    have htarget : target = base ++ names := hnames.symm
    rw [if_neg (fun hnil => hempty (List.isEmpty_iff.mp hnil)), if_neg hdevice, if_neg hplain, if_neg,
      htarget, if_neg, if_neg, List.drop_left]
    · rfl
    · rw [List.length_append, Nat.add_eq_left, List.length_eq_zero_iff]
      exact hne
    · rw [Bool.not_eq_true, Bool.not_eq_false', List.isPrefixOf_iff_prefix]
      exact List.prefix_append base names
    · simpa [List.contains_iff_mem] using hinside

theorem stripped_of_plain (h : '\\' ∉ c.toList) : stripped c = (strip c).toList := by
  have hslashes : slashes c = c.toList := by
    rw [slashes]
    conv_rhs => rw [← List.map_id c.toList]
    apply List.map_congr_left
    intro ch hch
    rw [if_neg, id]
    rintro rfl
    exact h hch
  rw [stripped, hslashes, String.ofList_toList]

/-- A canonical path that is not changed by stripping it is accepted as it is. -/
theorem canonical_target_again (hnames : CanonicalParts root t c names)
    (hcomponents : ∀ x ∈ names, x ∈ components cs) (hcs : Relative cs) (hstrip : strip c = c) :
    canonical_target root c = .ok (t, c) := by
  have hflat : ∀ x ∈ names, x ≠ "" ∧ '/' ∉ x.toList := fun x hx =>
    ⟨(hnames.plain x hx).1, fun hslash => ((hnames.plain x hx).2.2.2 _ hslash).1 rfl⟩
  have hstripped : stripped c = ("/".intercalate names).toList := by
    rw [stripped_of_plain fun hback => (hnames.chars _ hback).1 rfl, hstrip, hnames.canonical]
  have hfirst : ∀ ch ∈ ("/".intercalate names).toList.head?, ch ≠ '/' := by
    rintro ch hch rfl
    obtain ⟨x, rest, hcons⟩ := List.exists_cons_of_ne_nil hnames.nonempty
    rw [hcons, head?_joined (hflat x (hcons ▸ List.mem_cons_self)).1] at hch
    exact (hflat x (hcons ▸ List.mem_cons_self)).2 (List.mem_of_mem_head? hch)
  rw [canonical_target_ok, hstripped, components_joined hnames.nonempty hflat]
  refine ⟨⟨joined_ne_nil hnames.nonempty fun x hx => (hflat x hx).1, ?_, ?_, ?_⟩, names,
    hnames.nonempty, ?_, hnames.target, hnames.canonical⟩
  · rw [Bool.or_eq_true, List.isPrefixOf_iff_prefix, List.isPrefixOf_iff_prefix]
    rintro (⟨rest, hrest⟩ | ⟨rest, hrest⟩)
    · exact hfirst '/' (by rw [← hrest]; rfl) rfl
    · exact hfirst '/' (by rw [← hrest]; rfl) rfl
  · have hplain := hcs.plain
    rw [Bool.or_eq_true, not_or, Bool.not_eq_true, Bool.not_eq_true] at hplain ⊢
    refine ⟨List.any_eq_false.mpr fun ch hch => ?_, encodedAlias_names hplain.2 hcomponents⟩
    rw [← hnames.canonical] at hch
    rw [(hnames.chars ch hch).2]
    exact Bool.false_ne_true
  · rintro (hslash | hcolon)
    · exact hfirst '/' hslash rfl
    · rcases mem_joined hcolon with heq | ⟨x, hx, hcolon⟩
      · cases heq
      · have hmem := (mem_components (hcomponents x hx)).2 _ hcolon
        exact hcs.inside (.inr hmem.1)
  · rw [leads_iff (resolveParts_names (rootParts_names root)), resolveParts_names]
    intro x hx
    rcases List.mem_append.mp hx with hx | hx
    · exact rootParts_names root x hx
    · exact ⟨(hnames.plain x hx).2.1, (hnames.plain x hx).2.2.1⟩

/-- A canonical path that stripping would change is accepted as another one, if at all. -/
theorem strip_of_again (h : canonical_target root c = .ok (t, c)) (hback : '\\' ∉ c.toList) :
    strip c = c := by
  obtain ⟨-, names, hne, hleads, -, hc⟩ := canonical_target_ok.mp h
  rw [leads_root_iff, resolveParts_eq, List.foldl_append] at hleads
  have hweight := weight_resolve (components (stripped c)) (rootParts root).reverse
  rw [rootParts_fold root] at hleads
  rw [← weight_reverse (List.foldl _ _ _), ← hleads, weight_append, weight_reverse] at hweight
  have hcomponents := weight_components (stripped c)
  have hlength := length_joined hne
  rw [← hc] at hlength
  rw [stripped_of_plain hback] at hweight hcomponents
  obtain ⟨hle, hsame⟩ := strip_length_le c
  exact hsame (by omega)

/-- Stripping changes a canonical path if a name at its end has whitespace there. -/
theorem strip_eq_self_iff_trimmed (hnames : CanonicalParts root t c names) :
    strip c = c ↔ Trimmed names := by
  have hflat : ∀ x ∈ names, x ≠ "" := fun x hx => (hnames.plain x hx).1
  have hlast := getLast?_joined hnames.nonempty hflat
  obtain ⟨x, rest, hcons⟩ := List.exists_cons_of_ne_nil hnames.nonempty
  have hfirst := head?_joined (hflat x (hcons ▸ List.mem_cons_self)) rest
  rw [← hcons] at hfirst
  rw [strip_eq_self, hnames.canonical, hlast, hfirst]
  have hhead : names.head? = some x := by rw [hcons]; rfl
  have hend := List.getLast?_eq_some_getLast hnames.nonempty
  constructor
  · rintro ⟨hf, hl⟩
    constructor
    · intro y hy
      rw [hhead, Option.mem_some_iff] at hy
      exact hy ▸ hf
    · intro y hy
      rw [hend, Option.mem_some_iff] at hy
      exact hy ▸ hl
  · intro h
    exact ⟨h.first x hhead, h.last _ hend⟩

theorem ofParts_joined (hne : names ≠ []) :
    ofParts (rootParts root ++ names) = joined root ("/".intercalate names) := by
  rw [joined]
  split
  · rename_i hroot
    rw [hroot, List.nil_append, ofParts]
  · rename_i hroot
    rw [ofParts, String.intercalate_append_of_ne_nil hroot hne, ofParts]
    simp only [String.append_assoc]

/-- The names below the root that a path leads to are components of it. -/
theorem mem_components_of_leads (h : Leads (rootParts root) (components cs) (rootParts root ++ names)) :
    ∀ x ∈ names, x ∈ components cs := by
  intro x hx
  rw [leads_root_iff, resolveParts_eq, List.foldl_append] at h
  have hdrop : x ∈ ((components cs).foldl resolveStep (rootParts root).reverse).reverse.drop
      (rootParts root).length := by
    rw [← rootParts_fold root, ← h, List.drop_left]
    exact hx
  obtain hnil | ⟨hmem, -⟩ := mem_drop_resolve hdrop
  · rw [List.reverse_reverse, List.drop_length] at hnil
    cases hnil
  · exact hmem

theorem canonicalParts_of_leads (h : canonical_target root s = .ok (t, c)) (hne : names ≠ [])
    (hcomponents : ∀ x ∈ names, x ∈ components cs) (hc : c = "/".intercalate names) :
    CanonicalParts root t c names := by
  obtain ⟨parts, hparts⟩ := canonical_target_parts h
  have hflat : ∀ x ∈ names, x ≠ "" ∧ '/' ∉ x.toList := by
    intro x hx
    obtain ⟨hempty, hchars⟩ := mem_components (hcomponents x hx)
    exact ⟨hempty, fun hslash => (hchars _ hslash).2 rfl⟩
  have hflat' : ∀ x ∈ parts, x ≠ "" ∧ '/' ∉ x.toList := fun x hx =>
    ⟨(hparts.plain x hx).1, fun hslash => ((hparts.plain x hx).2.2.2 _ hslash).1 rfl⟩
  have hsame : parts = names := by
    rw [← components_joined hparts.nonempty hflat', ← hparts.canonical, hc,
      components_joined hne hflat]
  exact hsame ▸ hparts

/-- A canonical path is spelled as its target is, but it is only accepted again as the same
path if the names that the text leads to have no whitespace at either end. -/
theorem canonical_target_respelled_iff (h : canonical_target root s = .ok (t, c)) :
    Respelled root t c ↔ ∀ names,
      Leads (rootParts root) (components (stripped s)) (rootParts root ++ names) →
        Trimmed names := by
  obtain ⟨hrelative, names, hne, hleads, ht, hc⟩ := canonical_target_ok.mp h
  have hunique : ∀ names', Leads (rootParts root) (components (stripped s))
      (rootParts root ++ names') → names' = names := fun names' h' =>
    List.append_cancel_left (h'.unique hleads)
  have hcomponents := mem_components_of_leads hleads
  have hparts := canonicalParts_of_leads h hne hcomponents hc
  have hflat : ∀ x ∈ names, x ≠ "" ∧ '/' ∉ x.toList := fun x hx =>
    ⟨(hparts.plain x hx).1, fun hslash => ((hparts.plain x hx).2.2.2 _ hslash).1 rfl⟩
  constructor
  · intro hrespelled names' h'
    rw [hunique names' h', ← strip_eq_self_iff_trimmed hparts]
    exact strip_of_again hrespelled.again fun hback => (hparts.chars _ hback).1 rfl
  · intro htrimmed
    have hstrip := (strip_eq_self_iff_trimmed hparts).mpr (htrimmed names hleads)
    refine ⟨fun hempty => joined_ne_nil hne (fun x hx => (hflat x hx).1) ?_, fun l hl => ?_, ?_,
      canonical_target_again hparts hcomponents hrelative hstrip⟩
    · rw [← hc, hempty]
      rfl
    · rw [hc, splitOn_joined hne fun x hx => (hflat x hx).2] at hl
      obtain ⟨x, hx, rfl⟩ := List.mem_map.mp hl
      obtain ⟨hempty, hdot, hdots, -⟩ := hparts.plain x hx
      exact ⟨fun h => hempty (String.toList_injective h), fun h => hdot (String.toList_injective h),
        fun h => hdots (String.toList_injective h)⟩
    · rw [ht, hc, ofParts_joined hne]

end Resolving

section Samples

attribute [local instance] asciiText

theorem canonical_target_respelled_iff_docs :
    canonical_target "/w/app" "docs/./a.md" = .ok ("/w/app/docs/a.md", "docs/a.md") ∧
      (Respelled "/w/app" "/w/app/docs/a.md" "docs/a.md" ↔ ∀ names,
        Leads (rootParts "/w/app") (components (stripped "docs/./a.md"))
          (rootParts "/w/app" ++ names) → Trimmed names) :=
  ⟨by decide +kernel, canonical_target_respelled_iff (by decide +kernel)⟩

/-- The file `./ a` is canonicalized as ` a`, which is read as the file `a`. -/
theorem blank_name_respelled : ¬ ∀ root s t c, canonical_target root s = .ok (t, c) →
    Respelled root t c := by
  intro h
  have hrespelled := h "/w/app" "./ a" "/w/app/ a" " a" (by decide +kernel)
  have hagain : canonical_target "/w/app" " a" = .ok ("/w/app/a", "a") := by decide +kernel
  rw [hrespelled.again] at hagain
  exact absurd (Except.ok.inj hagain) (by decide)

end Samples

end jvc.policy
