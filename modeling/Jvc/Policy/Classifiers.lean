import Jvc.Lib.Ascii
import Jvc.Policy.Respelling

open ascii

namespace jvc.policy

/-- `Text` with full case folding, which works character by character: it drops none,
keeps ASCII characters that are no capitals, makes no separator and no dot, and is done
once. -/
class Folding extends Text where
  fold : Char → List Char
  casefold_eq : ∀ s, casefold s = String.ofList (s.toList.flatMap fold)
  fold_ne_nil : ∀ c, fold c ≠ []
  fold_self : ∀ c, c.toNat < 128 → c.isUpper = false → fold c = [c]
  fold_mark : ∀ c m, m ∈ fold c → m = '/' ∨ m = '.' → c = m
  fold_fold : ∀ c d, d ∈ fold c → fold d = [d]

/-- `fnmatch`: `*` matches any text, and every other character itself. -/
def glob : List Char → List Char → Bool
  | [], cs => cs.isEmpty
  | '*' :: pattern, cs => cs.tails.any (glob pattern)
  | p :: pattern, c :: cs => p == c && glob pattern cs
  | _ :: _, [] => false

/-- The documented secret patterns. -/
def SECRET_GLOBS : List String :=
  [".env", ".env.*", "credential.*", "credentials.*", "secret.*", "secrets.*", "token.*",
    "tokens.*", "auth.*", "id_rsa", "*.pem", "*.key", "*.ppk", "*.p12", "*.pfx"]

/-- The protected surfaces, `.gitattributes` apart. -/
def SURFACES : List String := [".git", ".continuity", "_config", "contracts", "_promotions"]

/-- The names of a path as the classifiers compare them. -/
def names [Text] (relative_path : String) : List String :=
  (components (slashes relative_path)).map Text.casefold

/-- The name matches a documented pattern. -/
def documented (name : String) : Bool := SECRET_GLOBS.any fun p => glob p.toList name.toList

/-- The name is no more than a secret suffix, or has a line feed and no secret suffix. -/
def overlooked (name : String) : Bool :=
  SECRET_SUFFIXES.contains name ||
    (name.toList.contains '\n' && !SECRET_SUFFIXES.any fun ext => ext.toList.isSuffixOf name.toList)

/-- `relative_path` is canonical, where `\` is read as `/`. -/
structure Canonical (relative_path : String) (parts : List String) : Prop where
  spelled : String.ofList (slashes relative_path) = "/".intercalate parts
  nonempty : parts ≠ []
  plain : ∀ x ∈ parts, x ≠ "" ∧ x ≠ "." ∧ x ≠ ".." ∧ '/' ∉ x.toList

/-- `Folding` on ASCII text. -/
@[reducible] def asciiFolding : Folding where
  toText := asciiText
  fold c := [c.toLower]
  casefold_eq _ := congrArg String.ofList List.map_eq_flatMap
  fold_ne_nil _ := List.cons_ne_nil _ _
  fold_self _ _ h := by rw [toLower_of_notUpper h]
  fold_mark _ _ h hmark := mark_toLower (List.mem_singleton.mp h) hmark
  fold_fold c d h := by rw [List.mem_singleton.mp h, toLower_toLower]

section Components

/-- Separators at the ends separate nothing. -/
theorem components_stripSlash (cs : List Char) : components (stripSlash cs) = components cs := by
  have hfront : ∀ ds : List Char, components (ds.dropWhile (· = '/')) = components ds := by
    intro ds
    induction ds with
    | nil => rfl
    | cons d ds ih =>
      by_cases hd : d = '/'
      · rw [List.dropWhile_cons_of_pos (by simpa using hd), ih, hd,
          ← List.nil_append ('/' :: ds), components_append_slash]
        rfl
      · rw [List.dropWhile_cons_of_neg (by simpa using hd)]
  have hback : ∀ ds : List Char,
      components (ds.reverse.dropWhile (· = '/')).reverse = components ds := by
    intro ds
    induction ds using List.reverseRecOn with
    | nil => rfl
    | append_singleton ds d ih =>
      rw [List.reverse_append, List.reverse_singleton, List.singleton_append]
      by_cases hd : d = '/'
      · rw [List.dropWhile_cons_of_pos (by simpa using hd), ih, hd, components_append_slash]
        exact (List.append_nil _).symm
      · rw [List.dropWhile_cons_of_neg (by simpa using hd), List.reverse_cons, List.reverse_reverse]
  rw [stripSlash, hback, hfront]

end Components

section Folds

variable [Folding] {p : String} {parts : List String}

theorem toList_casefold (s : String) :
    (Text.casefold s).toList = s.toList.flatMap Folding.fold := by
  rw [Folding.casefold_eq, String.toList_ofList]

theorem fold_slash : Folding.fold '/' = ['/'] := Folding.fold_self '/' (by decide) (by decide)

theorem slash_mem_fold {cs : List Char} : '/' ∈ cs.flatMap Folding.fold ↔ '/' ∈ cs := by
  rw [List.mem_flatMap]
  constructor
  · rintro ⟨c, hc, hm⟩
    rwa [Folding.fold_mark c '/' hm (.inl rfl)] at hc
  · intro h
    exact ⟨'/', h, by rw [fold_slash]; exact List.mem_singleton_self _⟩

theorem flatMap_fold_eq_nil {cs : List Char} : cs.flatMap Folding.fold = [] ↔ cs = [] := by
  cases cs with
  | nil => simp
  | cons c cs => simp [Folding.fold_ne_nil]

theorem fold_intercalate (ls : List (List Char)) :
    (['/'].intercalate ls).flatMap Folding.fold =
      ['/'].intercalate (ls.map fun l => l.flatMap Folding.fold) := by
  induction ls with
  | nil => rfl
  | cons l ls ih =>
    by_cases hls : ls = []
    · subst hls
      simp
    · rw [List.intercalate_cons_of_ne_nil hls, List.flatMap_append, List.flatMap_append, ih,
        List.map_cons, List.intercalate_cons_of_ne_nil (by simpa using hls), List.flatMap_singleton,
        fold_slash]

/-- Folding leaves the components apart. -/
theorem components_fold (cs : List Char) :
    components (cs.flatMap Folding.fold) = (components cs).map Text.casefold := by
  have hsplit : (cs.flatMap Folding.fold).splitOn '/' =
      (cs.splitOn '/').map fun l => l.flatMap Folding.fold := by
    rw [← @List.intercalate_splitOn _ cs _ _ '/', fold_intercalate, List.splitOn_intercalate,
      List.intercalate_splitOn]
    · intro l hl
      obtain ⟨part, hpart, rfl⟩ := List.mem_map.mp hl
      rw [slash_mem_fold]
      exact fun hslash => (lines.mem_splitOn hpart hslash).2 rfl
    · rw [ne_eq, List.map_eq_nil_iff]
      exact List.splitOn_ne_nil '/' cs
  rw [components, hsplit, List.filter_map, components, List.map_map, List.map_map]
  have hkeep : ((fun l : List Char => decide (l ≠ [])) ∘ fun l => l.flatMap Folding.fold) =
      fun l => decide (l ≠ []) := by
    funext l
    simp only [Function.comp_apply, ne_eq, flatMap_fold_eq_nil]
  rw [hkeep]
  apply List.map_congr_left
  intro l _
  rw [Function.comp_apply, Function.comp_apply, Folding.casefold_eq, String.toList_ofList]

/-- The classifiers see the names of the path. -/
theorem components_cleaned (p : String) : components (cleaned p) = names p := by
  rw [cleaned, components_stripSlash, toList_casefold, String.toList_ofList, components_fold, names]

end Folds

section ControlPlane

variable {ns : List String}

/-- Joined names lie in a folder if its name is the first of several. -/
theorem prefix_joined_iff (hflat : ∀ x ∈ ns, x ≠ "" ∧ '/' ∉ x.toList) {folder : String}
    (hfolder : '/' ∉ folder.toList) :
    (folder.toList ++ ['/']) <+: ("/".intercalate ns).toList ↔
      ∃ x rest, ns = folder :: x :: rest := by
  constructor
  · rintro ⟨below, hbelow⟩
    rw [List.append_assoc, List.singleton_append] at hbelow
    have hne : ns ≠ [] := by
      rintro rfl
      simp at hbelow
    have hsplit := splitOn_joined hne fun x hx => (hflat x hx).2
    rw [← hbelow, List.splitOn, List.splitOnP_append_cons _ _ (by decide),
      List.splitOnP_eq_singleton fun c hc => ?_, List.singleton_append] at hsplit
    · cases ns with
      | nil => exact absurd rfl hne
      | cons y ns =>
        rw [List.map_cons, List.cons.injEq] at hsplit
        obtain ⟨hy, hrest⟩ := hsplit
        cases ns with
        | nil => exact absurd hrest (List.splitOnP_ne_nil _ _)
        | cons x rest => exact ⟨x, rest, by rw [String.toList_injective hy]⟩
    · rw [beq_eq_false_iff_ne]
      rintro rfl
      exact hfolder hc
  · rintro ⟨x, rest, rfl⟩
    rw [toList_joined, List.map_cons, List.map_cons, List.intercalate_cons_cons]
    exact List.prefix_append _ _

theorem stripSlash_joined (hne : ns ≠ []) (hflat : ∀ x ∈ ns, x ≠ "" ∧ '/' ∉ x.toList) :
    stripSlash ("/".intercalate ns).toList = ("/".intercalate ns).toList := by
  have hends : ∀ x ∈ ns, ∀ c ∈ x.toList, decide (c = '/') = false := by
    intro x hx c hc
    rw [decide_eq_false_iff_not]
    rintro rfl
    exact (hflat x hx).2 hc
  obtain ⟨x, rest, hcons⟩ := List.exists_cons_of_ne_nil hne
  have hfirst : ∀ c ∈ ("/".intercalate ns).toList.head?, decide (c = '/') = false := by
    intro c hc
    have hx : x ∈ ns := hcons ▸ List.mem_cons_self
    rw [hcons, head?_joined (hflat x hx).1] at hc
    exact hends x hx c (List.mem_of_mem_head? hc)
  have hlast : ∀ c ∈ ("/".intercalate ns).toList.reverse.head?, decide (c = '/') = false := by
    intro c hc
    rw [List.head?_reverse, getLast?_joined hne fun x hx => (hflat x hx).1] at hc
    exact hends _ (List.getLast_mem hne) c (List.mem_of_mem_getLast? hc)
  rw [stripSlash, dropWhile_eq_self.mpr hfirst, dropWhile_eq_self.mpr hlast, List.reverse_reverse]

theorem exact_surfaces : ∀ e ∈ DEFAULT_CONTROL_PLANE_EXACT,
    ∃ folder ∈ SURFACES, (folder ++ "/").toList <+: e.toList := by
  decide

theorem prefix_surfaces : ∀ front ∈ DEFAULT_CONTROL_PLANE_PREFIXES,
    ∃ folder ∈ SURFACES, front = folder ++ "/" := by
  decide

theorem surface_prefixes : ∀ folder ∈ SURFACES,
    folder ++ "/" ∈ DEFAULT_CONTROL_PLANE_PREFIXES ∧ '/' ∉ folder.toList := by
  decide

variable [Folding] {p : String} {parts : List String}

theorem casefold_ne_dot {x : String} (h : x ≠ ".") : Text.casefold x ≠ "." := by
  intro hdot
  have hlist := congrArg String.toList hdot
  rw [toList_casefold] at hlist
  have hdots : ∀ c ∈ x.toList, Folding.fold c = [c] := by
    intro c hc
    obtain ⟨m, hm⟩ := List.exists_mem_of_ne_nil _ (Folding.fold_ne_nil c)
    have hmem : m ∈ x.toList.flatMap Folding.fold := List.mem_flatMap.mpr ⟨c, hc, hm⟩
    rw [hlist] at hmem
    obtain rfl := List.mem_singleton.mp hmem
    rw [Folding.fold_mark c '.' hm (.inr rfl)]
    exact Folding.fold_self '.' (by decide) (by decide)
  rw [List.flatMap_congr hdots, List.flatMap_singleton'] at hlist
  exact h (String.toList_injective hlist)

omit [Folding] in
theorem Canonical.components (h : Canonical p parts) : components (slashes p) = parts := by
  rw [← String.toList_ofList (l := slashes p), h.spelled,
    components_joined h.nonempty fun x hx => ⟨(h.plain x hx).1, (h.plain x hx).2.2.2⟩]

theorem Canonical.names (h : Canonical p parts) : names p = parts.map Text.casefold := by
  rw [policy.names, h.components]

/-- The names of a canonical path that is folded. -/
theorem Canonical.flat (h : Canonical p parts) :
    ∀ x ∈ parts.map Text.casefold, (x ≠ "" ∧ '/' ∉ x.toList) ∧ x ≠ "." := by
  intro x hx
  obtain ⟨y, hy, rfl⟩ := List.mem_map.mp hx
  obtain ⟨hempty, hdot, -, hslash⟩ := h.plain y hy
  refine ⟨⟨fun heq => ?_, fun hmem => ?_⟩, casefold_ne_dot hdot⟩
  · have hlist := congrArg String.toList heq
    rw [toList_casefold] at hlist
    exact hempty (String.toList_injective (flatMap_fold_eq_nil.mp hlist))
  · rw [toList_casefold] at hmem
    exact hslash (slash_mem_fold.mp hmem)

/-- A canonical path is cleaned by folding its names. -/
theorem Canonical.cleaned (h : Canonical p parts) :
    cleaned p = ("/".intercalate (parts.map Text.casefold)).toList := by
  have hne : parts.map Text.casefold ≠ [] := by
    rw [ne_eq, List.map_eq_nil_iff]
    exact h.nonempty
  rw [policy.cleaned, h.spelled, toList_casefold, toList_joined, fold_intercalate, List.map_map]
  have hfolds : (fun l => List.flatMap Folding.fold l) ∘ String.toList =
      String.toList ∘ Text.casefold := funext fun s => (toList_casefold s).symm
  rw [hfolds, ← List.map_map, ← toList_joined, stripSlash_joined hne fun x hx => (h.flat x hx).1]

/-- What the classifier looks for in the names of a canonical path. -/
theorem is_control_plane_path_iff (h : Canonical p parts) :
    is_control_plane_path p = true ↔ parts.map Text.casefold = [".git"] ∨
      (∃ folder ∈ SURFACES, ∃ x rest, parts.map Text.casefold = folder :: x :: rest) ∨
        (parts.map Text.casefold).getLast? = some ".gitattributes" := by
  have hname : (nameOf (policy.cleaned p)).toList = ".gitattributes".toList ↔
      (parts.map Text.casefold).getLast? = some ".gitattributes" := by
    rw [nameOf, components_cleaned, h.names, List.filter_eq_self.mpr fun x hx => by
      simpa using (h.flat x hx).2, String.toList_inj]
    cases (parts.map Text.casefold).getLast? with
    | none => simp
    | some x => simp
  have hne : parts.map Text.casefold ≠ [] := by
    rw [ne_eq, List.map_eq_nil_iff]
    exact h.nonempty
  have hflat : ∀ x ∈ parts.map Text.casefold, x ≠ "" ∧ '/' ∉ x.toList := fun x hx => (h.flat x hx).1
  have hcomponents := components_joined hne hflat
  rw [h.cleaned] at hname
  simp only [is_control_plane_path, Bool.or_eq_true, Bool.and_eq_true, beq_iff_eq,
    List.contains_iff_mem, List.any_eq_true, List.isPrefixOf_iff_prefix, h.cleaned, hname,
    String.ofList_toList]
  generalize parts.map Text.casefold = ns at hne hflat hcomponents ⊢
  have hfolder : ∀ folder ∈ SURFACES, (folder ++ "/").toList <+: ("/".intercalate ns).toList ↔
      ∃ x rest, ns = folder :: x :: rest := by
    intro folder hfolder
    rw [String.toList_append]
    exact prefix_joined_iff hflat (surface_prefixes folder hfolder).2
  constructor
  · rintro ((((hgit | hexact) | hattributes) | ⟨front, hfront, hprefix⟩) | ⟨hconfig, -⟩)
    · refine .inl ?_
      rw [← hcomponents, hgit]
      decide
    · refine .inr (.inl ?_)
      obtain ⟨folder, hmem, hbelow⟩ := exact_surfaces _ hexact
      exact ⟨folder, hmem, (hfolder folder hmem).mp hbelow⟩
    · exact .inr (.inr hattributes)
    · obtain ⟨folder, hmem, rfl⟩ := prefix_surfaces front hfront
      exact .inr (.inl ⟨folder, hmem, (hfolder folder hmem).mp hprefix⟩)
    · exact .inr (.inl ⟨"_config", by decide, (hfolder "_config" (by decide)).mp hconfig⟩)
  · rintro (hgit | ⟨folder, hmem, hbelow⟩ | hattributes)
    · refine .inl (.inl (.inl (.inl ?_)))
      rw [hgit, String.intercalate_singleton]
    · exact .inl (.inr ⟨_, (surface_prefixes folder hmem).1, (hfolder folder hmem).mpr hbelow⟩)
    · exact .inl (.inl (.inr hattributes))

/-- The path is one of the surfaces or lies below one, or names a `.gitattributes`. -/
def Covered (ns : List String) : Prop :=
  (∃ folder ∈ SURFACES, ∃ below, ns = folder :: below) ∨ ns.getLast? = some ".gitattributes"

/-- The roots of the surfaces are classified as if they were no part of them, `.git` apart. -/
theorem control_plane_covered_iff (h : Canonical p parts) :
    (is_control_plane_path p = true ↔ Covered (parts.map Text.casefold)) ↔
      Text.casefold (String.ofList (slashes p)) ∉
        [".continuity", "_config", "contracts", "_promotions"] := by
  have hne : parts.map Text.casefold ≠ [] := by
    rw [ne_eq, List.map_eq_nil_iff]
    exact h.nonempty
  have hfolded : Text.casefold (String.ofList (slashes p)) =
      "/".intercalate (parts.map Text.casefold) := by
    apply String.toList_injective
    rw [h.spelled, toList_casefold, toList_joined, fold_intercalate, toList_joined, List.map_map,
      List.map_map]
    congr 2
    exact funext fun s => (toList_casefold s).symm
  have hcomponents := components_joined hne fun x hx => (h.flat x hx).1
  rw [is_control_plane_path_iff h, hfolded]
  generalize parts.map Text.casefold = ns at hcomponents ⊢
  have hroot : ∀ s ∈ [".continuity", "_config", "contracts", "_promotions"],
      components s.toList = [s] ∧ s ≠ ".git" ∧ s ≠ ".gitattributes" ∧ s ∈ SURFACES := by
    decide
  constructor
  · intro hiff hmem
    obtain ⟨hself, hgit, hattributes, hsurface⟩ := hroot _ hmem
    rw [hcomponents] at hself
    rcases hiff.mpr (.inl ⟨_, hsurface, [], hself⟩) with hone | ⟨folder, -, x, rest, hmany⟩ | hlast
    · rw [hself, List.singleton_inj] at hone
      exact hgit hone
    · rw [hself] at hmany
      cases hmany
    · rw [hself, List.getLast?_singleton, Option.some_inj] at hlast
      exact hattributes hlast
  · intro hmem
    constructor
    · rintro (hgit | ⟨folder, hfolder, x, rest, hmany⟩ | hlast)
      · exact .inl ⟨".git", by decide, [], hgit⟩
      · exact .inl ⟨folder, hfolder, x :: rest, hmany⟩
      · exact .inr hlast
    · rintro (⟨folder, hfolder, below, hbelow⟩ | hlast)
      · cases below with
        | nil =>
          refine .inl ?_
          rw [hbelow, String.intercalate_singleton] at hmem
          have hgit : ∀ s ∈ SURFACES,
              s ∉ [".continuity", "_config", "contracts", "_promotions"] → s = ".git" := by
            decide
          rw [hbelow, hgit folder hfolder hmem]
        | cons x rest => exact .inr (.inl ⟨folder, hfolder, x, rest, hbelow⟩)
      · exact .inr (.inr hlast)

end ControlPlane

section Globs

/-- A pattern without `*` matches itself. -/
theorem glob_self {pattern cs : List Char} (h : '*' ∉ pattern) :
    glob pattern cs = true ↔ cs = pattern := by
  induction pattern generalizing cs with
  | nil => simp [glob]
  | cons p pattern ih =>
    rw [List.mem_cons, not_or] at h
    have hp : p ≠ '*' := fun heq => h.1 heq.symm
    cases cs with
    | nil => simp [glob]
    | cons c cs =>
      rw [glob, Bool.and_eq_true, beq_iff_eq, ih h.2, List.cons.injEq, eq_comm (a := p)]
      exact hp

/-- `front*` matches what begins with `front`. -/
theorem glob_prefix {front cs : List Char} (h : '*' ∉ front) :
    glob (front ++ ['*']) cs = true ↔ front <+: cs := by
  induction front generalizing cs with
  | nil =>
    rw [List.nil_append, glob, List.any_eq_true]
    exact ⟨fun _ => List.nil_prefix, fun _ => ⟨[], (List.mem_tails _ _).mpr List.nil_suffix, rfl⟩⟩
  | cons p front ih =>
    rw [List.mem_cons, not_or] at h
    have hp : p ≠ '*' := fun heq => h.1 heq.symm
    cases cs with
    | nil => simp [glob]
    | cons c cs =>
      rw [List.cons_append, glob, Bool.and_eq_true, beq_iff_eq, ih h.2, List.cons_prefix_cons]
      exact hp

/-- `*back` matches what ends with `back`. -/
theorem glob_suffix {back cs : List Char} (h : '*' ∉ back) :
    glob ('*' :: back) cs = true ↔ back <:+ cs := by
  rw [glob, List.any_eq_true]
  constructor
  · rintro ⟨tail, htail, hmatch⟩
    rw [glob_self h] at hmatch
    rw [← hmatch]
    exact (List.mem_tails _ _).mp htail
  · intro hback
    exact ⟨back, (List.mem_tails _ _).mpr hback, (glob_self h).mpr rfl⟩

end Globs

section Secrets

variable {name : String}

/-- The words whose dotted names are documented. -/
def DOTTED_WORDS : List String :=
  [".env", "credential", "credentials", "secret", "secrets", "token", "tokens", "auth"]

theorem glob_kinds : ∀ p ∈ SECRET_GLOBS, p = ".env" ∨ p = "id_rsa" ∨
    (∃ word ∈ DOTTED_WORDS, p.toList = (word ++ ".").toList ++ ['*']) ∨
      ∃ ext ∈ SECRET_SUFFIXES, p.toList = '*' :: ext.toList := by
  decide

theorem dotted_globs : ∀ word ∈ DOTTED_WORDS, word ++ ".*" ∈ SECRET_GLOBS ∧
    (word ++ ".*").toList = (word ++ ".").toList ++ ['*'] ∧ '*' ∉ (word ++ ".").toList := by
  decide

theorem suffix_globs : ∀ ext ∈ SECRET_SUFFIXES, "*" ++ ext ∈ SECRET_GLOBS ∧
    ("*" ++ ext).toList = '*' :: ext.toList ∧ '*' ∉ ext.toList := by
  decide

theorem documented_iff : documented name = true ↔ name = ".env" ∨ name = "id_rsa" ∨
    (∃ word ∈ DOTTED_WORDS, (word ++ ".").toList <+: name.toList) ∨
      ∃ ext ∈ SECRET_SUFFIXES, ext.toList <:+ name.toList := by
  rw [documented, List.any_eq_true]
  constructor
  · rintro ⟨p, hp, hmatch⟩
    rcases glob_kinds p hp with rfl | rfl | ⟨word, hword, heq⟩ | ⟨ext, hext, heq⟩
    · rw [glob_self (by decide), String.toList_inj] at hmatch
      exact .inl hmatch
    · rw [glob_self (by decide), String.toList_inj] at hmatch
      exact .inr (.inl hmatch)
    · rw [heq, glob_prefix (dotted_globs word hword).2.2] at hmatch
      exact .inr (.inr (.inl ⟨word, hword, hmatch⟩))
    · rw [heq, glob_suffix (suffix_globs ext hext).2.2] at hmatch
      exact .inr (.inr (.inr ⟨ext, hext, hmatch⟩))
  · rintro (rfl | rfl | ⟨word, hword, hmatch⟩ | ⟨ext, hext, hmatch⟩)
    · exact ⟨".env", by decide, (glob_self (by decide)).mpr rfl⟩
    · exact ⟨"id_rsa", by decide, (glob_self (by decide)).mpr rfl⟩
    · obtain ⟨hmem, heq, hplain⟩ := dotted_globs word hword
      exact ⟨_, hmem, by rwa [heq, glob_prefix hplain]⟩
    · obtain ⟨hmem, heq, hplain⟩ := suffix_globs ext hext
      exact ⟨_, hmem, by rwa [heq, glob_suffix hplain]⟩

theorem afterWord_self {word : List Char} (h : ∀ c ∈ word, sameLetter c c = true)
    (rest : List Char) : afterWord word (word ++ rest) = some rest := by
  induction word with
  | nil => rfl
  | cons c word ih =>
    rw [List.cons_append, afterWord, if_pos (h c List.mem_cons_self),
      ih fun d hd => h d (List.mem_cons_of_mem c hd)]

/-- What a word matches are letters of the word. -/
theorem afterWord_front {word cs rest : List Char} (h : afterWord word cs = some rest) :
    ∃ front, cs = front ++ rest ∧ ∀ c ∈ front, ∃ p ∈ word, sameLetter p c = true := by
  induction word generalizing cs with
  | nil =>
    cases h
    exact ⟨[], rfl, fun c hc => by cases hc⟩
  | cons p word ih =>
    cases cs with
    | nil => cases h
    | cons c cs =>
      rw [afterWord] at h
      split at h
      · rename_i hsame
        obtain ⟨front, rfl, hfront⟩ := ih h
        refine ⟨c :: front, rfl, fun d hd => ?_⟩
        rcases List.mem_cons.mp hd with rfl | hd
        · exact ⟨p, List.mem_cons_self, hsame⟩
        · obtain ⟨q, hq, hsame⟩ := hfront d hd
          exact ⟨q, List.mem_cons_of_mem p hq, hsame⟩
      · cases h

/-- The words of `SECRET_RE`. -/
def SECRET_WORDS : List String :=
  [".env", "credential", "credentials", "secret", "secrets", "token", "tokens", "auth", "id_rsa",
    "id_ed25519"]

theorem secret_letters : ∀ word ∈ SECRET_WORDS, ∀ p ∈ word.toList, sameLetter p p = true ∧
    sameLetter p '\n' = false := by
  have hall : SECRET_WORDS.all (fun word => word.toList.all fun p =>
      sameLetter p p && !sameLetter p '\n') = true := by
    decide
  intro word hword p hp
  have hletter := List.all_eq_true.mp (List.all_eq_true.mp hall word hword) p hp
  rw [Bool.and_eq_true, Bool.not_eq_true'] at hletter
  exact hletter

theorem secretName_eq (name : String) : secretName name =
    (SECRET_WORDS.any (fun word => wordOrDotted word name.toList) ||
      (!name.toList.contains '\n' && name.toList.tails.any recoveryWord)) := rfl

/-- A name with a line feed is not matched. -/
theorem secretName_newline (h : '\n' ∈ name.toList) : secretName name = false := by
  have hcontains : name.toList.contains '\n' = true := List.contains_iff_mem.mpr h
  rw [secretName_eq, hcontains, Bool.not_true, Bool.false_and, Bool.or_false, List.any_eq_false]
  intro word hword
  have hletters := secret_letters word hword
  rw [wordOrDotted]
  cases hafter : afterWord word.toList name.toList with
  | none => exact Bool.false_ne_true
  | some rest =>
    obtain ⟨front, heq, hfront⟩ := afterWord_front hafter
    have hrest : '\n' ∈ rest := by
      rw [heq] at h
      rcases List.mem_append.mp h with hmem | hmem
      · obtain ⟨p, hp, hsame⟩ := hfront _ hmem
        rw [(hletters p hp).2] at hsame
        cases hsame
      · exact hmem
    cases rest with
    | nil => cases hrest
    | cons c rest =>
      by_cases hc : c = '.'
      · subst hc
        have hrest : '\n' ∈ rest := by
          rcases List.mem_cons.mp hrest with hdot | hmem
          · cases hdot
          · exact hmem
        simpa using hrest
      · split
        · rename_i heq
          cases heq
        · rename_i heq
          cases heq
          exact absurd rfl hc
        · exact Bool.false_ne_true

theorem secretName_dotted {word : String} (hword : word ∈ DOTTED_WORDS)
    (h : (word ++ ".").toList <+: name.toList) (hline : '\n' ∉ name.toList) :
    secretName name = true := by
  obtain ⟨rest, heq⟩ := h
  have hmem : word ∈ SECRET_WORDS := by
    have hsub : ∀ w ∈ DOTTED_WORDS, w ∈ SECRET_WORDS := by decide
    exact hsub word hword
  have hafter : afterWord word.toList name.toList = some ('.' :: rest) := by
    rw [← heq, String.toList_append, List.append_assoc]
    exact afterWord_self (fun c hc => (secret_letters word hmem c hc).1) _
  have hrest : '\n' ∉ rest := fun hmem => hline (heq ▸ List.mem_append_right _ hmem)
  rw [secretName_eq, Bool.or_eq_true, List.any_eq_true]
  refine .inl ⟨word, hmem, ?_⟩
  rw [wordOrDotted, hafter]
  simpa using hrest

/-- The suffix of a name, where it has one, is a proper end of it. -/
theorem suffix_spec (name : String) : suffix name = "" ∨
    ((suffix name).toList <:+ name.toList ∧ (suffix name).toList.length < name.toList.length) := by
  have hsplit := List.takeWhile_append_dropWhile (p := fun c : Char => decide (c ≠ '.'))
    (l := name.toList.reverse)
  have hhead := List.head?_dropWhile_not (fun c : Char => decide (c ≠ '.')) name.toList.reverse
  unfold suffix
  generalize name.toList.reverse.takeWhile (fun c => decide (c ≠ '.')) = back at hsplit ⊢
  generalize name.toList.reverse.dropWhile (fun c => decide (c ≠ '.')) = front at hsplit hhead
  have hname : name.toList = front.reverse ++ back.reverse := by
    rw [← List.reverse_append, hsplit, List.reverse_reverse]
  dsimp only
  split
  · exact .inl rfl
  · rename_i hlong
    refine .inr ?_
    rw [Bool.or_eq_true, not_or, decide_eq_true_eq, Nat.not_le] at hlong
    rw [String.toList_ofList]
    refine ⟨?_, hlong.2⟩
    cases front with
    | nil =>
      have hlength := congrArg List.length hname
      rw [List.reverse_nil, List.nil_append] at hlength
      omega
    | cons c front =>
      have hdot : c = '.' := by simpa using hhead
      rw [hname, List.reverse_cons, hdot, List.append_assoc]
      exact List.suffix_append _ _

theorem suffix_append (stem : List Char) {ext : List Char} (hstem : stem ≠ []) (hext : ext ≠ [])
    (hdot : '.' ∉ ext) (h : name.toList = stem ++ '.' :: ext) :
    suffix name = String.ofList ('.' :: ext) := by
  have hback : (name.toList.reverse.takeWhile (fun c => decide (c ≠ '.'))).reverse = ext := by
    rw [h, List.reverse_append, List.reverse_cons, List.append_assoc, List.singleton_append,
      List.takeWhile_append_of_pos, List.takeWhile_cons_of_neg (by simp), List.append_nil,
      List.reverse_reverse]
    intro c hc
    rw [decide_eq_true_eq]
    rintro rfl
    exact hdot (List.mem_reverse.mp hc)
  have hlength : ext.length + 1 < name.toList.length := by
    have hpos := List.length_pos_of_ne_nil hstem
    rw [h, List.length_append, List.length_cons]
    omega
  unfold suffix
  rw [hback, if_neg]
  rw [Bool.or_eq_true, not_or, List.isEmpty_iff, decide_eq_true_eq]
  exact ⟨hext, by omega⟩

theorem secret_suffixes : ∀ ext ∈ SECRET_SUFFIXES, ∃ back, ext.toList = '.' :: back ∧ back ≠ [] ∧
    '.' ∉ back := by
  intro ext hext
  have hshape : ∀ e ∈ SECRET_SUFFIXES, e.toList = '.' :: e.toList.tail ∧ e.toList.tail ≠ [] ∧
      '.' ∉ e.toList.tail := by
    decide
  exact ⟨ext.toList.tail, hshape ext hext⟩

variable [Folding]

/-- A name that is folded has a secret suffix if it ends with one and is not just that. -/
theorem secret_suffix_iff (hfolded : ∀ c ∈ name.toList, Folding.fold c = [c]) :
    SECRET_SUFFIXES.contains (Text.casefold (suffix name)) = true ↔
      (∃ ext ∈ SECRET_SUFFIXES, ext.toList <:+ name.toList) ∧ name ∉ SECRET_SUFFIXES := by
  have hsame : Text.casefold (suffix name) = suffix name := by
    apply String.toList_injective
    rw [toList_casefold]
    rcases suffix_spec name with hnone | ⟨hend, -⟩
    · rw [hnone]
      rfl
    · rw [List.flatMap_congr fun c hc => hfolded c (hend.subset hc), List.flatMap_singleton']
  rw [hsame, List.contains_iff_mem]
  constructor
  · intro hmem
    rcases suffix_spec name with hnone | ⟨hend, hshorter⟩
    · rw [hnone] at hmem
      exact absurd hmem (by decide)
    · refine ⟨⟨_, hmem, hend⟩, fun hname => ?_⟩
      obtain ⟨back, hback, hne, hdot⟩ := secret_suffixes name hname
      have hbare : ∀ e ∈ SECRET_SUFFIXES, suffix e = "" := by decide
      rw [hbare name hname] at hmem
      exact absurd hmem (by decide)
  · rintro ⟨⟨ext, hext, stem, heq⟩, hname⟩
    obtain ⟨back, hback, hne, hdot⟩ := secret_suffixes ext hext
    rw [hback] at heq
    rw [suffix_append stem ?_ hne hdot heq.symm, ← hback, String.ofList_toList]
    · exact hext
    · rintro rfl
      rw [List.nil_append, ← hback, String.toList_inj] at heq
      exact hname (heq ▸ hext)

/-- A documented name is seen by one of the two rules unless it is overlooked. -/
theorem documented_seen_iff (hfolded : ∀ c ∈ name.toList, Folding.fold c = [c])
    (hdocumented : documented name = true) :
    (secretName name || SECRET_SUFFIXES.contains (Text.casefold (suffix name))) = true ↔
      overlooked name = false := by
  have hbare : ∀ e ∈ SECRET_SUFFIXES, secretName e = false := by decide +kernel
  rw [Bool.or_eq_true, secret_suffix_iff hfolded, overlooked, Bool.or_eq_false_iff,
    Bool.and_eq_false_iff, Bool.not_eq_false', List.any_eq_true]
  simp only [List.isSuffixOf_iff_suffix, Bool.eq_false_iff, ne_eq, List.contains_iff_mem]
  constructor
  · rintro (hname | ⟨hends, hname⟩)
    · refine ⟨fun hmem => ?_, .inl fun hline => ?_⟩
      · rw [hbare name hmem] at hname
        cases hname
      · rw [secretName_newline hline] at hname
        cases hname
    · exact ⟨hname, .inr hends⟩
  · rintro ⟨hname, hline | hends⟩
    · rcases documented_iff.mp hdocumented with rfl | rfl | ⟨word, hword, hprefix⟩ | hends
      · exact .inl (by decide +kernel)
      · exact .inl (by decide +kernel)
      · exact .inl (secretName_dotted hword hprefix hline)
      · exact .inr ⟨hends, hname⟩
    · exact .inr ⟨hends, hname⟩

theorem names_folded {p x : String} (hx : x ∈ names p) : ∀ c ∈ x.toList, Folding.fold c = [c] := by
  obtain ⟨y, -, rfl⟩ := List.mem_map.mp hx
  intro c hc
  rw [toList_casefold] at hc
  obtain ⟨d, -, hd⟩ := List.mem_flatMap.mp hc
  exact Folding.fold_fold d c hd

/-- The classifier asks for one of five paths, or for a name one of its two rules sees. -/
theorem is_secret_path_iff (p : String) : is_secret_path p = true ↔
    String.ofList (cleaned p) ∈ [".claude/settings.local.json", ".ssh/config",
        ".ssh/authorized_keys", ".ssh/id_rsa", ".ssh/id_ed25519"] ∨
      ∃ x ∈ names p,
        (secretName x || SECRET_SUFFIXES.contains (Text.casefold (suffix x))) = true := by
  rw [is_secret_path, Bool.or_eq_true, List.contains_iff_mem, components_cleaned, List.any_eq_true]

/-- Every governed operation refuses the path. -/
def Denied (c : String) : Prop :=
  ∀ root s t operation privileged, canonical_target root s = .ok (t, c) →
    ∃ message, assert_permitted_path root s operation privileged =
      .error (.PermissionError message)

theorem denied_of_secret {c : String} (h : is_secret_path c = true) : Denied c := by
  intro root s t operation privileged hcanonical
  rw [assert_permitted_path_of_canonical hcanonical, if_pos h]
  exact ⟨_, rfl⟩

/-- A path with a documented name is secret unless all its documented names are overlooked
and none of the others is matched. -/
theorem secret_covered_iff (p : String) :
    ((∃ x ∈ names p, documented x = true) → is_secret_path p = true ∧ Denied p) ↔
      ((∃ x ∈ names p, documented x = true ∧ overlooked x = true) → ∃ x ∈ names p,
        (documented x = true ∧ overlooked x = false) ∨
          (secretName x = true ∧ documented x = false)) := by
  have hfixed : ∀ fixed ∈ [".claude/settings.local.json", ".ssh/config", ".ssh/authorized_keys",
      ".ssh/id_rsa", ".ssh/id_ed25519"], (components fixed.toList).any documented = true →
        (components fixed.toList).any (fun x => documented x && !overlooked x) = true := by
    decide +kernel
  have hseen : ∀ x ∈ names p, documented x = true → overlooked x = false →
      is_secret_path p = true := by
    intro x hx hdocumented hoverlooked
    rw [is_secret_path_iff]
    exact .inr ⟨x, hx, (documented_seen_iff (names_folded hx) hdocumented).mpr hoverlooked⟩
  constructor
  · rintro h ⟨x, hx, hdocumented, -⟩
    obtain ⟨hsecret, -⟩ := h ⟨x, hx, hdocumented⟩
    rcases (is_secret_path_iff p).mp hsecret with hfive | ⟨y, hy, hrules⟩
    · have hnames := components_cleaned p
      rw [← String.toList_ofList (l := cleaned p)] at hnames
      have hany := hfixed _ hfive
      rw [hnames, List.any_eq_true, List.any_eq_true] at hany
      obtain ⟨y, hy, hboth⟩ := hany ⟨x, hx, hdocumented⟩
      rw [Bool.and_eq_true, Bool.not_eq_true'] at hboth
      exact ⟨y, hy, .inl hboth⟩
    · refine ⟨y, hy, ?_⟩
      cases hd : documented y with
      | true => exact .inl ⟨rfl, (documented_seen_iff (names_folded hy) hd).mp hrules⟩
      | false =>
        refine .inr ⟨?_, rfl⟩
        rcases (Bool.or_eq_true _ _).mp hrules with hname | hsuffix
        · exact hname
        · obtain ⟨hends, -⟩ := (secret_suffix_iff (names_folded hy)).mp hsuffix
          rw [documented_iff.mpr (.inr (.inr (.inr hends)))] at hd
          cases hd
  · rintro h ⟨x, hx, hdocumented⟩
    have hsecret : is_secret_path p = true := by
      cases hoverlooked : overlooked x with
      | false => exact hseen x hx hdocumented hoverlooked
      | true =>
        obtain ⟨y, hy, ⟨hd, ho⟩ | ⟨hname, -⟩⟩ := h ⟨x, hx, hdocumented, hoverlooked⟩
        · exact hseen y hy hd ho
        · rw [is_secret_path_iff]
          exact .inr ⟨y, hy, by rw [hname, Bool.true_or]⟩
    exact ⟨hsecret, denied_of_secret hsecret⟩

end Secrets

section Samples

attribute [local instance] asciiFolding

theorem control_plane_covered_iff_state : is_control_plane_path ".Continuity\\state.json" = true ∧
    ((is_control_plane_path ".Continuity\\state.json" = true ↔
        Covered ([".Continuity", "state.json"].map Text.casefold)) ↔
      Text.casefold (String.ofList (slashes ".Continuity\\state.json")) ∉
        [".continuity", "_config", "contracts", "_promotions"]) := by
  have hcanonical : Canonical ".Continuity\\state.json" [".Continuity", "state.json"] :=
    ⟨by decide, by decide, by decide⟩
  exact ⟨by decide +kernel, control_plane_covered_iff hcanonical⟩

/-- The folder `.continuity` itself is not protected. -/
theorem continuity_root_unprotected : ¬ ∀ p parts, Canonical p parts →
    (is_control_plane_path p = true ↔ Covered (parts.map Text.casefold)) := by
  intro h
  have hcanonical : Canonical ".continuity" [".continuity"] := ⟨by decide, by decide, by decide⟩
  have hcovered : Covered ([".continuity"].map Text.casefold) :=
    .inl ⟨".continuity", by decide, [], by decide⟩
  have hplain : is_control_plane_path ".continuity" = false := by decide +kernel
  rw [(h _ _ hcanonical).mpr hcovered] at hplain
  cases hplain

/-- The file `.pem` matches `*.pem`. -/
theorem bare_suffix_missed : ¬ ∀ p, (∃ x ∈ names p, documented x = true) →
    is_secret_path p = true ∧ Denied p := by
  intro h
  obtain ⟨hsecret, -⟩ := h ".pem" ⟨".pem", by decide +kernel, by decide +kernel⟩
  have hplain : is_secret_path ".pem" = false := by decide +kernel
  rw [hsecret] at hplain
  cases hplain

end Samples

end jvc.policy
