import Jvc.Git.Switch

open program program.Prog jvc.recovery jvc.policy

namespace jvc.git

variable {σ : Type}

section CheckAttr

/-- What an attribute is for a path. -/
inductive AttrState
  | unspecified
  | unset
  | set
  | value (v : String) (nonempty : v ≠ "") (solid : ∀ ch ∈ v.toList, isSpace ch = false)

/-- How git prints it. -/
def AttrState.shown : AttrState → List Char
  | .unspecified => "unspecified".toList
  | .unset => "unset".toList
  | .set => "set".toList
  | .value v _ _ => v.toList

/-- The attribute selects a driver. -/
def AttrState.Selects : AttrState → Prop
  | .unspecified => False
  | .unset => False
  | .set => True
  | .value _ _ _ => True

/-- The states of the attributes that are asked for. -/
structure PathAttrs where
  filter : AttrState
  diff : AttrState
  textconv : AttrState
  merge : AttrState

def PathAttrs.all (a : PathAttrs) : List (String × AttrState) :=
  [("filter", a.filter), ("diff", a.diff), ("textconv", a.textconv), ("merge", a.merge)]

/-- `: <attr>: <value>` -/
def attrTail (attr : String × AttrState) : List Char :=
  ": ".toList ++ attr.1.toList ++ ": ".toList ++ attr.2.shown

/-- A line `<path>: <attr>: <value>` for each attribute. -/
def printedAttrs (path : String) (a : PathAttrs) : List Char :=
  a.all.flatMap fun attr => path.toList ++ (attrTail attr ++ ['\n'])

/-- The text behind the last colon. -/
def lastPiece (cs : List Char) : List Char := ((cs.splitOn ':').getLast?).getD []

variable [Letters]

/-- The value that is read is none of the words for no driver. -/
def Exposed (shown : List Char) : Prop :=
  safeAttrValues.contains (Letters.lower (strip (String.ofList (lastPiece shown)))) = false

/-- A line that is denied. -/
def deniedLine (line : String) : Bool :=
  (attrValue line).any fun value => !safeAttrValues.contains value

/-- The output is denied: for a value that it shows, or for a line inside the path. -/
def AttrsSeen (path : String) (a : PathAttrs) : Prop :=
  (∃ attr ∈ a.all, Exposed attr.2.shown) ∨
    ∃ line ∈ lines.finished path.toList, deniedLine (String.ofList line) = true

omit [Letters] in
theorem shown_solid (a : AttrState) : a.shown ≠ [] ∧ ∀ ch ∈ a.shown, isSpace ch = false := by
  cases a with
  | value v nonempty solid => exact ⟨fun h => nonempty (String.toList_injective h), solid⟩
  | _ => exact ⟨by decide, lines.none_of_any (by decide)⟩

omit [Letters] in
theorem isSpace_of_isBreak {ch : Char} (h : lines.isBreak ch = true) : isSpace ch = true := by
  simp only [lines.isBreak, Bool.or_eq_true, beq_iff_eq] at h
  rcases h with ((((((((rfl | rfl) | rfl) | rfl) | rfl) | rfl) | rfl) | rfl) | rfl) | rfl <;> decide

omit [Letters] in
theorem attrTail_solid {a : PathAttrs} {attr : String × AttrState} (h : attr ∈ a.all) :
    ∀ ch ∈ attrTail attr, lines.isBreak ch = false := by
  intro ch hch
  have hword : ∀ w ∈ ["filter", "diff", "textconv", "merge"],
      (": ".toList ++ w.toList ++ ": ".toList).any lines.isBreak = false := by decide
  have hname : attr.1 ∈ ["filter", "diff", "textconv", "merge"] := List.mem_map_of_mem h
  rcases List.mem_append.mp hch with hch | hch
  · exact lines.none_of_any (hword _ hname) ch hch
  · rw [← Bool.not_eq_true]
    intro hbreak
    have hsolid := (shown_solid attr.2).2 ch hch
    rw [isSpace_of_isBreak hbreak] at hsolid
    cases hsolid

omit [Letters] in
/-- A blank in front does not change what is read of the last piece. -/
theorem strip_lastPiece (cs : List Char) :
    strip (String.ofList (lastPiece (' ' :: cs))) = strip (String.ofList (lastPiece cs)) := by
  unfold lastPiece
  rw [List.splitOn_cons_eq_if_modifyHead, if_neg (by decide)]
  cases hsplit : cs.splitOn ':' with
  | nil => rfl
  | cons first rest =>
    cases rest with
    | nil => simp [strip, isSpace]
    | cons second rest => rfl

/-- The value of a printed line. -/
theorem attrValue_tail (front : List Char) (attr : String × AttrState) :
    attrValue (String.ofList (front ++ attrTail attr)) =
      some (Letters.lower (strip (String.ofList (lastPiece attr.2.shown)))) := by
  have hline : front ++ attrTail attr =
      (front ++ ':' :: ' ' :: attr.1.toList) ++ ':' :: ' ' :: attr.2.shown := by
    simp [attrTail]
  have hparts : 3 ≤ ((front ++ attrTail attr).splitOn ':').length := by
    have hpos : ∀ cs : List Char, 0 < (cs.splitOn ':').length := fun cs =>
      List.length_pos_of_ne_nil (List.splitOn_ne_nil ':' cs)
    rw [hline, List.splitOn_append_cons_self, List.splitOn_append_cons_self, List.length_append,
      List.length_append]
    have h1 := hpos front
    have h2 := hpos (' ' :: attr.1.toList)
    have h3 := hpos (' ' :: attr.2.shown)
    omega
  have hlast : ((front ++ attrTail attr).splitOn ':').getLast? =
      some (lastPiece (' ' :: attr.2.shown)) := by
    rw [hline, List.splitOn_append_cons_self,
      List.getLast?_append_of_ne_nil _ (List.splitOn_ne_nil ':' _), lastPiece]
    cases hpiece : ((' ' :: attr.2.shown).splitOn ':').getLast? with
    | none => exact absurd (List.getLast?_eq_none_iff.mp hpiece) (List.splitOn_ne_nil ':' _)
    | some piece => rfl
  unfold attrValue
  rw [String.toList_ofList]
  extract_lets parts
  have hlength : ¬ parts.length < 3 := by
    rw [List.length_map]
    omega
  rw [if_neg hlength, List.getLast?_map, hlast, Option.map_some, Option.map_some,
    strip_lastPiece]

omit [Letters] in
/-- The lines of the output. -/
theorem splitlines_printedAttrs (path : String) (a : PathAttrs) :
    lines.splitlines (printedAttrs path a) = a.all.flatMap fun attr =>
      lines.finished path.toList ++ [lines.openLine path.toList ++ attrTail attr] := by
  have hlist : ∀ attrs : List (String × AttrState), (∀ attr ∈ attrs, attr ∈ a.all) →
      lines.splitlines (attrs.flatMap fun attr => path.toList ++ (attrTail attr ++ ['\n'])) =
        attrs.flatMap fun attr =>
          lines.finished path.toList ++ [lines.openLine path.toList ++ attrTail attr] := by
    intro attrs hattrs
    induction attrs with
    | nil => rfl
    | cons attr rest ih =>
      have hsolid := attrTail_solid (hattrs attr List.mem_cons_self)
      have hne : attrTail attr ≠ [] := by simp [attrTail]
      rw [List.flatMap_cons, List.flatMap_cons,
        ← ih fun x hx => hattrs x (List.mem_cons_of_mem attr hx)]
      simp only [List.append_assoc, List.cons_append, List.nil_append]
      exact lines.splitlines_append hsolid hne path.toList _
  exact hlist a.all fun _ h => h

/-- A line of the output is denied exactly if a value is exposed or a line inside the
path is denied. -/
theorem deniedLine_iff (path : String) (a : PathAttrs) :
    (∃ line ∈ textLines (translated (String.ofList (printedAttrs path a))),
      deniedLine line = true) ↔ AttrsSeen path a := by
  rw [textLines, translated, String.toList_ofList, String.toList_ofList,
    lines.splitlines_translate, splitlines_printedAttrs]
  have hshown : ∀ attr : String × AttrState,
      deniedLine (String.ofList (lines.openLine path.toList ++ attrTail attr)) = true ↔
        Exposed attr.2.shown := by
    intro attr
    rw [deniedLine, attrValue_tail, Exposed, Option.any_some, Bool.not_eq_true']
  constructor
  · rintro ⟨line, hline, hdenied⟩
    obtain ⟨cs, hcs, rfl⟩ := List.mem_map.mp hline
    obtain ⟨attr, hattr, hcs⟩ := List.mem_flatMap.mp hcs
    rcases List.mem_append.mp hcs with hcs | hcs
    · exact .inr ⟨cs, hcs, hdenied⟩
    · rw [List.mem_singleton.mp hcs] at hdenied
      exact .inl ⟨attr, hattr, (hshown attr).mp hdenied⟩
  · rintro (⟨attr, hattr, hexposed⟩ | ⟨cs, hcs, hdenied⟩)
    · refine ⟨_, List.mem_map_of_mem (List.mem_flatMap.mpr ⟨attr, hattr, ?_⟩),
        (hshown attr).mpr hexposed⟩
      exact List.mem_append_right _ (List.mem_singleton_self _)
    · refine ⟨_, List.mem_map_of_mem (List.mem_flatMap.mpr
        ⟨("filter", a.filter), List.mem_cons_self, ?_⟩), hdenied⟩
      exact List.mem_append_left _ hcs

variable {A : Answers σ} {s : Session σ} {root : Path}

def check_attr_args (c : String) : List String :=
  ["check-attr", "filter", "diff", "textconv", "merge", "--", c]

/-- The check raises exactly for an output with a denied line. -/
theorem assert_path_attrs_safe_run {c out err : String}
    (hanswer : (A.answer (.command root (check_attr_args c)) s.host).1 =
      .exited 0 (some out) (some err)) :
    (∃ message u, (assert_path_attrs_safe root c).run (machine A) () s =
      (.error (.PermissionError message), u)) ↔
        ∃ line ∈ textLines (translated out), deniedLine line = true := by
  have hrun := run_git_answer hanswer
  unfold check_attr_args at hrun
  unfold assert_path_attrs_safe
  rw [run_seq _ _ hrun, run_seq _ _ (raiseIf_pass (by rfl))]
  dsimp only
  cases hfind : (textLines (translated out)).find? fun line =>
      (attrValue line).any fun value => !safeAttrValues.contains value with
  | none =>
    rw [List.find?_eq_none] at hfind
    refine ⟨fun ⟨message, u, h⟩ => ?_, fun ⟨line, hline, h⟩ => absurd h (hfind line hline)⟩
    cases h
  | some line =>
    have hdenied := List.find?_some hfind
    exact ⟨fun _ => ⟨line, List.mem_of_find?_eq_some hfind, hdenied⟩, fun _ => ⟨_, _, rfl⟩⟩

/-- If an attribute selects a driver the check raises, exactly if no attribute selects
one or the output is denied for a value that it shows or inside the path. -/
theorem path_attrs_rejected_iff {c err : String} {a : PathAttrs}
    (hanswer : (A.answer (.command root (check_attr_args c)) s.host).1 =
      .exited 0 (some (String.ofList (printedAttrs c a))) (some err)) :
    ((∃ attr ∈ a.all, attr.2.Selects) → ∃ message u,
      (assert_path_attrs_safe root c).run (machine A) () s =
        (.error (.PermissionError message), u)) ↔
      (∀ attr ∈ a.all, ¬ attr.2.Selects) ∨ AttrsSeen c a := by
  rw [assert_path_attrs_safe_run hanswer, deniedLine_iff]
  constructor
  · intro h
    by_cases hselects : ∃ attr ∈ a.all, attr.2.Selects
    · exact .inr (h hselects)
    · exact .inl fun attr hattr hsel => hselects ⟨attr, hattr, hsel⟩
  · rintro (hnone | hseen) ⟨attr, hattr, hsel⟩
    · exact (hnone attr hattr hsel).elim
    · exact hseen

/-- What git prints for a set attribute is none of the words for no driver. -/
theorem exposed_set : Exposed AttrState.set.shown := by
  have hvalue : strip (String.ofList (lastPiece AttrState.set.shown)) = "set" := by decide
  have hlower : String.ofList ("set".toList.map Char.toLower) = "set" := by decide
  rw [Exposed, hvalue, lower_plain (lines.forall_of_all (by decide)), hlower]
  decide

/-- The check raises for every path on which an attribute is set. -/
theorem set_attr_rejected {c err : String} {a : PathAttrs} {attr : String × AttrState}
    (hanswer : (A.answer (.command root (check_attr_args c)) s.host).1 =
      .exited 0 (some (String.ofList (printedAttrs c a))) (some err))
    (hattr : attr ∈ a.all) (hset : attr.2 = .set) : ∃ message u,
      (assert_path_attrs_safe root c).run (machine A) () s =
        (.error (.PermissionError message), u) := by
  rw [assert_path_attrs_safe_run hanswer, deniedLine_iff]
  refine .inl ⟨attr, hattr, ?_⟩
  rw [hset]
  exact exposed_set

/-- The check raises whenever an attribute selects a driver. -/
def RejectsDrivers : Prop :=
  ∀ (σ : Type) (A : Answers σ) (s : Session σ) (root c err : String) (a : PathAttrs),
    (A.answer (.command root (check_attr_args c)) s.host).1 =
        .exited 0 (some (String.ofList (printedAttrs c a))) (some err) →
      (∃ attr ∈ a.all, attr.2.Selects) → ∃ message u,
        (assert_path_attrs_safe root c).run (machine A) () s =
          (.error (.PermissionError message), u)

end CheckAttr

section CheckAttrSample

/-- A filter driver whose name ends like the word for no driver. -/
def unsetDriver : PathAttrs :=
  { filter := .value "x:unset" (by decide) (lines.none_of_any (by decide))
    diff := .unspecified
    textconv := .unspecified
    merge := .unspecified }

/-- A host that prints the same for every command. -/
def printing (out : List Char) : Answers Unit where
  answer
    | .command _ _, _ => (.exited 0 (some (String.ofList out)) (some ""), ())
    | op, u => (obliging "" none).answer op u

theorem path_attrs_rejected_iff_unset :
    ((∃ attr ∈ unsetDriver.all, attr.2.Selects) → ∃ message u,
      (@assert_path_attrs_safe asciiLetters "/w/app" "a.txt").run
          (machine (printing (printedAttrs "a.txt" unsetDriver))) () idle =
        (.error (.PermissionError message), u)) ↔
      (∀ attr ∈ unsetDriver.all, ¬ attr.2.Selects) ∨ @AttrsSeen asciiLetters "a.txt" unsetDriver :=
  @path_attrs_rejected_iff _ asciiLetters _ _ "/w/app" "a.txt" "" unsetDriver rfl

theorem unset_driver_accepted : ¬ @RejectsDrivers asciiLetters := by
  intro h
  obtain ⟨message, u, hrun⟩ := h Unit (printing (printedAttrs "a.txt" unsetDriver)) idle "/w/app"
    "a.txt" "" unsetDriver rfl ⟨("filter", unsetDriver.filter), List.mem_cons_self, trivial⟩
  have hpass : ((@assert_path_attrs_safe asciiLetters "/w/app" "a.txt").run
      (machine (printing (printedAttrs "a.txt" unsetDriver))) () idle).1.toBool = true := by
    decide +kernel
  rw [hrun] at hpass
  cases hpass

end CheckAttrSample

end jvc.git
