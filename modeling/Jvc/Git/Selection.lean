import Jvc.Git.Switch
import Jvc.Lib.Words

open program program.Prog jvc.recovery jvc.policy

namespace jvc.git

variable {σ : Type}

section Grammar

/-- A blank in git's attribute files. -/
def gitBlank (c : Char) : Bool := c == ' ' || c == '\t' || c == '\r' || c == '\n'

inductive Quote
  | plain
  | escape
  | octal
  | lastOctal

/-- The text behind the quote that closes a C-style quoted pattern. -/
def unquote : Quote → List Char → Option (List Char)
  | _, [] => none
  | .plain, c :: cs =>
    if c = '"' then some cs else unquote (if c = '\\' then .escape else .plain) cs
  | .escape, c :: cs =>
    if "abfnrtv\\\"".toList.contains c then unquote .plain cs
    else if '0' ≤ c ∧ c ≤ '3' then unquote .octal cs
    else none
  | .octal, c :: cs => if '0' ≤ c ∧ c ≤ '7' then unquote .lastOctal cs else none
  | .lastOctal, c :: cs => if '0' ≤ c ∧ c ≤ '7' then unquote .plain cs else none

def gitWords (cs : List Char) : List (List Char) := tokens.words (fun c => !gitBlank c) cs

/-- The attributes of a line: none for a blank line or a comment, else what follows
the pattern, which may be quoted. -/
def gitAttributes (line : List Char) : List (List Char) :=
  match line.dropWhile gitBlank with
  | [] => []
  | '#' :: _ => []
  | '"' :: rest =>
    match unquote .plain rest with
    | some states => gitWords states
    | none => (gitWords ('"' :: rest)).drop 1
  | cs => (gitWords cs).drop 1

/-- The name of an attribute without its prefix and its value. -/
def attrName (word : List Char) : List Char :=
  (match word with
    | '-' :: rest => rest
    | '!' :: rest => rest
    | _ => word).takeWhile (· ≠ '=')

/-- The attribute assigns a driver, or is one of the names for an encoding or a text
conversion. -/
def selectsHelper (word : List Char) : Bool :=
  ["filter=", "diff=", "merge="].any (fun start => start.toList.isPrefixOf word) ||
    ["textconv", "working-tree-encoding"].any fun name => attrName word == name.toList

/-- Some line of the file that is no comment selects a helper. -/
def Selecting (text : List Char) : Prop :=
  ∃ line ∈ text.splitOn '\n', ∃ word ∈ gitAttributes line, selectsHelper word = true

/-- A word selects a helper, and no `#` stands in front of it in its line. -/
def SelectsOpenly (text : List Char) : Prop :=
  ∃ line ∈ text.splitOn '\n', ∃ word ∈ gitAttributes line, selectsHelper word = true ∧
    ∃ front back, line = front ++ (word ++ back) ∧ '#' ∉ lines.openLine front

end Grammar

section Visible

/-- The text goes on with an equals sign, after any blanks. -/
def goesOn (text : List Char) : Bool := (text.dropWhile isSpace).head? == some '='

/-- The text ends in the name of a driver attribute, before any blanks. -/
def endsInWord (text : List Char) : Bool :=
  text.tails.any fun cs =>
    ["filter", "diff", "merge"].any fun word => opens word (fun more => more.all isSpace) cs

/-- A token stands in one of the lines, or at the end of a line and the start of the
text behind it. -/
def showsToken : List (List Char) → Bool
  | [] => false
  | line :: rest =>
    unsafeAttrToken line || (endsInWord line && goesOn rest.flatten) || showsToken rest

/-- The lines of a text, each up to its first `#`. -/
def visibleLines (text : List Char) : List (List Char) :=
  (lines.splitlines text).map fun line => line.takeWhile (· ≠ '#')

theorem afterWord_append {word : List Char} (h : ∀ p ∈ word, sameLetter p '\n' = false)
    (cs rest : List Char) :
    afterWord word (cs ++ '\n' :: rest) = (afterWord word cs).map (· ++ '\n' :: rest) := by
  induction word generalizing cs with
  | nil => rfl
  | cons p ps ih =>
    cases cs with
    | nil =>
      rw [List.nil_append, afterWord, h p List.mem_cons_self]
      rfl
    | cons c cs =>
      rw [List.cons_append, afterWord, afterWord]
      split
      · exact ih (fun q hq => h q (List.mem_cons_of_mem p hq)) cs
      · rfl

theorem goesOn_append (more rest : List Char) :
    goesOn (more ++ '\n' :: rest) = (goesOn more || (more.all isSpace && goesOn rest)) := by
  induction more with
  | nil => rfl
  | cons c more ih =>
    unfold goesOn at ih ⊢
    rw [List.cons_append]
    cases hc : isSpace c with
    | true =>
      rw [List.dropWhile_cons_of_pos hc, List.dropWhile_cons_of_pos hc, ih, List.all_cons, hc,
        Bool.true_and]
    | false =>
      rw [List.dropWhile_cons_of_neg (by simp [hc]), List.dropWhile_cons_of_neg (by simp [hc]),
        List.all_cons, hc, Bool.false_and, Bool.false_and, Bool.or_false]
      rfl

/-- A token starts here. -/
def tokenAt (cs : List Char) : Bool :=
  ["filter", "diff", "merge"].any (fun word => opens word goesOn cs) ||
    ["textconv", "working-tree-encoding"].any fun word => opens word (fun _ => true) cs

theorem unsafeAttrToken_cons (c : Char) (cs : List Char) :
    unsafeAttrToken (c :: cs) = (tokenAt (c :: cs) || unsafeAttrToken cs) := by
  rw [unsafeAttrToken, List.tails, List.any_cons]
  rfl

theorem opens_append {word : String} (h : ∀ p ∈ word.toList, sameLetter p '\n' = false)
    (rest' : List Char → Bool) (cs rest : List Char) :
    opens word rest' (cs ++ '\n' :: rest) =
      opens word (fun more => rest' (more ++ '\n' :: rest)) cs := by
  unfold opens
  rw [afterWord_append h]
  cases afterWord word.toList cs <;> rfl

theorem opens_or (word : String) (f g : List Char → Bool) (cs : List Char) :
    opens word (fun more => f more || g more) cs = (opens word f cs || opens word g cs) := by
  unfold opens
  cases afterWord word.toList cs <;> rfl

theorem opens_and (word : String) (f : List Char → Bool) (b : Bool) (cs : List Char) :
    opens word (fun more => f more && b) cs = (opens word f cs && b) := by
  unfold opens
  cases afterWord word.toList cs <;> rfl

theorem opens_goesOn {word : String} (h : ∀ p ∈ word.toList, sameLetter p '\n' = false)
    (cs rest : List Char) : opens word goesOn (cs ++ '\n' :: rest) =
      (opens word goesOn cs || (opens word (fun more => more.all isSpace) cs && goesOn rest)) := by
  rw [opens_append h, ← opens_and, ← opens_or]
  simp only [goesOn_append]

/-- A token that starts in a line ends in it, or goes on behind its end. -/
theorem tokenAt_append (cs rest : List Char) : tokenAt (cs ++ '\n' :: rest) =
    (tokenAt cs || (["filter", "diff", "merge"].any (fun word =>
      opens word (fun more => more.all isSpace) cs) && goesOn rest)) := by
  have hwords : ∀ word ∈ ["filter", "diff", "merge", "textconv", "working-tree-encoding"],
      word.toList.any (fun p => sameLetter p '\n') = false := by decide
  have hfilter := lines.none_of_any (hwords "filter" (by simp))
  have hdiff := lines.none_of_any (hwords "diff" (by simp))
  have hmerge := lines.none_of_any (hwords "merge" (by simp))
  have htextconv := lines.none_of_any (hwords "textconv" (by simp))
  have hencoding := lines.none_of_any (hwords "working-tree-encoding" (by simp))
  unfold tokenAt
  simp only [List.any_cons, List.any_nil, Bool.or_false, opens_goesOn hfilter, opens_goesOn hdiff,
    opens_goesOn hmerge, opens_append htextconv, opens_append hencoding]
  cases goesOn rest with
  | false => simp only [Bool.and_false, Bool.or_false]
  | true =>
    simp only [Bool.and_true]
    grind

theorem unsafeAttrToken_append (line rest : List Char) : unsafeAttrToken (line ++ '\n' :: rest) =
    (unsafeAttrToken line || (endsInWord line && goesOn rest) || unsafeAttrToken rest) := by
  induction line with
  | nil =>
    rw [List.nil_append, unsafeAttrToken_cons]
    rfl
  | cons c line ih =>
    have hends : endsInWord (c :: line) = (["filter", "diff", "merge"].any (fun word =>
        opens word (fun more => more.all isSpace) (c :: line)) || endsInWord line) := by
      rw [endsInWord, List.tails, List.any_cons]
      rfl
    rw [List.cons_append, unsafeAttrToken_cons, ih, unsafeAttrToken_cons, hends,
      ← List.cons_append, tokenAt_append]
    cases goesOn rest with
    | false => simp only [Bool.and_false, Bool.or_false, Bool.or_assoc]
    | true =>
      simp only [Bool.and_true]
      grind

theorem goesOn_eq_find (text : List Char) :
    goesOn text = (text.find? (fun c => !isSpace c) == some '=') := by
  rw [goesOn, List.find?_eq_head?_dropWhile_not]
  simp only [Bool.not_not]

theorem goesOn_intercalate (vs : List (List Char)) :
    goesOn (['\n'].intercalate vs) = goesOn vs.flatten := by
  simp only [goesOn_eq_find]
  refine congrArg (· == some '=') ?_
  induction vs with
  | nil => rfl
  | cons v vs ih =>
    by_cases hvs : vs = []
    · subst hvs
      simp
    · have hnewline : ['\n'].find? (fun c => !isSpace c) = none := by decide
      rw [List.intercalate_cons_of_ne_nil hvs, List.flatten_cons, List.find?_append,
        List.find?_append, List.find?_append, ih, hnewline, Option.or_none]

/-- The search over the lines that are left sees the tokens of the lines. -/
theorem unsafeAttrToken_intercalate (vs : List (List Char)) :
    unsafeAttrToken (['\n'].intercalate vs) = showsToken vs := by
  induction vs with
  | nil => rfl
  | cons v vs ih =>
    cases vs with
    | nil => simp [showsToken, goesOn]
    | cons w vs =>
      rw [List.intercalate_cons_of_ne_nil (List.cons_ne_nil w vs), List.append_assoc,
        List.singleton_append, unsafeAttrToken_append, ih, goesOn_intercalate]
      rfl

/-- The word of a helper begins with its token, or with the sign in front of it. -/
theorem selectsHelper_token {word : List Char} (h : selectsHelper word = true) :
    ∃ sign token more, word = sign ++ token ++ more ∧ token ≠ [] ∧
      (∀ c ∈ sign ++ token, lines.isBreak c = false ∧ c ≠ '#') ∧
        ∀ rest, tokenAt (token ++ rest) = true := by
  rw [selectsHelper, Bool.or_eq_true, List.any_eq_true, List.any_eq_true] at h
  rcases h with ⟨start, hstart, hprefix⟩ | ⟨name, hname, hattr⟩
  · obtain ⟨more, hword⟩ := List.isPrefixOf_iff_prefix.mp hprefix
    refine ⟨[], start.toList, more, by rw [← hword, List.nil_append], ?_⟩
    simp only [List.mem_cons, List.not_mem_nil, or_false] at hstart
    rcases hstart with rfl | rfl | rfl
    · exact ⟨by decide, lines.forall_of_all (by decide), fun _ => rfl⟩
    · exact ⟨by decide, lines.forall_of_all (by decide), fun _ => rfl⟩
    · exact ⟨by decide, lines.forall_of_all (by decide), fun _ => rfl⟩
  · rw [beq_iff_eq] at hattr
    have hsigned : ∃ sign, (sign = [] ∨ sign = ['-'] ∨ sign = ['!']) ∧
        ∃ more, word = sign ++ name.toList ++ more := by
      unfold attrName at hattr
      split at hattr
      · exact ⟨['-'], by simp, _, by
          rw [← hattr, List.append_assoc, List.takeWhile_append_dropWhile]
          rfl⟩
      · exact ⟨['!'], by simp, _, by
          rw [← hattr, List.append_assoc, List.takeWhile_append_dropWhile]
          rfl⟩
      · exact ⟨[], by simp, _, by
          rw [← hattr, List.nil_append, List.takeWhile_append_dropWhile]⟩
    obtain ⟨sign, hsign, more, hword⟩ := hsigned
    refine ⟨sign, name.toList, more, hword, ?_⟩
    simp only [List.mem_cons, List.not_mem_nil, or_false] at hname
    rcases hname with rfl | rfl
    · refine ⟨by decide, ?_, fun _ => rfl⟩
      rcases hsign with rfl | rfl | rfl <;> exact lines.forall_of_all (by decide)
    · refine ⟨by decide, ?_, fun _ => rfl⟩
      rcases hsign with rfl | rfl | rfl <;> exact lines.forall_of_all (by decide)

theorem unsafeAttrToken_of_tokenAt {cs : List Char} (h : tokenAt cs = true) (front : List Char) :
    unsafeAttrToken (front ++ cs) = true := by
  rw [unsafeAttrToken, List.any_eq_true]
  exact ⟨cs, (List.mem_tails _ _).mpr (List.suffix_append front cs), h⟩

theorem showsToken_of_mem {line : List Char} {vs : List (List Char)} (h : line ∈ vs)
    (htoken : unsafeAttrToken line = true) : showsToken vs = true := by
  induction vs with
  | nil => cases h
  | cons v vs ih =>
    rw [showsToken]
    rcases List.mem_cons.mp h with rfl | h
    · rw [htoken, Bool.true_or, Bool.true_or]
    · rw [ih h, Bool.or_true]

/-- What git reads as a selection is visible if no `#` stands in front of it. -/
theorem SelectsOpenly.shows {text : List Char} (h : SelectsOpenly text) :
    showsToken (visibleLines text) = true := by
  obtain ⟨line, hline, word, _, hselects, front, back, rfl, hopen⟩ := h
  obtain ⟨sign, token, more, rfl, hne, hsolid, htoken⟩ := selectsHelper_token hselects
  obtain ⟨before, after, rfl, hbefore⟩ := lines.splitOn_line hline
  obtain ⟨rest, hmem⟩ := @lines.splitlines_append_solid (before ++ front) _
    (fun c hc => (hsolid c hc).1) (List.append_ne_nil_of_right_ne_nil sign hne)
    (more ++ (back ++ after))
  have hlines : before ++ front ++ (sign ++ token ++ (more ++ (back ++ after))) =
      before ++ (front ++ (sign ++ token ++ more ++ back) ++ after) := by
    simp only [List.append_assoc]
  rw [hbefore, hlines] at hmem
  have hplain : ∀ c ∈ lines.openLine front ++ (sign ++ token), decide (c ≠ '#') = true := by
    intro c hc
    rw [decide_eq_true_iff]
    rcases List.mem_append.mp hc with hc | hc
    · rintro rfl
      exact hopen hc
    · exact (hsolid c hc).2
  refine @showsToken_of_mem (lines.openLine front ++ (sign ++ token) ++
    rest.takeWhile (· ≠ '#')) _ ?_ ?_
  · rw [visibleLines, List.mem_map]
    exact ⟨_, hmem, List.takeWhile_append_of_pos hplain⟩
  · rw [← List.append_assoc, List.append_assoc]
    exact unsafeAttrToken_of_tokenAt (htoken _) _

end Visible

section Scanning

variable {A : Answers σ} {s u : Session σ} {root : Path} {texts : Path → Option String}

/-- The files of the worktree read with universal newlines; `none` for one that cannot
be read. -/
def ReadsFiles (A : Answers σ) (texts : Path → Option String) : Prop :=
  ∀ p v, (A.answer (.read_text p) v).1 = (texts p).map translated

theorem visible_meaningful (text : String) :
    unsafeAttrToken (meaningful (translated text)) = showsToken (visibleLines text.toList) := by
  rw [meaningful, unsafeAttrToken_intercalate, translated, String.toList_ofList,
    lines.splitlines_translate]
  rfl

/-- The scan raises exactly for a file in which a token is visible. -/
theorem check_attr_files_run (hreads : ReadsFiles A texts) (files : List Path) :
    (∃ message v, (check_attr_files files).run (machine A) () s =
      (.error (.PermissionError message), v)) ↔
        ∃ p ∈ files, ∃ text, texts p = some text ∧
          showsToken (visibleLines text.toList) = true := by
  induction files generalizing s with
  | nil =>
    refine ⟨fun ⟨message, v, h⟩ => ?_, fun ⟨p, hp, _⟩ => ?_⟩
    · cases h
    · cases hp
  | cons file rest ih =>
    have hread : (read_text file).run (machine A) () s = (.ok ((texts file).map translated),
        { s with host := (A.answer (.read_text file) s.host).2 }) := by
      rw [← hreads file s.host]
      rfl
    unfold check_attr_files
    rw [run_seq _ _ hread, List.exists_mem_cons_iff]
    cases htext : texts file with
    | none =>
      simp only [Option.map_none, reduceCtorEq, false_and, exists_false, false_or]
      exact ih
    | some text =>
      simp only [Option.map_some, Option.some.injEq, exists_eq_left', visible_meaningful]
      cases hshows : showsToken (visibleLines text.toList) with
      | true =>
        rw [raiseIf_true]
        exact ⟨fun _ => .inl rfl, fun _ => ⟨_, _, rfl⟩⟩
      | false =>
        rw [raiseIf_false]
        simp only [Bool.false_eq_true, false_or]
        exact ih

/-- If a listed file selects a helper the scan raises, exactly if none does, or some file
selects one with no `#` in front of it, or a file that only selects behind a `#` shows a
token all the same. -/
theorem gitattributes_rejected_iff (hreads : ReadsFiles A texts) {files : List Path}
    (hlisted : (gitattributes_files root).run (machine A) () s = (.ok files, u)) :
    ((∃ p ∈ files, ∃ text, texts p = some text ∧ Selecting text.toList) → ∃ message v,
      (assert_no_executable_gitattributes root).run (machine A) () s =
        (.error (.PermissionError message), v)) ↔
      (∀ p ∈ files, ∀ text, texts p = some text → ¬ Selecting text.toList) ∨
        (∃ p ∈ files, ∃ text, texts p = some text ∧ SelectsOpenly text.toList) ∨
          ∃ p ∈ files, ∃ text, texts p = some text ∧ ¬ SelectsOpenly text.toList ∧
            showsToken (visibleLines text.toList) = true := by
  unfold assert_no_executable_gitattributes
  rw [run_seq _ _ hlisted, check_attr_files_run hreads]
  constructor
  · intro h
    by_cases hselecting : ∃ p ∈ files, ∃ text, texts p = some text ∧ Selecting text.toList
    · obtain ⟨p, hp, text, htext, hshown⟩ := h hselecting
      by_cases hopen : SelectsOpenly text.toList
      · exact .inr (.inl ⟨p, hp, text, htext, hopen⟩)
      · exact .inr (.inr ⟨p, hp, text, htext, hopen, hshown⟩)
    · exact .inl fun p hp text htext hsel => hselecting ⟨p, hp, text, htext, hsel⟩
  · rintro (hnone | ⟨p, hp, text, htext, hopen⟩ | ⟨p, hp, text, htext, _, hshown⟩) hselecting
    · obtain ⟨p, hp, text, htext, hsel⟩ := hselecting
      exact (hnone p hp text htext hsel).elim
    · exact ⟨p, hp, text, htext, hopen.shows⟩
    · exact ⟨p, hp, text, htext, hshown⟩

/-- The scan raises whenever a listed file selects a helper. -/
def RejectsSelections : Prop :=
  ∀ (σ : Type) (A : Answers σ) (texts : Path → Option String), ReadsFiles A texts →
    ∀ (s u : Session σ) root files,
      (gitattributes_files root).run (machine A) () s = (.ok files, u) →
        (∃ p ∈ files, ∃ text, texts p = some text ∧ Selecting text.toList) →
          ∃ message v, (assert_no_executable_gitattributes root).run (machine A) () s =
            (.error (.PermissionError message), v)

end Scanning

section Sample

/-- A host with one listed file of attributes. -/
def attributed (text : String) : Answers Unit where
  answer
    | .command _ _, _ => (.exited 0 (some ".gitattributes\x00") (some ""), ())
    | .read_text p, _ =>
      (if p = "/w/app/.gitattributes" then some (translated text) else none, ())
    | op, u => (obliging "" none).answer op u

def attributesOf (text : String) (p : Path) : Option String :=
  if p = "/w/app/.gitattributes" then some text else none

theorem attributed_reads (text : String) : ReadsFiles (attributed text) (attributesOf text) := by
  intro p v
  change (if p = "/w/app/.gitattributes" then some (translated text) else none) = _
  unfold attributesOf
  split <;> rfl

theorem attributed_files (text : String) : (gitattributes_files "/w/app").run
    (machine (attributed text)) () idle = (.ok ["/w/app/.gitattributes"], idle) := rfl

theorem gitattributes_rejected_iff_plain :
    ((∃ p ∈ ["/w/app/.gitattributes"], ∃ text,
        attributesOf "# media\n*.psd filter=lfs -text\n" p = some text ∧
          Selecting text.toList) →
      ∃ message v, (assert_no_executable_gitattributes "/w/app").run
          (machine (attributed "# media\n*.psd filter=lfs -text\n")) () idle =
        (.error (.PermissionError message), v)) ↔
      (∀ p ∈ ["/w/app/.gitattributes"], ∀ text,
        attributesOf "# media\n*.psd filter=lfs -text\n" p = some text →
          ¬ Selecting text.toList) ∨
        (∃ p ∈ ["/w/app/.gitattributes"], ∃ text,
          attributesOf "# media\n*.psd filter=lfs -text\n" p = some text ∧
            SelectsOpenly text.toList) ∨
          ∃ p ∈ ["/w/app/.gitattributes"], ∃ text,
            attributesOf "# media\n*.psd filter=lfs -text\n" p = some text ∧
              ¬ SelectsOpenly text.toList ∧ showsToken (visibleLines text.toList) = true :=
  gitattributes_rejected_iff (attributed_reads _) (attributed_files _)

/-- The second line selects in the open. -/
example : SelectsOpenly "# media\n*.psd filter=lfs -text\n".toList :=
  ⟨"*.psd filter=lfs -text".toList, by decide +kernel, "filter=lfs".toList, by decide +kernel,
    by decide, "*.psd ".toList, " -text".toList, by decide, by decide⟩

/-- A pattern with `#` hides the filter that its line selects. -/
theorem hash_hides_filter : ¬ RejectsSelections := by
  intro h
  have hselecting : Selecting "foo#bar filter=x\n".toList :=
    ⟨"foo#bar filter=x".toList, by decide +kernel, "filter=x".toList, by decide +kernel, by decide⟩
  obtain ⟨message, v, hrun⟩ := h Unit _ _ (attributed_reads "foo#bar filter=x\n") idle idle "/w/app"
    _ (attributed_files _) ⟨_, List.mem_singleton_self _, _, rfl, hselecting⟩
  have hpass : ((assert_no_executable_gitattributes "/w/app").run
      (machine (attributed "foo#bar filter=x\n")) () idle).1.toBool = true := by decide +kernel
  rw [hrun] at hpass
  cases hpass

end Sample

end jvc.git
