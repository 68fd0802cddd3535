import Mathlib.Data.List.Basic

namespace lines

/-- Universal newlines: a carriage return, with the line feed behind it if there
is one, becomes a line feed. `cr` says that a carriage return was read last. -/
def translateFrom : Bool → List Char → List Char
  | _, [] => []
  | cr, c :: cs =>
    if c = '\r' then '\n' :: translateFrom true cs
    else if cr ∧ c = '\n' then translateFrom false cs
    else c :: translateFrom false cs

def translate (cs : List Char) : List Char := translateFrom false cs

def isBreak (c : Char) : Bool :=
  c == '\n' || c == '\r' || c == '\x0b' || c == '\x0c' || c == '\x1c' || c == '\x1d' ||
    c == '\x1e' || c == '\u0085' || c == '\u2028' || c == '\u2029'

/-- `str.splitlines()`, with the line collected so far. -/
def splitFrom : Bool → List Char → List Char → List (List Char)
  | _, line, [] => if line = [] then [] else [line]
  | cr, line, c :: cs =>
    if cr ∧ c = '\n' then splitFrom false line cs
    else if isBreak c then line :: splitFrom (c == '\r') [] cs
    else splitFrom false (line ++ [c]) cs

def splitlines (cs : List Char) : List (List Char) := splitFrom false [] cs

/-- The non-empty records of a text in which NUL ends each of them. -/
def records (cs : List Char) : List (List Char) := (cs.splitOn '\x00').filter (· ≠ [])

/-- A list of records as text. -/
def printed (rs : List (List Char)) : List Char := rs.flatMap fun r => r ++ ['\x00']

theorem none_of_any {p : Char → Bool} {cs : List Char} (h : cs.any p = false) :
    ∀ c ∈ cs, p c = false :=
  fun c hc => Bool.eq_false_iff.mpr (List.any_eq_false.mp h c hc)

theorem forall_of_all {P : Char → Prop} [DecidablePred P] {cs : List Char}
    (h : cs.all (fun c => decide (P c)) = true) : ∀ c ∈ cs, P c :=
  fun c hc => of_decide_eq_true (List.all_eq_true.mp h c hc)

section Translate

/-- What stands behind a character that ends no line is read by itself. -/
theorem translateFrom_append_cons (cr : Bool) (as bs : List Char) {c : Char} (hcr : c ≠ '\r')
    (hline : c ≠ '\n') :
    translateFrom cr (as ++ c :: bs) = translateFrom cr as ++ c :: translate bs := by
  induction as generalizing cr with
  | nil => simp [translateFrom, translate, hcr, hline]
  | cons a as ih =>
    simp only [List.cons_append, translateFrom]
    split
    · rw [ih, List.cons_append]
    · split
      · rw [ih]
      · rw [ih, List.cons_append]

theorem translate_printed (rs : List (List Char)) :
    translate (printed rs) = printed (rs.map translate) := by
  induction rs with
  | nil => rfl
  | cons r rs ih =>
    simp only [printed, List.flatMap_cons, List.map_cons, List.append_assoc, List.singleton_append]
      at ih ⊢
    rw [translate, translateFrom_append_cons _ _ _ (by decide) (by decide), ih]
    rfl

theorem translateFrom_eq_self {cs : List Char} (h : '\r' ∉ cs) : translateFrom false cs = cs := by
  induction cs with
  | nil => rfl
  | cons c cs ih =>
    rw [List.mem_cons, not_or] at h
    rw [translateFrom, if_neg (Ne.symm h.1), if_neg (by simp), ih h.2]

/-- A text without carriage returns stays in front of what follows it. -/
theorem translate_append {as bs : List Char} (h : '\r' ∉ as) :
    translate (as ++ bs) = as ++ translate bs := by
  induction as with
  | nil => rfl
  | cons a as ih =>
    rw [List.mem_cons, not_or] at h
    rw [translate, List.cons_append, translateFrom, if_neg (Ne.symm h.1), if_neg (by simp)]
    exact congrArg (a :: ·) (ih h.2)

theorem translate_eq_self {cs : List Char} (h : '\r' ∉ cs) : translate cs = cs :=
  translateFrom_eq_self h

/-- A text with a carriage return has a line feed once it is translated. -/
theorem mem_translateFrom {cs : List Char} (cr : Bool) (h : '\r' ∈ cs) :
    '\n' ∈ translateFrom cr cs := by
  induction cs generalizing cr with
  | nil => cases h
  | cons c cs ih =>
    rw [translateFrom]
    split
    · exact List.mem_cons_self
    · rename_i hc
      have hrest : '\r' ∈ cs := by
        rcases List.mem_cons.mp h with h | h
        · exact absurd h.symm hc
        · exact h
      split
      · exact ih false hrest
      · exact List.mem_cons_of_mem _ (ih false hrest)

theorem not_mem_of_translate {cs : List Char} (h : '\n' ∉ translate cs) : '\r' ∉ cs :=
  fun hcr => h (mem_translateFrom false hcr)

theorem nul_not_mem_translateFrom {cs : List Char} (cr : Bool) (h : '\x00' ∉ cs) :
    '\x00' ∉ translateFrom cr cs := by
  induction cs generalizing cr with
  | nil => simp [translateFrom]
  | cons c cs ih =>
    rw [List.mem_cons, not_or] at h
    rw [translateFrom]
    split
    · simpa using ih true h.2
    · split
      · exact ih false h.2
      · rw [List.mem_cons, not_or]
        exact ⟨h.1, ih false h.2⟩

theorem translate_ne_nil {cs : List Char} (h : cs ≠ []) : translate cs ≠ [] := by
  cases cs with
  | nil => exact absurd rfl h
  | cons c cs =>
    rw [translate, translateFrom]
    split
    · simp
    · simp

end Translate

section Split

/-- Reading a text with universal newlines keeps its lines. -/
theorem splitFrom_translateFrom (cr : Bool) (line cs : List Char) :
    splitFrom false line (translateFrom cr cs) = splitFrom cr line cs := by
  induction cs generalizing cr line with
  | nil => rfl
  | cons c cs ih =>
    rw [translateFrom, splitFrom]
    by_cases hcr : c = '\r'
    · subst hcr
      rw [if_pos rfl, if_neg (by simp), if_pos (by decide), splitFrom, if_neg (by simp),
        if_pos (by decide)]
      exact congrArg (line :: ·) (ih true [])
    · rw [if_neg hcr]
      by_cases hskip : cr ∧ c = '\n'
      · rw [if_pos hskip, if_pos hskip]
        exact ih false line
      · rw [if_neg hskip, if_neg hskip, splitFrom, if_neg (by simp)]
        have hlast : (c == '\r') = false := by simpa using hcr
        split
        · rw [hlast]
          exact congrArg (line :: ·) (ih false [])
        · exact ih false _

theorem splitlines_translate (cs : List Char) : splitlines (translate cs) = splitlines cs :=
  splitFrom_translateFrom false [] cs

/-- The lines that a text finishes, and the line it leaves open; the flag says that a
carriage return was read last. -/
def cutFrom : Bool → List Char → List Char → List (List Char) × Bool × List Char
  | cr, line, [] => ([], cr, line)
  | cr, line, c :: cs =>
    if cr ∧ c = '\n' then cutFrom false line cs
    else if isBreak c then
      (line :: (cutFrom (c == '\r') [] cs).1, (cutFrom (c == '\r') [] cs).2)
    else cutFrom false (line ++ [c]) cs

def finished (cs : List Char) : List (List Char) := (cutFrom false [] cs).1

def openLine (cs : List Char) : List Char := (cutFrom false [] cs).2.2

theorem splitFrom_append (cr : Bool) (line as bs : List Char) :
    splitFrom cr line (as ++ bs) = (cutFrom cr line as).1 ++
      splitFrom (cutFrom cr line as).2.1 (cutFrom cr line as).2.2 bs := by
  induction as generalizing cr line with
  | nil => rfl
  | cons c as ih =>
    rw [List.cons_append, splitFrom, cutFrom]
    split
    · exact ih false line
    · split
      · rw [ih, List.cons_append]
      · exact ih false _

/-- A text without line breaks, up to the next line feed. -/
theorem splitFrom_solid {cs : List Char} (h : ∀ c ∈ cs, isBreak c = false) (hne : cs ≠ [])
    (cr : Bool) (line rest : List Char) :
    splitFrom cr line (cs ++ '\n' :: rest) = (line ++ cs) :: splitFrom false [] rest := by
  induction cs generalizing cr line with
  | nil => exact absurd rfl hne
  | cons c cs ih =>
    have hc := h c List.mem_cons_self
    have hline : ¬ (cr = true ∧ c = '\n') := by
      rintro ⟨-, rfl⟩
      exact absurd hc (by decide)
    rw [List.cons_append, splitFrom, if_neg hline, if_neg (by simp [hc])]
    by_cases hcs : cs = []
    · subst hcs
      rw [List.nil_append, splitFrom, if_neg (by simp), if_pos (by decide)]
      rfl
    · rw [ih (fun d hd => h d (List.mem_cons_of_mem c hd)) hcs, List.append_assoc,
        List.singleton_append]

/-- After a carriage return the open line is empty. -/
theorem cutFrom_return {cr : Bool} {line cs : List Char} (h : cr = true → line = [])
    (hcut : (cutFrom cr line cs).2.1 = true) : (cutFrom cr line cs).2.2 = [] := by
  induction cs generalizing cr line with
  | nil => exact h hcut
  | cons c cs ih =>
    rw [cutFrom] at hcut ⊢
    split
    · rename_i hskip
      rw [if_pos hskip] at hcut
      exact ih (by simp) hcut
    · rename_i hskip
      rw [if_neg hskip] at hcut
      split
      · rename_i hbreak
        rw [if_pos hbreak] at hcut
        exact ih (fun _ => rfl) hcut
      · rename_i hbreak
        rw [if_neg hbreak] at hcut
        exact ih (by simp) hcut

/-- The lines of a text that ends in a line feed, then those of what follows it. -/
theorem splitlines_append_line (cs rest : List Char) :
    splitlines (cs ++ '\n' :: rest) = splitlines (cs ++ ['\n']) ++ splitlines rest := by
  have hreturn : (cutFrom false [] cs).2.1 = true → (cutFrom false [] cs).2.2 = [] :=
    cutFrom_return (by simp)
  unfold splitlines
  rw [splitFrom_append, splitFrom_append, List.append_assoc]
  refine congrArg (_ ++ ·) ?_
  cases hcr : (cutFrom false [] cs).2.1 with
  | true =>
    rw [hreturn hcr]
    rfl
  | false => rfl

/-- The line that is open goes on. -/
theorem splitFrom_starts {line : List Char} (hne : line ≠ []) (cs : List Char) :
    ∃ more rest, splitFrom false line cs = (line ++ more) :: rest := by
  induction cs generalizing line with
  | nil => exact ⟨[], [], by rw [splitFrom, if_neg hne, List.append_nil]⟩
  | cons c cs ih =>
    rw [splitFrom, if_neg (by simp)]
    split
    · exact ⟨[], _, by rw [List.append_nil]⟩
    · obtain ⟨more, rest, h⟩ := ih (List.append_ne_nil_of_right_ne_nil line (List.cons_ne_nil c []))
      exact ⟨c :: more, rest, by rw [h, List.append_assoc, List.singleton_append]⟩

theorem splitFrom_append_solid {cs : List Char} (h : ∀ c ∈ cs, isBreak c = false) (hne : cs ≠ [])
    (cr : Bool) (line rest : List Char) :
    splitFrom cr line (cs ++ rest) = splitFrom false (line ++ cs) rest := by
  induction cs generalizing cr line with
  | nil => exact absurd rfl hne
  | cons c cs ih =>
    have hc := h c List.mem_cons_self
    have hline : ¬ (cr = true ∧ c = '\n') := by
      rintro ⟨-, rfl⟩
      exact absurd hc (by decide)
    rw [List.cons_append, splitFrom, if_neg hline, if_neg (by simp [hc])]
    by_cases hcs : cs = []
    · subst hcs
      rfl
    · rw [ih (fun d hd => h d (List.mem_cons_of_mem c hd)) hcs, List.append_assoc,
        List.singleton_append]

/-- A text without line breaks stands in the line that is open in front of it. -/
theorem splitlines_append_solid {cs mid : List Char} (h : ∀ c ∈ mid, isBreak c = false)
    (hne : mid ≠ []) (rest : List Char) :
    ∃ more, openLine cs ++ mid ++ more ∈ splitlines (cs ++ (mid ++ rest)) := by
  obtain ⟨more, later, hlines⟩ := splitFrom_starts
    (List.append_ne_nil_of_right_ne_nil (openLine cs) hne) rest
  refine ⟨more, ?_⟩
  rw [splitlines, splitFrom_append, splitFrom_append_solid h hne]
  refine List.mem_append_right _ ?_
  change _ ∈ splitFrom false (openLine cs ++ mid) rest
  rw [hlines]
  exact List.mem_cons_self

theorem cutFrom_append (cr : Bool) (line as bs : List Char) :
    (cutFrom cr line (as ++ bs)).2 =
      (cutFrom (cutFrom cr line as).2.1 (cutFrom cr line as).2.2 bs).2 := by
  induction as generalizing cr line with
  | nil => rfl
  | cons c as ih =>
    rw [List.cons_append, cutFrom, cutFrom]
    split
    · exact ih false line
    · split
      · exact ih (c == '\r') []
      · exact ih false _

/-- What a line feed ends is no part of the open line. -/
theorem openLine_append_line (cs rest : List Char) :
    openLine (cs ++ '\n' :: rest) = openLine rest := by
  have hreturn : (cutFrom false [] cs).2.1 = true → (cutFrom false [] cs).2.2 = [] :=
    cutFrom_return (by simp)
  rw [openLine, cutFrom_append]
  cases hcr : (cutFrom false [] cs).2.1 with
  | true =>
    rw [hreturn hcr]
    rfl
  | false => rfl

/-- A text, then more without line breaks up to a line feed. -/
theorem splitlines_append {tail : List Char} (h : ∀ c ∈ tail, isBreak c = false) (hne : tail ≠ [])
    (cs rest : List Char) : splitlines (cs ++ (tail ++ '\n' :: rest)) =
      finished cs ++ (openLine cs ++ tail) :: splitlines rest := by
  rw [splitlines, splitFrom_append, splitFrom_solid h hne]
  rfl

end Split

/-- Records that are read back are those that were printed. -/
theorem records_printed {rs : List (List Char)} (h : ∀ r ∈ rs, r ≠ [] ∧ '\x00' ∉ r) :
    records (printed rs) = rs := by
  induction rs with
  | nil => rfl
  | cons r rs ih =>
    obtain ⟨hne, hnul⟩ := h r List.mem_cons_self
    have hrest := ih fun x hx => h x (List.mem_cons_of_mem _ hx)
    have hsplit : (printed (r :: rs)).splitOn '\x00' = r :: (printed rs).splitOn '\x00' := by
      have hfirst : ∀ x ∈ r, (x == '\x00') = false := by
        intro x hx
        rw [beq_eq_false_iff_ne]
        rintro rfl
        exact hnul hx
      simp only [printed, List.flatMap_cons, List.append_assoc, List.singleton_append,
        List.splitOn_eq_splitOnP]
      exact List.splitOnP_append_cons_of_forall_mem hfirst '\x00' (by simp) _
    rw [records, hsplit, List.filter_cons_of_pos (by simpa using hne)]
    exact congrArg (r :: ·) hrest

/-- A line of a text stands at its start or behind a line feed, where the open line
begins anew. -/
theorem intercalate_line {ls : List (List Char)} {line : List Char} (h : line ∈ ls) :
    ∃ front back, ['\n'].intercalate ls = front ++ (line ++ back) ∧ ∀ rest,
      openLine (front ++ rest) = openLine rest := by
  induction ls with
  | nil => cases h
  | cons l ls ih =>
    by_cases hls : ls = []
    · subst hls
      rw [List.mem_singleton] at h
      subst h
      exact ⟨[], [], by simp, fun _ => rfl⟩
    · rw [List.intercalate_cons_of_ne_nil hls, List.append_assoc]
      rcases List.mem_cons.mp h with rfl | h
      · exact ⟨[], _, rfl, fun _ => rfl⟩
      · obtain ⟨front, back, hsplit, hopen⟩ := ih h
        refine ⟨l ++ '\n' :: front, back, by simp [hsplit], fun rest => ?_⟩
        rw [List.append_assoc, List.cons_append, openLine_append_line, hopen]

theorem splitOn_line {cs line : List Char} (h : line ∈ cs.splitOn '\n') :
    ∃ front back, cs = front ++ (line ++ back) ∧ ∀ rest,
      openLine (front ++ rest) = openLine rest := by
  obtain ⟨front, back, hsplit, hopen⟩ := intercalate_line h
  rw [List.intercalate_splitOn] at hsplit
  exact ⟨front, back, hsplit, hopen⟩

/-- A part of a split text has characters of the text, but not the separator. -/
theorem mem_splitOn {sep : Char} {cs part : List Char} (h : part ∈ cs.splitOn sep) {c : Char}
    (hc : c ∈ part) : c ∈ cs ∧ c ≠ sep := by
  induction cs generalizing part with
  | nil =>
    rw [List.splitOn_nil, List.mem_singleton] at h
    subst h
    cases hc
  | cons a cs ih =>
    rw [List.splitOn_cons_eq_if_modifyHead] at h
    split at h
    · rcases List.mem_cons.mp h with rfl | h
      · cases hc
      · exact ⟨List.mem_cons_of_mem a (ih h hc).1, (ih h hc).2⟩
    · rename_i ha
      obtain ⟨first, rest, hsplit⟩ := List.exists_cons_of_ne_nil (List.splitOn_ne_nil sep cs)
      rw [hsplit, List.modifyHead_cons] at h
      rcases List.mem_cons.mp h with rfl | h
      · rcases List.mem_cons.mp hc with rfl | hc
        · exact ⟨List.mem_cons_self, by simpa using ha⟩
        · have hfirst := ih (hsplit ▸ List.mem_cons_self) hc
          exact ⟨List.mem_cons_of_mem a hfirst.1, hfirst.2⟩
      · have hrest := ih (hsplit ▸ List.mem_cons_of_mem first h) hc
        exact ⟨List.mem_cons_of_mem a hrest.1, hrest.2⟩

end lines
