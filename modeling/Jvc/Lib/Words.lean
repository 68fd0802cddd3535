import Mathlib.Data.List.Basic

namespace tokens

variable {α : Type*} (letter : α → Bool)

/-- The run collected so far, as a word if there is one. -/
def flush (run : List α) : List (List α) := if run = [] then [] else [run]

/-- The words of a text whose current run of letters is already read. -/
def runs : List α → List α → List (List α)
  | run, [] => flush run
  | run, a :: l => if letter a then runs (run ++ [a]) l else flush run ++ runs [] l

/-- The maximal runs of letters of a text, in order. -/
def words (l : List α) : List (List α) := runs letter [] l

/-- Every run of other characters becomes one separator; `gap` says that the
current run has been written. -/
def squeeze (sep : α) : Bool → List α → List α
  | _, [] => []
  | gap, a :: l =>
    if letter a then a :: squeeze sep false l
    else if gap then squeeze sep true l else sep :: squeeze sep true l

/-- The words of a text, one separator between two of them. -/
def spaced (sep : α) (ws : List (List α)) : List α := [sep].intercalate ws

variable {letter}

@[simp] theorem flush_nil : flush ([] : List α) = [] := rfl

theorem flush_of_ne {run : List α} (h : run ≠ []) : flush run = [run] := if_neg h

theorem mem_flush {run w : List α} : w ∈ flush run ↔ w = run ∧ w ≠ [] := by
  by_cases h : run = []
  · subst h
    simp
  · rw [flush_of_ne h, List.mem_singleton]
    exact ⟨fun hw => ⟨hw, hw ▸ h⟩, fun hw => hw.1⟩

theorem mem_runs {run l w : List α} (hrun : ∀ a ∈ run, letter a = true)
    (h : w ∈ runs letter run l) : w ≠ [] ∧ ∀ a ∈ w, letter a = true := by
  induction l generalizing run with
  | nil =>
    obtain ⟨rfl, hne⟩ := mem_flush.mp h
    exact ⟨hne, hrun⟩
  | cons a l ih =>
    rw [runs] at h
    split at h
    · rename_i ha
      refine ih (fun b hb => ?_) h
      rcases List.mem_append.mp hb with hb | hb
      · exact hrun b hb
      · rwa [List.mem_singleton.mp hb]
    · rcases List.mem_append.mp h with h | h
      · obtain ⟨rfl, hne⟩ := mem_flush.mp h
        exact ⟨hne, hrun⟩
      · exact ih (by simp) h

theorem mem_words {l w : List α} (h : w ∈ words letter l) :
    w ≠ [] ∧ ∀ a ∈ w, letter a = true :=
  mem_runs (by simp) h

theorem runs_eq_nil {run l : List α} :
    runs letter run l = [] ↔ run = [] ∧ ∀ a ∈ l, letter a = false := by
  induction l generalizing run with
  | nil => simp [runs, flush]
  | cons a l ih =>
    by_cases ha : letter a = true
    · simp [runs, ha, ih]
    · simp [runs, ha, ih, flush]

/-- A text has no words exactly when it has no letters. -/
theorem words_eq_nil {l : List α} : words letter l = [] ↔ ∀ a ∈ l, letter a = false := by
  simp [words, runs_eq_nil]

theorem runs_squeeze {solid : α → Bool} {sep : α} (hsep : solid sep = false)
    (hsolid : ∀ a, letter a = true → solid a = true) {run l : List α}
    {gap : Bool} (hgap : gap = true → run = []) :
    runs solid run (squeeze letter sep gap l) = runs letter run l := by
  induction l generalizing run gap with
  | nil => rfl
  | cons a l ih =>
    by_cases ha : letter a = true
    · rw [squeeze, if_pos ha, runs, if_pos (hsolid a ha), runs, if_pos ha]
      exact ih (by simp)
    · rw [squeeze, if_neg ha, runs, if_neg ha]
      cases gap with
      | false =>
        rw [if_neg (by decide), runs, if_neg (by simp [hsep]), ih (fun _ => rfl)]
      | true =>
        rw [if_pos rfl, hgap rfl, ih (fun _ => rfl), flush_nil, List.nil_append]

/-- Splitting the squeezed text at its separators gives the words of the text. -/
theorem words_squeeze {solid : α → Bool} {sep : α} (hsep : solid sep = false)
    (hsolid : ∀ a, letter a = true → solid a = true) (l : List α) :
    words solid (squeeze letter sep false l) = words letter l :=
  runs_squeeze hsep hsolid (by simp)

theorem spaced_eq_nil {sep : α} {ws : List (List α)} (hws : ∀ w ∈ ws, w ≠ []) :
    spaced sep ws = [] ↔ ws = [] := by
  constructor
  · intro h
    cases ws with
    | nil => rfl
    | cons w rest =>
      have hw := hws w List.mem_cons_self
      cases rest with
      | nil => exact absurd (by simpa [spaced] using h) hw
      | cons v rest => simp [spaced, List.intercalate, List.intersperse] at h
  · rintro rfl
    rfl

/-- Words without the separator can be read back from their spaced form. -/
theorem spaced_injective [DecidableEq α] {sep : α} {ws vs : List (List α)}
    (hws : ∀ w ∈ ws, w ≠ [] ∧ sep ∉ w) (hvs : ∀ v ∈ vs, v ≠ [] ∧ sep ∉ v)
    (h : spaced sep ws = spaced sep vs) : ws = vs := by
  by_cases hw : ws = []
  · subst hw
    have hnil : spaced sep vs = [] := h.symm
    exact ((spaced_eq_nil fun v hv => (hvs v hv).1).mp hnil).symm
  · by_cases hv : vs = []
    · subst hv
      have hnil : spaced sep ws = [] := h
      exact (spaced_eq_nil fun w hw => (hws w hw).1).mp hnil
    · have hsplit := congrArg (List.splitOn sep) h
      rw [spaced, spaced, List.splitOn_intercalate sep (fun w hw => (hws w hw).2) hw,
        List.splitOn_intercalate sep (fun v hv => (hvs v hv).2) hv] at hsplit
      exact hsplit

/-- A text ends in the separator, or it is empty. -/
def EndsAt (sep : α) (text : List α) : Prop := text = [] ∨ text.getLast? = some sep

/-- A text begins with the separator, or it is empty. -/
def StartsAt (sep : α) (text : List α) : Prop := text = [] ∨ text.head? = some sep

theorem spaced_cons {sep : α} {w : List α} {ws : List (List α)} (h : ws ≠ []) :
    spaced sep (w :: ws) = w ++ sep :: spaced sep ws := by
  rw [spaced, List.intercalate_cons_of_ne_nil h, List.append_assoc]
  rfl

theorem spaced_append {sep : α} {ws vs : List (List α)} (hws : ws ≠ []) (hvs : vs ≠ []) :
    spaced sep (ws ++ vs) = spaced sep ws ++ sep :: spaced sep vs := by
  induction ws with
  | nil => exact absurd rfl hws
  | cons w ws ih =>
    cases ws with
    | nil =>
      rw [List.singleton_append, spaced_cons hvs]
      simp [spaced]
    | cons w' ws =>
      have hrest := ih (List.cons_ne_nil _ _)
      rw [List.cons_append, spaced_cons (by simp), spaced_cons (by simp), hrest]
      simp only [List.append_assoc, List.cons_append]

theorem splitOn_spaced [DecidableEq α] {sep : α} {ws : List (List α)}
    (hws : ∀ w ∈ ws, w ≠ [] ∧ sep ∉ w) (hne : ws ≠ []) : (spaced sep ws).splitOn sep = ws :=
  List.splitOn_intercalate sep (fun w hw => (hws w hw).2) hne

/-- The spaced form of some words stands between separators or ends in the spaced form of
others exactly when the words stand among the others one after the other. -/
theorem spaced_infix_iff [DecidableEq α] {sep : α} {ws vs : List (List α)}
    (hws : ∀ w ∈ ws, w ≠ [] ∧ sep ∉ w) (hvs : ∀ v ∈ vs, v ≠ [] ∧ sep ∉ v) (hne : ws ≠ []) :
    (∃ front back, spaced sep vs = front ++ spaced sep ws ++ back ∧ EndsAt sep front ∧
      StartsAt sep back) ↔ ws <:+: vs := by
  constructor
  · rintro ⟨front, back, heq, hfront, hback⟩
    have hvs_ne : vs ≠ [] := by
      rintro rfl
      have hnil : spaced sep ws = [] := by
        have hlen := congrArg List.length heq
        simp only [spaced, List.intercalate_nil, List.length_nil, List.length_append] at hlen
        exact List.length_eq_zero_iff.mp (by rw [spaced]; omega)
      exact hne ((spaced_eq_nil fun w hw => (hws w hw).1).mp hnil)
    -- What stands before the words, and behind them, splits on its own.
    have hright : ∀ text, (text ++ back).splitOn sep = text.splitOn sep ++ (back.drop 1).splitOn sep ∨
        text ++ back = text := by
      intro text
      rcases hback with rfl | hhead
      · exact .inr (List.append_nil _)
      · obtain ⟨rest, rfl⟩ := List.head?_eq_some_iff.mp hhead
        exact .inl (List.splitOn_append_cons_self text rest)
    have hleft : ∀ text, (front ++ text).splitOn sep = front.dropLast.splitOn sep ++ text.splitOn sep ∨
        front ++ text = text := by
      intro text
      rcases hfront with rfl | hlast
      · exact .inr rfl
      · obtain ⟨rest, rfl⟩ := List.getLast?_eq_some_iff.mp hlast
        rw [List.dropLast_concat, List.append_assoc, List.singleton_append]
        exact .inl (List.splitOn_append_cons_self rest text)
    have hsplit := splitOn_spaced hvs hvs_ne
    have hwords := splitOn_spaced hws hne
    rw [heq] at hsplit
    rcases hright (front ++ spaced sep ws) with hr | hr
    · rw [hr] at hsplit
      rcases hleft (spaced sep ws) with hl | hl
      · rw [hl, hwords] at hsplit
        exact ⟨_, _, hsplit⟩
      · rw [hl, hwords] at hsplit
        exact ⟨[], _, hsplit⟩
    · rw [hr] at hsplit
      rcases hleft (spaced sep ws) with hl | hl
      · rw [hl, hwords] at hsplit
        exact ⟨_, [], by rw [List.append_nil]; exact hsplit⟩
      · rw [hl, hwords] at hsplit
        exact ⟨[], [], by rw [List.append_nil]; exact hsplit⟩
  · rintro ⟨before, behind, rfl⟩
    have hback : ∃ back, spaced sep (ws ++ behind) = spaced sep ws ++ back ∧ StartsAt sep back := by
      by_cases hbehind : behind = []
      · subst hbehind
        exact ⟨[], by rw [List.append_nil, List.append_nil], .inl rfl⟩
      · exact ⟨sep :: spaced sep behind, spaced_append hne hbehind, .inr rfl⟩
    obtain ⟨back, hspaced, hstarts⟩ := hback
    by_cases hbefore : before = []
    · subst hbefore
      exact ⟨[], back, hspaced, .inl rfl, hstarts⟩
    · refine ⟨spaced sep before ++ [sep], back, ?_, .inr List.getLast?_concat, hstarts⟩
      rw [List.append_assoc, spaced_append hbefore (by simp [hne]), hspaced]
      simp only [List.append_assoc, List.cons_append, List.nil_append]

theorem mem_spaced {sep : α} {ws : List (List α)} {a : α} (h : a ∈ spaced sep ws) :
    a = sep ∨ ∃ w ∈ ws, a ∈ w := by
  induction ws with
  | nil => simp [spaced] at h
  | cons w ws ih =>
    by_cases hnil : ws = []
    · subst hnil
      exact .inr ⟨w, List.mem_cons_self, by simpa [spaced] using h⟩
    · rw [spaced_cons hnil, List.mem_append, List.mem_cons] at h
      rcases h with h | h | h
      · exact .inr ⟨w, List.mem_cons_self, h⟩
      · exact .inl h
      · rcases ih h with hsep | ⟨v, hv, hmem⟩
        · exact .inl hsep
        · exact .inr ⟨v, List.mem_cons_of_mem _ hv, hmem⟩

end tokens
