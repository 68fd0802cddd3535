import Jvc.Lib.Words
import Jvc.Routing.Registry

open tokens

namespace jvc.routing

variable [Lexis]

/-- Normalize query or alias text into single-spaced lowercase alphanumeric tokens. -/
def normalize (value : String) : String :=
  String.ofList (spaced ' ' (words (fun c => !isSpace c)
    (squeeze idChar ' ' false (Lexis.lower value).toList)))

/-- The text continues with the alias and then ends or has a space. -/
def closes (al text : List Char) : Bool :=
  al.isPrefixOf text && (text.drop al.length).head?.all isSpace

/-- `(?:^|\s)alias(?:$|\s)` on the rest of a text; `edge` says that the rest is
at the start or behind a space. -/
def found (al : List Char) : Bool → List Char → Bool
  | edge, [] => edge && closes al []
  | edge, c :: text => (edge && closes al (c :: text)) || found al (isSpace c) text

/-- True if normalized alias appears as a whole token sequence in query. -/
def alias_present (query al : String) : Bool :=
  if normalize al = "" then false else found (normalize al).toList true query.toList

def MULTI_WORDS : List String :=
  ["and", "both", "with", "between", "compare", "connect", "across"]

/-- `\b`, between two neighbouring characters or the ends of the text. -/
def boundary (before after : Option Char) : Bool :=
  before.any Lexis.isWord != after.any Lexis.isWord

/-- One of the words or signs of `MULTI_MARKERS` starts the rest of the text. -/
def marker_here (before : Option Char) (text : List Char) : Bool :=
  (MULTI_WORDS.any fun word =>
    let head := text.take word.length
    head.length == word.length &&
      (head.zip word.toList).all (fun (a, b) => Lexis.sameLetter a b) &&
      boundary before text.head? &&
      boundary head.getLast? (text.drop word.length).head?) ||
  text.head?.any fun c => c == '+' || c == '/' || c == '&'

/-- `MULTI_MARKERS.search`, on the rest of a text behind a character. -/
def multi_markers : Option Char → List Char → Bool
  | before, [] => marker_here before []
  | before, c :: text => marker_here before (c :: text) || multi_markers (some c) text

inductive Status
  | ROUTED
  | MULTI_ROUTE
  | AMBIGUOUS
  | UNKNOWN
  deriving DecidableEq, Repr

/-- Execution details and startup sequence for a matched route. -/
structure Payload (Execution : Type) where
  project_id : String
  root : String
  status : String
  matched_aliases : List String
  startup : List String
  handoff : String
  execution : Execution

structure Report (Execution : Type) where
  status : Status
  query : String
  routes : List (Payload Execution)
  message : String

/-- The order by `(-len(normalize(val)), val)`. -/
def longest_first (a b : String) : Bool :=
  if (normalize a).length = (normalize b).length then !(b < a)
  else (normalize b).length < (normalize a).length

variable {Execution : Type} (disk : Disk) (load_execution : String → Execution)

/-- `load_execution` reads the contract in the project's `AGENTS.md`. -/
def route_payload (route : Route) (matched : List String) : Payload Execution where
  project_id := route.project_id
  root := route.root
  status := route.status
  matched_aliases := matched.mergeSort longest_first
  startup := route.startup.map (disk.join route.root)
  handoff := route.handoff
  execution := load_execution route.root

/-- The aliases of a route, with the project id as an implicit alias. -/
def all_aliases (route : Route) : List String :=
  if route.project_id ∈ route.aliases then route.aliases
  else route.aliases ++ [route.project_id]

def matched_aliases (query : String) (route : Route) : List String :=
  (all_aliases route).filter (alias_present (normalize query))

/-- The routes with an alias in the query, with these aliases. -/
def matched_routes (query : String) (routes : List Route) : List (Route × List String) :=
  (routes.map fun route => (route, matched_aliases query route)).filter (·.2 ≠ [])

/-- Deterministically resolve a query against the registered routes. -/
def resolve_query (query : String) (routes : List Route) : Report Execution :=
  let matched := matched_routes query routes
  let payloads := matched.map fun (route, aliases) =>
    route_payload disk load_execution route aliases
  match matched with
  | [] =>
    { status := .UNKNOWN, query, routes := []
      message := "No registered project alias matched; load no project context." }
  | [_] =>
    { status := .ROUTED, query, routes := payloads
      message := "Read the returned root trio in order, then follow HANDOFF.md to the current stage. Load no unrelated context." }
  | _ =>
    if multi_markers none query.toList then
      { status := .MULTI_ROUTE, query, routes := payloads
        message := "Keep project contexts, authorities, and outputs separate." }
    else
      { status := .AMBIGUOUS, query, routes := payloads
        message := "Multiple projects matched without explicit multi-project intent; load no project context." }

/-- The words of an alias as the router compares them. -/
def tokens_of (value : String) : List (List Char) := words idChar (Lexis.lower value).toList

omit [Lexis] in
theorem not_isSpace_of_idChar {c : Char} (h : idChar c = true) : (!isSpace c) = true := by
  have hrange : (97 ≤ c.toNat ∧ c.toNat ≤ 122) ∨ (48 ≤ c.toNat ∧ c.toNat ≤ 57) := by
    simp only [idChar, Bool.or_eq_true, Bool.and_eq_true, decide_eq_true_eq] at h
    rcases h with ⟨hl, hu⟩ | ⟨hl, hu⟩
    · exact Or.inl ⟨hl, hu⟩
    · exact Or.inr ⟨hl, hu⟩
  simp [isSpace]
  omega

theorem normalize_eq (value : String) :
    normalize value = String.ofList (spaced ' ' (tokens_of value)) := by
  rw [normalize, words_squeeze (by decide) fun _ => not_isSpace_of_idChar]
  rfl

theorem mem_tokens_of {value : String} {w : List Char} (h : w ∈ tokens_of value) :
    w ≠ [] ∧ ' ' ∉ w := by
  obtain ⟨hne, hletter⟩ := mem_words h
  refine ⟨hne, fun hmem => ?_⟩
  exact absurd (hletter ' ' hmem) (by decide)

/-- Two names have one normal form exactly when they have the same words. -/
theorem normalize_eq_iff {a b : String} : normalize a = normalize b ↔ tokens_of a = tokens_of b := by
  rw [normalize_eq, normalize_eq]
  constructor
  · intro h
    exact spaced_injective (fun _ => mem_tokens_of) (fun _ => mem_tokens_of)
      (String.ofList_injective h)
  · intro h
    rw [h]

theorem normalize_eq_empty_iff {a : String} :
    normalize a = "" ↔ ∀ c ∈ (Lexis.lower a).toList, idChar c = false := by
  have hspaced : spaced ' ' (tokens_of a) = [] ↔ tokens_of a = [] :=
    spaced_eq_nil fun w hw => (mem_tokens_of hw).1
  rw [normalize_eq, String.ofList_eq_empty_iff, hspaced, tokens_of, words_eq_nil]

omit [Lexis] in
theorem matchId_plain {started : Bool} {l : List Char} (h : matchId started l = true) :
    ∀ c ∈ l, idChar c = true ∨ c = '-' := by
  induction l generalizing started with
  | nil => simp
  | cons c rest ih =>
    rw [matchId] at h
    split at h
    · rename_i hc
      exact List.forall_mem_cons.mpr ⟨Or.inl hc, ih h⟩
    · simp only [Bool.and_eq_true, beq_iff_eq] at h
      exact List.forall_mem_cons.mpr ⟨Or.inr h.1.2, ih h.2⟩

omit [Lexis] in
/-- The words of a project id are its groups: joined by '-' they give it back. -/
theorem spaced_runs_of_matchId {started : Bool} {run l : List Char}
    (h : matchId started l = true) (hrun : started = true ↔ run ≠ []) :
    spaced '-' (runs idChar run l) = run ++ l := by
  induction l generalizing started run with
  | nil =>
    have hne : run ≠ [] := hrun.mp h
    simp [runs, flush_of_ne hne, spaced]
  | cons c rest ih =>
    rw [matchId] at h
    by_cases hc : idChar c = true
    · rw [if_pos hc] at h
      rw [runs, if_pos hc, ih h (by simp), List.append_assoc, List.singleton_append]
    · rw [if_neg hc] at h
      simp only [Bool.and_eq_true, beq_iff_eq] at h
      obtain ⟨⟨hstarted, rfl⟩, hrest⟩ := h
      have hne : run ≠ [] := hrun.mp hstarted
      have htail : spaced '-' (runs idChar [] rest) = [] ++ rest := ih hrest (by simp)
      rw [List.nil_append] at htail
      rw [runs, if_neg hc, flush_of_ne hne]
      cases hruns : runs idChar [] rest with
      | nil =>
        rw [hruns] at htail
        rw [← htail] at hrest
        exact absurd hrest (by decide)
      | cons w ws =>
        rw [hruns] at htail
        rw [← htail]
        simp [spaced, List.intercalate]

theorem tokens_of_project_id {id : String} (h : matchId false id.toList = true) :
    tokens_of id = id.toList.splitOn '-' := by
  have hjoin : spaced '-' (words idChar id.toList) = id.toList :=
    spaced_runs_of_matchId h (by simp)
  have hne : words idChar id.toList ≠ [] := by
    intro hnil
    rw [hnil] at hjoin
    rw [← hjoin] at h
    exact absurd h (by decide)
  have hflat : ∀ w ∈ words idChar id.toList, '-' ∉ w := by
    intro w hw hmem
    exact absurd ((mem_words hw).2 '-' hmem) (by decide)
  have hsplit := List.splitOn_intercalate '-' hflat hne
  rw [tokens_of, Lexis.lower_plain id (matchId_plain h), ← hsplit]
  exact congrArg (List.splitOn '-') hjoin

/-- A project id always has a normal form, and no other id has the same one. -/
theorem tokens_of_project_id_inj {id id' : String} (h : matchId false id.toList = true)
    (h' : matchId false id'.toList = true) (heq : tokens_of id = tokens_of id') : id = id' := by
  rw [tokens_of_project_id h, tokens_of_project_id h'] at heq
  have hjoin := congrArg (List.intercalate ['-']) heq
  rw [List.intercalate_splitOn, List.intercalate_splitOn] at hjoin
  exact String.toList_injective hjoin

theorem normalize_project_id_ne {id : String} (h : matchId false id.toList = true) :
    normalize id ≠ "" := by
  rw [Ne, normalize_eq_empty_iff, Lexis.lower_plain id (matchId_plain h)]
  intro hnone
  cases hl : id.toList with
  | nil =>
    rw [hl] at h
    exact absurd h (by decide)
  | cons c rest =>
    rw [hl] at h hnone
    rw [matchId, if_neg (by simp [hnone c List.mem_cons_self])] at h
    simp at h

omit [Lexis] in
theorem found_self (al : List Char) : found al true al = true := by
  have hcloses : closes al al = true := by simp [closes]
  cases al with
  | nil => simp [found, hcloses]
  | cons c rest => simp [found, hcloses]

/-- A name is found in a query that has its normal form. -/
theorem alias_present_of_eq {query al : String} (hne : normalize al ≠ "")
    (heq : normalize query = normalize al) : alias_present (normalize query) al = true := by
  rw [alias_present, if_neg hne, heq]
  exact found_self _

end jvc.routing
