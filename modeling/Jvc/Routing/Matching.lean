import Jvc.Routing.Agreement

open tokens

namespace jvc.routing

section Search

/-- What stands before a match is empty, where the text begins there, or ends in a space. -/
def Open (edge : Bool) (front : List Char) : Prop :=
  (front.getLast?.map isSpace).getD edge = true

theorem open_cons {edge : Bool} {c : Char} {front : List Char} :
    Open edge (c :: front) ↔ Open (isSpace c) front := by
  cases front with
  | nil => exact Iff.rfl
  | cons d front =>
    rw [Open, Open, List.getLast?_cons_cons, List.getLast?_eq_some_getLast (List.cons_ne_nil d front)]
    exact Iff.rfl

/-- The search finds the alias where it stands with a space or an end of the text on each side. -/
theorem found_iff {al text : List Char} {edge : Bool} : found al edge text = true ↔
    ∃ front back, text = front ++ al ++ back ∧ Open edge front ∧ back.head?.all isSpace = true := by
  have hcloses : ∀ text, closes al text = true ↔
      ∃ back, text = al ++ back ∧ back.head?.all isSpace = true := by
    intro text
    rw [closes, Bool.and_eq_true, List.isPrefixOf_iff_prefix]
    constructor
    · rintro ⟨⟨back, rfl⟩, hback⟩
      rw [List.drop_left] at hback
      exact ⟨back, rfl, hback⟩
    · rintro ⟨back, rfl, hback⟩
      rw [List.drop_left]
      exact ⟨List.prefix_append _ _, hback⟩
  induction text generalizing edge with
  | nil =>
    rw [found, Bool.and_eq_true, hcloses]
    constructor
    · rintro ⟨hedge, back, heq, hback⟩
      exact ⟨[], back, heq, hedge, hback⟩
    · rintro ⟨front, back, heq, hopen, hback⟩
      have hnil : front = [] ∧ al ++ back = [] := by
        rw [List.append_assoc] at heq
        exact List.append_eq_nil_iff.mp heq.symm
      obtain ⟨rfl, hrest⟩ := hnil
      exact ⟨hopen, back, hrest.symm, hback⟩
  | cons c text ih =>
    have hrest : found al (isSpace c) text = true ↔ ∃ front back, text = front ++ al ++ back ∧
        Open (isSpace c) front ∧ back.head?.all isSpace = true := ih
    rw [found, Bool.or_eq_true, Bool.and_eq_true, hcloses, hrest]
    constructor
    · rintro (⟨hedge, back, heq, hback⟩ | ⟨front, back, heq, hopen, hback⟩)
      · exact ⟨[], back, heq, hedge, hback⟩
      · exact ⟨c :: front, back, by rw [heq]; rfl, open_cons.mpr hopen, hback⟩
    · rintro ⟨front, back, heq, hopen, hback⟩
      cases front with
      | nil => exact .inl ⟨hopen, back, heq, hback⟩
      | cons d front =>
        rw [List.cons_append, List.cons_append, List.cons.injEq] at heq
        obtain ⟨rfl, heq⟩ := heq
        exact .inr ⟨front, back, heq, open_cons.mp hopen, hback⟩

end Search

section Markers

variable [Lexis]

/-- A character of a word stands next to one that is none, or to an end of the text. -/
def Bounded (front word back : List Char) : Prop :=
  boundary front.getLast? (word ++ back).head? = true ∧ boundary word.getLast? back.head? = true

/-- The letters of a word, in any case. -/
def Spelled (word : List Char) (marker : String) : Prop :=
  List.Forall₂ (fun a b => Lexis.sameLetter a b = true) word marker.toList

/-- A word or a sign of several projects occurs in a text. -/
def Marked (text : List Char) : Prop :=
  ∃ front mark back, text = front ++ mark ++ back ∧
    ((∃ marker ∈ MULTI_WORDS, Spelled mark marker) ∧ Bounded front mark back ∨
      mark = ['+'] ∨ mark = ['/'] ∨ mark = ['&'])

theorem marker_here_iff {before : Option Char} {text : List Char} :
    marker_here before text = true ↔ ∃ mark back, text = mark ++ back ∧
      ((∃ marker ∈ MULTI_WORDS, Spelled mark marker) ∧
          boundary before text.head? = true ∧ boundary mark.getLast? back.head? = true ∨
        mark = ['+'] ∨ mark = ['/'] ∨ mark = ['&']) := by
  rw [marker_here, Bool.or_eq_true, List.any_eq_true]
  constructor
  · rintro (⟨word, hword, hmatch⟩ | hsign)
    · simp only [Bool.and_eq_true, beq_iff_eq] at hmatch
      obtain ⟨⟨⟨hlength, hletters⟩, hbefore⟩, hbehind⟩ := hmatch
      refine ⟨text.take word.length, text.drop word.length, (List.take_append_drop _ _).symm,
        .inl ⟨⟨word, hword, ?_⟩, hbefore, hbehind⟩⟩
      rw [Spelled, List.forall₂_iff_zip]
      refine ⟨by rw [hlength, String.length_toList], fun hpair => ?_⟩
      exact List.all_eq_true.mp hletters (_, _) hpair
    · cases text with
      | nil => cases hsign
      | cons c text =>
        rw [List.head?_cons, Option.any_some, Bool.or_eq_true, Bool.or_eq_true, beq_iff_eq,
          beq_iff_eq, beq_iff_eq] at hsign
        refine ⟨[c], text, rfl, .inr ?_⟩
        rcases hsign with (rfl | rfl) | rfl
        · exact .inl rfl
        · exact .inr (.inl rfl)
        · exact .inr (.inr rfl)
  · rintro ⟨mark, back, rfl, ⟨⟨word, hword, hspelled⟩, hbefore, hbehind⟩ | hsign⟩
    · rw [Spelled, List.forall₂_iff_zip, String.length_toList] at hspelled
      obtain ⟨hlength, hletters⟩ := hspelled
      refine .inl ⟨word, hword, ?_⟩
      rw [← hlength]
      simp only [List.take_left, List.drop_left, Bool.and_eq_true, beq_iff_eq, List.all_eq_true]
      exact ⟨⟨⟨trivial, fun pair hpair => hletters hpair⟩, hbefore⟩, hbehind⟩
    · rcases hsign with rfl | rfl | rfl
      · exact .inr rfl
      · exact .inr rfl
      · exact .inr rfl

omit [Lexis] in
theorem last_cons (c : Char) (front : List Char) (before : Option Char) :
    (c :: front).getLast?.or before = front.getLast?.or (some c) := by
  cases front with
  | nil => rfl
  | cons d front =>
    rw [List.getLast?_cons_cons, List.getLast?_eq_some_getLast (List.cons_ne_nil d front)]
    rfl

/-- The search for a marker finds one where one occurs. -/
theorem multi_markers_iff {before : Option Char} {text : List Char} :
    multi_markers before text = true ↔ ∃ front rest, text = front ++ rest ∧
      marker_here (front.getLast?.or before) rest = true := by
  induction text generalizing before with
  | nil =>
    rw [multi_markers]
    constructor
    · intro h
      exact ⟨[], [], rfl, h⟩
    · rintro ⟨front, rest, heq, h⟩
      obtain ⟨rfl, rfl⟩ := List.append_eq_nil_iff.mp heq.symm
      exact h
  | cons c text ih =>
    rw [multi_markers, Bool.or_eq_true]
    constructor
    · rintro (h | h)
      · exact ⟨[], c :: text, rfl, h⟩
      · obtain ⟨front, rest, rfl, hrest⟩ := ih.mp h
        exact ⟨c :: front, rest, rfl, by rwa [last_cons]⟩
    · rintro ⟨front, rest, heq, h⟩
      cases front with
      | nil =>
        rw [List.nil_append] at heq
        rw [heq]
        exact .inl h
      | cons d front =>
        rw [List.cons_append, List.cons.injEq] at heq
        obtain ⟨rfl, rfl⟩ := heq
        rw [last_cons] at h
        exact .inr (ih.mpr ⟨front, rest, rfl, h⟩)

theorem marked_iff {text : List Char} : multi_markers none text = true ↔ Marked text := by
  rw [multi_markers_iff]
  constructor
  · rintro ⟨front, rest, rfl, h⟩
    obtain ⟨mark, back, rfl, hmark⟩ := marker_here_iff.mp h
    rw [Option.or_none] at hmark
    exact ⟨front, mark, back, (List.append_assoc _ _ _).symm, hmark⟩
  · rintro ⟨front, mark, back, rfl, hmark⟩
    refine ⟨front, mark ++ back, List.append_assoc _ _ _, marker_here_iff.mpr ⟨mark, back, rfl, ?_⟩⟩
    rw [Option.or_none]
    exact hmark

end Markers

section Matching

variable [Lexis]

/-- The words of an alias stand among those of the query, one after the other. -/
def Occurs (query al : String) : Prop := tokens_of al ≠ [] ∧ tokens_of al <:+: tokens_of query

/-- An alias of the route, or its id, occurs in the query. -/
def Named (query : String) (route : Route) : Prop :=
  ∃ al ∈ route.project_id :: route.aliases, Occurs query al

instance (query al : String) : Decidable (Occurs query al) := inferInstanceAs (Decidable (_ ∧ _))

instance (query : String) (route : Route) : Decidable (Named query route) :=
  inferInstanceAs (Decidable (∃ al ∈ _, _))

omit [Lexis] in
theorem isSpace_space : isSpace ' ' = true := by decide

/-- Whitespace of a normal form is its separator. -/
theorem space_of_mem {query : String} {c : Char} (hmem : c ∈ spaced ' ' (tokens_of query))
    (hspace : isSpace c = true) : c = ' ' := by
  rcases mem_spaced hmem with rfl | ⟨w, hw, hc⟩
  · rfl
  · have hid := (mem_words hw).2 c hc
    have hnot := not_isSpace_of_idChar hid
    rw [hspace] at hnot
    cases hnot

/-- The expression search is the comparison of words. -/
theorem alias_present_iff {query al : String} :
    alias_present (normalize query) al = true ↔ Occurs query al := by
  by_cases htokens : tokens_of al = []
  · have hempty : normalize al = "" := by
      rw [normalize_eq, htokens]
      rfl
    rw [alias_present, if_pos hempty]
    constructor
    · intro h
      cases h
    · intro h
      exact absurd htokens h.1
  have hne : normalize al ≠ "" := by
    intro h
    rw [normalize_eq, String.ofList_eq_empty_iff] at h
    exact htokens ((spaced_eq_nil fun w hw => (mem_tokens_of hw).1).mp h)
  rw [alias_present, if_neg hne, normalize_eq, normalize_eq, String.toList_ofList,
    String.toList_ofList, found_iff]
  have hinfix := @spaced_infix_iff Char _ ' ' (tokens_of al) (tokens_of query)
    (fun _ => mem_tokens_of) (fun _ => mem_tokens_of) htokens
  rw [Occurs, ← hinfix]
  constructor
  · rintro ⟨front, back, heq, hopen, hback⟩
    refine ⟨htokens, front, back, heq, ?_, ?_⟩
    · rcases List.eq_nil_or_concat front with rfl | ⟨init, c, rfl⟩
      · exact .inl rfl
      · rw [List.concat_eq_append] at heq hopen ⊢
        rw [Open, List.getLast?_concat] at hopen
        have hmem : c ∈ spaced ' ' (tokens_of query) := by
          rw [heq]
          simp
        rw [space_of_mem hmem hopen]
        exact .inr List.getLast?_concat
    · cases back with
      | nil => exact .inl rfl
      | cons c back =>
        have hmem : c ∈ spaced ' ' (tokens_of query) := by
          rw [heq]
          simp
        rw [space_of_mem hmem hback]
        exact .inr rfl
  · rintro ⟨-, front, back, heq, hfront, hback⟩
    refine ⟨front, back, heq, ?_, ?_⟩
    · rcases hfront with rfl | hlast
      · rfl
      · rw [Open, hlast]
        exact isSpace_space
    · rcases hback with rfl | hhead
      · rfl
      · rw [hhead]
        exact isSpace_space

theorem mem_matched_aliases {query al : String} {route : Route} :
    al ∈ matched_aliases query route ↔ al ∈ route.project_id :: route.aliases ∧ Occurs query al := by
  rw [matched_aliases, List.mem_filter, alias_present_iff, mem_all_aliases, List.mem_cons, or_comm]

theorem named_iff {query : String} {route : Route} :
    Named query route ↔ matched_aliases query route ≠ [] := by
  constructor
  · rintro ⟨al, hal⟩
    exact List.ne_nil_of_mem (mem_matched_aliases.mpr hal)
  · intro hne
    obtain ⟨al, hal⟩ := List.exists_mem_of_ne_nil _ hne
    exact ⟨al, mem_matched_aliases.mp hal⟩

theorem occurs_congr {query query' al : String} (h : normalize query = normalize query') :
    Occurs query al ↔ Occurs query' al := by
  rw [Occurs, Occurs, normalize_eq_iff.mp h]

/-- The routes with a name in the query. -/
def named_routes (query : String) (routes : List Route) : List Route :=
  routes.filter fun route => Named query route

theorem named_routes_congr {query query' : String} (routes : List Route)
    (h : normalize query = normalize query') :
    named_routes query routes = named_routes query' routes := by
  apply List.filter_congr
  intro route _
  have hnamed : Named query route ↔ Named query' route :=
    exists_congr fun al => and_congr_right fun _ => occurs_congr h
  exact decide_eq_decide.mpr hnamed

theorem matched_routes_eq (query : String) (routes : List Route) :
    matched_routes query routes =
      (named_routes query routes).map fun route => (route, matched_aliases query route) := by
  rw [matched_routes, named_routes, List.filter_map]
  congr 1
  apply List.filter_congr
  intro route _
  exact decide_eq_decide.mpr named_iff.symm

variable {Execution : Type} (disk : Disk) (load_execution : String → Execution)

/-- What a route that the query names gives to the report. -/
def payload_of (query : String) (route : Route) : Payload Execution :=
  route_payload disk load_execution route (matched_aliases query route)

/-- The report that the words of a query ask for. -/
structure Resolved (query : String) (routes : List Route) (report : Report Execution) : Prop where
  payloads : report.routes = (named_routes query routes).map (payload_of disk load_execution query)
  aliases : ∀ route al, al ∈ (payload_of disk load_execution query route).matched_aliases ↔
    al ∈ route.project_id :: route.aliases ∧ Occurs query al
  unknown : report.status = .UNKNOWN ↔ (named_routes query routes).length = 0
  routed : report.status = .ROUTED ↔ (named_routes query routes).length = 1
  multi_route : report.status = .MULTI_ROUTE ↔
    1 < (named_routes query routes).length ∧ Marked query.toList
  ambiguous : report.status = .AMBIGUOUS ↔
    1 < (named_routes query routes).length ∧ ¬ Marked query.toList

theorem resolve_query_payloads (query : String) (routes : List Route) :
    (resolve_query disk load_execution query routes).routes =
      (named_routes query routes).map (payload_of disk load_execution query) := by
  rw [resolve_query_routes, matched_routes_eq, List.map_map]
  rfl

/-- The status by the number of the routes that the query names. -/
theorem resolve_query_status (query : String) (routes : List Route) :
    (resolve_query disk load_execution query routes).status =
      if (named_routes query routes).length = 0 then .UNKNOWN
      else if (named_routes query routes).length = 1 then .ROUTED
      else if multi_markers none query.toList then .MULTI_ROUTE else .AMBIGUOUS := by
  have hlength : (matched_routes query routes).length = (named_routes query routes).length := by
    rw [matched_routes_eq, List.length_map]
  rw [← hlength, resolve_query]
  cases matched_routes query routes with
  | nil => rfl
  | cons first rest =>
    cases rest with
    | nil => rfl
    | cons second rest =>
      have hone : (first :: second :: rest).length ≠ 1 := by
        rw [List.length_cons, List.length_cons]
        omega
      have hzero : (first :: second :: rest).length ≠ 0 := Nat.succ_ne_zero _
      rw [if_neg hzero, if_neg hone]
      simp only
      split
      · rfl
      · rfl

theorem resolve_query_resolved (query : String) (routes : List Route) :
    Resolved disk load_execution query routes (resolve_query disk load_execution query routes) := by
  have hstatus := resolve_query_status disk load_execution query routes
  refine ⟨resolve_query_payloads disk load_execution query routes, ?_, ?_, ?_, ?_, ?_⟩
  · intro route al
    rw [payload_of, mem_payload_aliases]
    exact mem_matched_aliases
  all_goals
    rw [hstatus]
    by_cases hzero : (named_routes query routes).length = 0
    · rw [if_pos hzero]
      simp [hzero]
    by_cases hone : (named_routes query routes).length = 1
    · rw [if_neg hzero, if_pos hone]
      simp [hone]
    have hmany : 1 < (named_routes query routes).length := by omega
    rw [if_neg hzero, if_neg hone]
    by_cases hmarked : Marked query.toList
    · rw [if_pos (marked_iff.mpr hmarked)]
      simp [hzero, hone, hmany, hmarked]
    · rw [if_neg (mt marked_iff.mp hmarked)]
      simp [hzero, hone, hmany, hmarked]

end Matching

section Sample

attribute [local instance] asciiLexis

end Sample

end jvc.routing
