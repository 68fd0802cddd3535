import Jvc.Routing.Query

open tokens

namespace jvc.routing

variable [Lexis] {Execution : Type} (disk : Disk) (load_execution : String → Execution)

/-- The router can tell the projects of a registry apart by their names: every
name is matchable, no two projects share a normal form, and a query that is just
a name of one project matches other projects only through other names. -/
structure Agrees (routes : List Route) : Prop where
  matchable : ∀ r ∈ routes, ∀ a ∈ all_aliases r, normalize a ≠ ""
  distinct : ∀ r ∈ routes, ∀ r' ∈ routes, r ≠ r' →
    ∀ a ∈ all_aliases r, ∀ b ∈ all_aliases r', normalize a ≠ normalize b
  routed : ∀ r ∈ routes, ∀ a ∈ all_aliases r,
    (∃ p ∈ (resolve_query disk load_execution a routes).routes, p.project_id = r.project_id) ∧
    ∀ p ∈ (resolve_query disk load_execution a routes).routes, p.project_id ≠ r.project_id →
      ∀ b ∈ p.matched_aliases, normalize b ≠ normalize a

/-- The condition on the aliases under which that is so: each has a letter or a
digit, and their words are neither those of an alias nor the groups of the id of
another project. -/
structure SpelledApart (routes : List Route) : Prop where
  lettered : ∀ r ∈ routes, ∀ a ∈ r.aliases, ∃ c ∈ (Lexis.lower a).toList, idChar c = true
  aliases : ∀ r ∈ routes, ∀ r' ∈ routes, r ≠ r' →
    ∀ a ∈ r.aliases, ∀ b ∈ r'.aliases, tokens_of a ≠ tokens_of b
  ids : ∀ r ∈ routes, ∀ r' ∈ routes, r ≠ r' →
    ∀ a ∈ r.aliases, tokens_of a ≠ r'.project_id.toList.splitOn '-'

variable {disk load_execution} {routes : List Route}

omit [Lexis] in
theorem mem_all_aliases {r : Route} {a : String} :
    a ∈ all_aliases r ↔ a ∈ r.aliases ∨ a = r.project_id := by
  rw [all_aliases]
  split
  · rename_i hmem
    exact ⟨Or.inl, fun h => h.elim id fun heq => heq ▸ hmem⟩
  · simp

/-- The payloads of a report are those of the matched routes. -/
theorem resolve_query_routes (query : String) :
    (resolve_query disk load_execution query routes).routes =
      (matched_routes query routes).map fun m => route_payload disk load_execution m.1 m.2 := by
  rw [resolve_query]
  cases matched_routes query routes with
  | nil => rfl
  | cons m rest =>
    cases rest with
    | nil => rfl
    | cons m' rest =>
      simp only
      split
      · rfl
      · rfl

theorem mem_matched_routes {query : String} {r : Route} {matched : List String} :
    (r, matched) ∈ matched_routes query routes ↔
      r ∈ routes ∧ matched = matched_aliases query r ∧ matched ≠ [] := by
  simp only [matched_routes, List.mem_filter, List.mem_map, Prod.mk.injEq, decide_eq_true_eq]
  constructor
  · rintro ⟨⟨r', hr', rfl, rfl⟩, hne⟩
    exact ⟨hr', rfl, hne⟩
  · rintro ⟨hr, rfl, hne⟩
    exact ⟨⟨r, hr, rfl, rfl⟩, hne⟩

theorem mem_resolve_query {query : String} {p : Payload Execution} :
    p ∈ (resolve_query disk load_execution query routes).routes ↔
      ∃ r ∈ routes, matched_aliases query r ≠ [] ∧
        route_payload disk load_execution r (matched_aliases query r) = p := by
  rw [resolve_query_routes, List.mem_map]
  constructor
  · rintro ⟨⟨r, matched⟩, hm, rfl⟩
    obtain ⟨hr, rfl, hne⟩ := mem_matched_routes.mp hm
    exact ⟨r, hr, hne, rfl⟩
  · rintro ⟨r, hr, hne, rfl⟩
    exact ⟨(r, matched_aliases query r), mem_matched_routes.mpr ⟨hr, rfl, hne⟩, rfl⟩

theorem mem_payload_aliases {r : Route} {matched : List String} {b : String} :
    b ∈ (route_payload disk load_execution r matched).matched_aliases ↔ b ∈ matched := by
  simp [route_payload, List.mem_mergeSort]

variable {check_startup_files check_root_paths : Bool}

/-- Names of different projects have different words, where their aliases are
spelled apart. -/
theorem SpelledApart.tokens_ne
    (hpass : (validate disk routes check_startup_files check_root_paths).status = .PASS)
    (h : SpelledApart routes) {r r' : Route} (hr : r ∈ routes) (hr' : r' ∈ routes) (hne : r ≠ r')
    {a b : String} (ha : a ∈ all_aliases r) (hb : b ∈ all_aliases r') :
    tokens_of a ≠ tokens_of b := by
  have hm := validate_matched hpass hr
  have hm' := validate_matched hpass hr'
  rcases mem_all_aliases.mp ha with ha | rfl
  · rcases mem_all_aliases.mp hb with hb | rfl
    · exact h.aliases r hr r' hr' hne a ha b hb
    · rw [tokens_of_project_id hm']
      exact h.ids r hr r' hr' hne a ha
  · rcases mem_all_aliases.mp hb with hb | rfl
    · rw [tokens_of_project_id hm]
      exact (h.ids r' hr' r hr hne.symm b hb).symm
    · intro heq
      exact hne (validate_project_id_inj hpass hr hr' (tokens_of_project_id_inj hm hm' heq))

theorem SpelledApart.matchable
    (hpass : (validate disk routes check_startup_files check_root_paths).status = .PASS)
    (h : SpelledApart routes) {r : Route} (hr : r ∈ routes) {a : String}
    (ha : a ∈ all_aliases r) : normalize a ≠ "" := by
  rcases mem_all_aliases.mp ha with ha | rfl
  · obtain ⟨c, hc, hletter⟩ := h.lettered r hr a ha
    intro hempty
    rw [normalize_eq_empty_iff.mp hempty c hc] at hletter
    cases hletter
  · exact normalize_project_id_ne (validate_matched hpass hr)

/-- In a validated registry the router agrees with the validator exactly when
the aliases of different projects are spelled apart: the project ids take care
of themselves. -/
theorem validate_agrees_iff
    (hpass : (validate disk routes check_startup_files check_root_paths).status = .PASS) :
    Agrees disk load_execution routes ↔ SpelledApart routes := by
  constructor
  · intro h
    refine ⟨fun r hr a ha => ?_, fun r hr r' hr' hne a ha b hb heq => ?_,
      fun r hr r' hr' hne a ha heq => ?_⟩
    · have hname := h.matchable r hr a (mem_all_aliases.mpr (Or.inl ha))
      by_contra hnone
      push Not at hnone
      exact hname (normalize_eq_empty_iff.mpr fun c hc => by simpa using hnone c hc)
    · exact h.distinct r hr r' hr' hne a (mem_all_aliases.mpr (Or.inl ha)) b
        (mem_all_aliases.mpr (Or.inl hb)) (normalize_eq_iff.mpr heq)
    · rw [← tokens_of_project_id (validate_matched hpass hr')] at heq
      exact h.distinct r hr r' hr' hne a (mem_all_aliases.mpr (Or.inl ha)) r'.project_id
        (mem_all_aliases.mpr (Or.inr rfl)) (normalize_eq_iff.mpr heq)
  · intro h
    refine ⟨fun r hr a ha => h.matchable hpass hr ha,
      fun r hr r' hr' hne a ha b hb heq =>
        h.tokens_ne hpass hr hr' hne ha hb (normalize_eq_iff.mp heq),
      fun r hr a ha => ⟨?_, fun p hp hid b hb heq => ?_⟩⟩
    · have hmatched : a ∈ matched_aliases a r :=
        List.mem_filter.mpr ⟨ha, alias_present_of_eq (h.matchable hpass hr ha) rfl⟩
      exact ⟨_, mem_resolve_query.mpr ⟨r, hr, List.ne_nil_of_mem hmatched, rfl⟩, rfl⟩
    · obtain ⟨r', hr', -, rfl⟩ := mem_resolve_query.mp hp
      have hb' : b ∈ all_aliases r' := (List.mem_filter.mp (mem_payload_aliases.mp hb)).1
      have hne : r ≠ r' := by
        rintro rfl
        exact hid rfl
      exact h.tokens_ne hpass hr hr' hne ha hb' (normalize_eq_iff.mp heq.symm)

section Samples

omit [Lexis]

/-- `Lexis` on ASCII text. -/
@[reducible] def asciiLexis : Lexis where
  toText := asciiText
  lower s := String.ofList (s.toList.map Char.toLower)
  isWord c := c.isAlphanum || c == '_'
  sameLetter a b := a.toLower == b.toLower
  lower_plain s h := by
    have hsame : s.toList.map Char.toLower = s.toList.map id := by
      refine List.map_congr_left fun c hc => ?_
      have hlower : ¬ (c.val ≥ 'A'.val ∧ c.val ≤ 'Z'.val) := by
        intro hupper
        rcases h c hc with hid | rfl
        · simp only [idChar, Bool.or_eq_true, Bool.and_eq_true, decide_eq_true_eq] at hid
          rcases hid with ⟨hl, hu⟩ | ⟨hl, hu⟩
          · exact absurd (le_trans hl hupper.2) (by decide)
          · exact absurd (le_trans hupper.1 hu) (by decide)
        · exact absurd hupper (by decide)
      exact dif_neg hlower
    rw [hsame, List.map_id, String.ofList_toList]

def allPresent : Disk where
  join root relative := root ++ "/" ++ relative
  resolve root := root
  exists_path _ := true
  is_dir _ := true
  is_file _ := true

def activeRoute (id : String) (aliases : List String) : Route where
  project_id := id
  aliases := aliases
  root := "/srv/" ++ id
  startup := REQUIRED_STARTUP
  handoff := "HANDOFF.md"
  status := "active"

theorem validate_agrees_iff_web_api :
    @Agrees asciiLexis String allPresent id
      [activeRoute "web" ["frontend", "web ui"], activeRoute "api" ["backend"]] := by
  have hlettered : ([activeRoute "web" ["frontend", "web ui"], activeRoute "api" ["backend"]].all
      fun r => r.aliases.all fun a => (asciiLexis.lower a).toList.any idChar) = true := by
    decide +kernel
  refine (@validate_agrees_iff asciiLexis String allPresent id _ true true
    (by decide +kernel)).mpr
    (@SpelledApart.mk asciiLexis _ (fun r hr a ha => ?_) (by decide +kernel) (by decide +kernel))
  exact List.any_eq_true.mp (List.all_eq_true.mp (List.all_eq_true.mp hlettered r hr) a ha)

/-- The raw aliases "foo-bar" and "foo bar" differ, so the registry passes; the
router cannot tell the two projects apart. -/
theorem validate_shares_normal_form :
    (@validate asciiLexis allPresent
      [activeRoute "web" ["foo-bar"], activeRoute "api" ["foo bar"]] true true).status = .PASS ∧
    (@resolve_query asciiLexis String allPresent id "foo-bar"
      [activeRoute "web" ["foo-bar"], activeRoute "api" ["foo bar"]]).status = .AMBIGUOUS ∧
    ¬ @Agrees asciiLexis String allPresent id
      [activeRoute "web" ["foo-bar"], activeRoute "api" ["foo bar"]] := by
  refine ⟨by decide +kernel, by decide +kernel, fun h => ?_⟩
  have hne := @Agrees.distinct asciiLexis String _ _ _ h (activeRoute "web" ["foo-bar"])
    (by decide) (activeRoute "api" ["foo bar"]) (by decide) (by decide) "foo-bar" (by decide)
    "foo bar" (by decide)
  have heq : @normalize asciiLexis "foo-bar" = @normalize asciiLexis "foo bar" := by
    decide +kernel
  exact hne heq

end Samples

end jvc.routing
