import Jvc.Contracts.Schema
import Jvc.Lib.Traverse
import Jvc.Routing.Matching

open json (Value)

namespace jvc.routing.loading

open contracts

/-- The execution details of a route, as its contract gives them. -/
structure Details where
  cwd : Json
  persistence : Json
  privacy : Json
  permission_class : Json
  runtime_kind : Json
  runtime_candidates : Json
  preflight : Json
  verify : Json
  write_policy : Json

inductive Execution
  | details (details : Details)
  | INVALID (detail : String)

def isKeyError : Err → Bool
  | .KeyError _ => true
  | _ => false

/-- `value[key]` on an object -/
def item (key : String) (value : Json) : Except Err Json :=
  match value.find (lit key) with
  | some field => .ok field
  | none => .error (.KeyError key)

/-- The details that the router reads in a contract. -/
def read_details (contract : ExecutionContract) : Except Err Details := do
  let runtime_kind ← item "kind" contract.runtime
  let runtime_candidates ← item "candidates" contract.runtime
  return {
    cwd := contract.cwd
    persistence := contract.persistence
    privacy := contract.privacy
    permission_class := contract.permission_class
    runtime_kind, runtime_candidates
    preflight := contract.preflight
    verify := contract.verify
    write_policy := contract.write_policy }

variable [Platform] (disk : Disk) (files : Path → Except Err (List UInt8))

def agents_file (route : Route) : Path := disk.join route.root "AGENTS.md"

/-- The contract of a route, from the content of its file. -/
def contract_of (route : Route) : Except Failure ExecutionContract :=
  load_contract (agents_file disk route) (files (agents_file disk route))

/-- `except (OSError, KeyError, ContractError) as exc` -/
def invalid : Failure → Except Err Execution
  | .ContractError message => .ok (.INVALID message)
  | .other e => if e.isOSError || isKeyError e then .ok (.INVALID (Platform.exc_str e)) else .error e

/-- The block of a route, or the exception that leaves it. -/
def execution_of (route : Route) : Except Err Execution :=
  match contract_of disk files route with
  | .error failure => invalid failure
  | .ok contract =>
    match read_details contract with
    | .ok details => .ok (.details details)
    | .error e => invalid (.other e)

section Loading

/-- A content on which loading can only succeed or raise an exception that the router
catches. -/
def Loadable : Except Err (List UInt8) → Prop
  | .error e => e.isOSError = true ∨ isKeyError e = true
  | .ok data => ∃ text, decode_utf8_sig data = .ok text ∧
      (markers.Once START_MARKER text → markers.Once END_MARKER text →
        (∀ e, Platform.loads (contract_body text) = .error e →
          e.isJSONDecodeError = true ∨ e.isOSError = true ∨ isKeyError e = true) ∧
        ∀ value, Platform.loads (contract_body text) = .ok value → value.isDict = true →
          Hashed value)

/-- An exception that the router turns into an invalid block. -/
def Caught (failure : Failure) : Prop := ∃ block, invalid failure = .ok block

theorem caught_other {e : Err} : Caught (.other e) ↔ e.isOSError = true ∨ isKeyError e = true := by
  rw [Caught, invalid, ← Bool.or_eq_true]
  split
  · rename_i h
    exact ⟨fun _ => h, fun _ => ⟨_, rfl⟩⟩
  · rename_i h
    constructor
    · rintro ⟨block, hblock⟩
      cases hblock
    · intro h'
      exact absurd h' h

theorem declared_contract_caught {value : Json} :
    (∀ failure, declared_contract value = .error failure → Caught failure) ↔
      (value.isDict = true → Hashed value) := by
  have hsettled := @declared_contract_settled _ value
  rw [← hsettled]
  constructor
  · intro h
    cases hdeclared : declared_contract value with
    | ok contract => exact .inl ⟨contract, rfl⟩
    | error failure =>
      cases failure with
      | ContractError message => exact .inr ⟨message, rfl⟩
      | other e =>
        -- What the validator raises is no exception that the router knows.
        have hcaught := caught_other.mp (h _ hdeclared)
        have htype : ∃ message, e = .TypeError message := by
          rw [declared_contract] at hdeclared
          split at hdeclared
          · cases hdeclared
          · cases hvalidate : validate_contract value none none with
            | error e' =>
              rw [hvalidate] at hdeclared
              cases hdeclared
              exact validate_contract_error hvalidate
            | ok errors =>
              rw [hvalidate] at hdeclared
              cases errors with
              | nil => cases hdeclared
              | cons error errors => cases hdeclared
        obtain ⟨message, rfl⟩ := htype
        rcases hcaught with h | h
        · cases h
        · cases h
  · rintro (⟨contract, hcontract⟩ | ⟨message, herror⟩) failure hfailure
    · rw [hcontract] at hfailure
      cases hfailure
    · rw [herror] at hfailure
      cases hfailure
      exact ⟨_, rfl⟩

/-- What a content is to be so that the router catches all that loading it raises. -/
theorem loadable_iff {content : Except Err (List UInt8)} (file : Path) : Loadable content ↔
    ∀ failure, load_contract file content = .error failure → Caught failure := by
  cases content with
  | error e =>
    rw [Loadable, ← caught_other]
    have hload : load_contract file (.error e) = .error (if e.isOSError then
        .ContractError s!"cannot read agents file {file}: {Platform.exc_str e}" else .other e) := rfl
    rw [hload]
    constructor
    · intro hcaught failure hfailure
      cases hfailure
      split
      · exact ⟨_, rfl⟩
      · exact hcaught
    · intro h
      have hcaught := h _ rfl
      split at hcaught
      · rename_i hos
        exact caught_other.mpr (.inl hos)
      · exact hcaught
  | ok data =>
    rw [Loadable]
    by_cases hdecode : ∃ text, decode_utf8_sig data = .ok text
    · obtain ⟨text, htext⟩ := hdecode
      simp only [htext, Except.ok.injEq, exists_eq_left']
      by_cases hmarkers : markers.Once START_MARKER text ∧ markers.Once END_MARKER text
      · obtain ⟨hstart, hend⟩ := hmarkers
        rw [load_contract_marked htext hstart hend]
        simp only [hstart, hend, forall_const]
        cases hloads : Platform.loads (contract_body text) with
        | error e =>
          simp only [Except.error.injEq, forall_eq', reduceCtorEq, false_implies, implies_true,
            and_true]
          constructor
          · rintro hkind failure hfailure
            rw [caught] at hfailure
            cases hfailure
            split
            · exact ⟨_, rfl⟩
            · rename_i hjson
              exact caught_other.mpr (hkind.resolve_left hjson)
          · intro h
            have hcaught := h _ rfl
            split at hcaught
            · rename_i hjson
              exact .inl hjson
            · exact .inr (caught_other.mp hcaught)
        | ok value =>
          simp only [Except.ok.injEq, forall_eq', reduceCtorEq, false_implies, implies_true,
            true_and]
          exact declared_contract_caught.symm
      · rw [load_contract_unmarked htext hmarkers]
        constructor
        · intro _ failure hfailure
          cases hfailure
          exact ⟨_, rfl⟩
        · intro _ hstart hend
          exact absurd ⟨hstart, hend⟩ hmarkers
    · rw [load_contract_undecoded (not_exists.mp hdecode)]
      constructor
      · rintro ⟨text, htext, -⟩
        exact absurd ⟨text, htext⟩ hdecode
      · intro h
        obtain ⟨block, hblock⟩ := h _ rfl
        cases hblock

end Loading

variable [Lexis]

/-- Generate execution details and startup sequence for a matched route. -/
def route_payload (route : Route) (matched : List String) : Except Err (Payload Execution) := do
  let execution ← execution_of disk files route
  return routing.route_payload disk (fun _ => execution) route matched

/-- The report on the payloads of the matched routes. -/
def report (query : String) (payloads : List (Payload Execution)) : Report Execution :=
  match payloads with
  | [] =>
    { status := .UNKNOWN, query, routes := []
      message := "No registered project alias matched; load no project context." }
  | [payload] =>
    { status := .ROUTED, query, routes := [payload]
      message := "Read the returned root trio in order, then follow HANDOFF.md to the current stage. Load no unrelated context." }
  | payloads =>
    if multi_markers none query.toList then
      { status := .MULTI_ROUTE, query, routes := payloads
        message := "Keep project contexts, authorities, and outputs separate." }
    else
      { status := .AMBIGUOUS, query, routes := payloads
        message := "Multiple projects matched without explicit multi-project intent; load no project context." }

/-- Deterministically resolve a query against the registered routes, with their contracts. -/
def resolve_query (query : String) (routes : List Route) : Except Err (Report Execution) := do
  let payloads ← (matched_routes query routes).mapM fun (route, aliases) =>
    route_payload disk files route aliases
  return report query payloads

section Claim

/-- What a contract gives to a route: all its details, a missing entry of the runtime as null. -/
def carried (contract : ExecutionContract) : Details where
  cwd := contract.cwd
  persistence := contract.persistence
  privacy := contract.privacy
  permission_class := contract.permission_class
  runtime_kind := field "kind" contract.runtime
  runtime_candidates := field "candidates" contract.runtime
  preflight := contract.preflight
  verify := contract.verify
  write_policy := contract.write_policy

/-- The block that a route ought to have: the details of its own contract, or that it has none. -/
def own_execution (route : Route) : Execution :=
  match contract_of disk files route with
  | .ok contract => .details (carried contract)
  | .error (.ContractError message) => .INVALID message
  | .error (.other e) => .INVALID (Platform.exc_str e)

/-- Accepted contracts are carried, and the query is answered with the routes that it names,
each with its own block. -/
structure Routable (query : String) (routes : List Route) : Prop where
  carried : ∀ route ∈ routes, ∀ contract, contract_of disk files route = .ok contract →
    ∀ matched, ∃ payload, route_payload disk files route matched = .ok payload ∧
      payload.execution = .details (carried contract)
  resolved : ∃ answer, resolve_query disk files query routes = .ok answer ∧
    answer.status = (routing.resolve_query disk (fun _ => ()) query routes).status ∧
    answer.routes = (named_routes query routes).map fun route =>
      routing.route_payload disk (fun _ => own_execution disk files route) route
        (matched_aliases query route)

/-- The accepted contracts that need no runtime have its candidates all the same, and what the
query names can be loaded. -/
structure Reads (query : String) (routes : List Route) : Prop where
  candidates : ∀ route ∈ routes, ∀ contract, contract_of disk files route = .ok contract →
    field "kind" contract.runtime = .str (lit "none") →
      (contract.runtime.find (lit "candidates")).isSome = true
  loadable : ∀ route ∈ routes, Named query route → Loadable (files (agents_file disk route))

end Claim

section Routing

variable {disk files} {query : String} {routes : List Route} {route : Route}

omit [Lexis] in
/-- A contract comes from an object that the validator has nothing against. -/
theorem declared_of_load {file : Path} {content : Except Err (List UInt8)}
    {contract : ExecutionContract} (h : load_contract file content = .ok contract) :
    ∃ value, declared_contract value = .ok contract := by
  cases content with
  | error e => cases h
  | ok data =>
    by_cases hdecode : ∃ text, decode_utf8_sig data = .ok text
    · obtain ⟨text, htext⟩ := hdecode
      by_cases hmarkers : markers.Once START_MARKER text ∧ markers.Once END_MARKER text
      · rw [load_contract_marked htext hmarkers.1 hmarkers.2] at h
        cases hloads : Platform.loads (contract_body text) with
        | error e =>
          rw [hloads] at h
          cases h
        | ok value =>
          rw [hloads] at h
          exact ⟨value, h⟩
      · rw [load_contract_unmarked htext hmarkers] at h
        cases h
    · rw [load_contract_undecoded (not_exists.mp hdecode)] at h
      cases h

omit [Lexis] in
theorem runtime_of_declared {value : Json} {contract : ExecutionContract}
    (h : declared_contract value = .ok contract) : contract.runtime = field "runtime" value := by
  rw [declared_contract] at h
  split at h
  · cases h
  · cases hvalidate : validate_contract value none none with
    | error e =>
      rw [hvalidate] at h
      cases h
    | ok errors =>
      rw [hvalidate] at h
      cases errors with
      | nil =>
        cases h
        rfl
      | cons error errors => cases h

omit [Lexis] in
/-- The kind of an accepted contract is known, and with python it has candidates. -/
theorem contract_of_ok {contract : ExecutionContract} (h : contract_of disk files route = .ok contract) :
    Listed ["python", "none"] (field "kind" contract.runtime) ∧
      (field "kind" contract.runtime = .str (lit "python") →
        (contract.runtime.find (lit "candidates")).isSome = true) := by
  obtain ⟨value, hdeclared⟩ := declared_of_load h
  have hvalid : Valid value := declared_contract_ok.mp ⟨contract, hdeclared⟩
  obtain ⟨hcommon, hstrict⟩ := (valid_iff hvalid.1).mp hvalid
  rw [runtime_of_declared hdeclared]
  refine ⟨hcommon.kind, fun hpython => ?_⟩
  have hcandidates := hstrict.candidates hpython
  rw [field, Value.get] at hcandidates
  cases hfind : (field "runtime" value).find (lit "candidates") with
  | none =>
    rw [hfind] at hcandidates
    cases hcandidates
  | some candidates => rfl

omit [Lexis] [Platform] in
theorem item_ok {key : String} {value : Json} (h : (value.find (lit key)).isSome = true) :
    item key value = .ok (field key value) := by
  obtain ⟨x, hx⟩ := Option.isSome_iff_exists.mp h
  rw [item, hx, field, Value.get, hx]
  rfl

omit [Lexis] [Platform] in
theorem isSome_of_listed {allowed : List String} {key : String} {value : Json}
    (h : Listed allowed (field key value)) : (value.find (lit key)).isSome = true := by
  rw [field, Value.get] at h
  cases hfind : value.find (lit key) with
  | none =>
    rw [hfind] at h
    obtain ⟨s, -, hs⟩ := h
    cases hs
  | some x => rfl

omit [Lexis] in
/-- An accepted contract is carried exactly where its runtime has candidates. -/
theorem execution_of_accepted {contract : ExecutionContract}
    (h : contract_of disk files route = .ok contract) :
    (execution_of disk files route = .ok (.details (carried contract)) ↔
      (contract.runtime.find (lit "candidates")).isSome = true) := by
  have hkind := item_ok (isSome_of_listed (contract_of_ok h).1)
  rw [execution_of, h]
  simp only [read_details, hkind]
  cases hfind : contract.runtime.find (lit "candidates") with
  | none =>
    have hitem : item "candidates" contract.runtime = .error (.KeyError "candidates") := by
      rw [item, hfind]
    rw [hitem]
    constructor
    · intro hblock
      cases hblock
    · intro hsome
      cases hsome
  | some candidates =>
    have hitem := @item_ok "candidates" contract.runtime (by rw [hfind]; rfl)
    rw [hitem]
    exact ⟨fun _ => rfl, fun _ => rfl⟩

omit [Lexis] in
/-- The block of a route is computed, whatever it is, exactly where its content is loadable. -/
theorem execution_of_ok : (∃ block, execution_of disk files route = .ok block) ↔
    Loadable (files (agents_file disk route)) := by
  rw [loadable_iff (agents_file disk route), execution_of, contract_of]
  cases hload : load_contract (agents_file disk route) (files (agents_file disk route)) with
  | error failure =>
    constructor
    · rintro ⟨block, hblock⟩ failure' hfailure
      cases hfailure
      exact ⟨block, hblock⟩
    · intro h
      exact h failure rfl
  | ok contract =>
    refine ⟨fun _ failure hfailure => (by cases hfailure), fun _ => ?_⟩
    have hkind := item_ok (isSome_of_listed (@contract_of_ok _ disk files route contract hload).1)
    simp only [read_details, hkind]
    cases hcandidates : item "candidates" contract.runtime with
    | ok candidates => exact ⟨_, rfl⟩
    | error e =>
      have hkey : e = .KeyError "candidates" := by
        rw [item] at hcandidates
        split at hcandidates
        · cases hcandidates
        · cases hcandidates
          rfl
      subst hkey
      exact ⟨_, rfl⟩

omit [Lexis] in
theorem own_execution_of (hloadable : Loadable (files (agents_file disk route)))
    (hcandidates : ∀ contract, contract_of disk files route = .ok contract →
      (contract.runtime.find (lit "candidates")).isSome = true) :
    execution_of disk files route = .ok (own_execution disk files route) := by
  rw [own_execution]
  cases hcontract : contract_of disk files route with
  | ok contract => exact (execution_of_accepted hcontract).mpr (hcandidates contract hcontract)
  | error failure =>
    have hcaught := (loadable_iff (agents_file disk route)).mp hloadable failure hcontract
    rw [execution_of, hcontract]
    cases failure with
    | ContractError message => rfl
    | other e =>
      have hkind := caught_other.mp hcaught
      simp only [invalid, Bool.or_eq_true, hkind, if_true]

omit [Platform] in
theorem report_routes (payloads : List (Payload Execution)) :
    (report query payloads).routes = payloads := by
  cases payloads with
  | nil => rfl
  | cons first rest =>
    cases rest with
    | nil => rfl
    | cons second rest =>
      simp only [report]
      split
      · rfl
      · rfl

omit [Platform] in
theorem report_status (payloads : List (Payload Execution)) : (report query payloads).status =
    if payloads.length = 0 then .UNKNOWN else if payloads.length = 1 then .ROUTED
    else if multi_markers none query.toList then .MULTI_ROUTE else .AMBIGUOUS := by
  cases payloads with
  | nil => rfl
  | cons first rest =>
    cases rest with
    | nil => rfl
    | cons second rest =>
      have hzero : (first :: second :: rest).length ≠ 0 := Nat.succ_ne_zero _
      have hone : (first :: second :: rest).length ≠ 1 := by
        rw [List.length_cons, List.length_cons]
        omega
      rw [if_neg hzero, if_neg hone]
      simp only [report]
      split
      · rfl
      · rfl

/-- Where every matched route has a block, the query is answered with these. -/
theorem resolve_query_ok {block : Route → Execution} (h : ∀ route ∈ named_routes query routes,
      execution_of disk files route = .ok (block route)) :
    resolve_query disk files query routes = .ok (report query ((named_routes query routes).map fun route =>
      routing.route_payload disk (fun _ => block route) route (matched_aliases query route))) := by
  have hpayloads : (matched_routes query routes).mapM (fun (route, aliases) =>
      route_payload disk files route aliases) = .ok ((matched_routes query routes).map fun m =>
        routing.route_payload disk (fun _ => block m.1) m.1 m.2) := by
    apply traverse.mapM_ok
    rw [matched_routes_eq, List.forall_mem_map]
    intro route hroute
    simp only [route_payload, h route hroute]
    rfl
  rw [resolve_query, hpayloads, matched_routes_eq, List.map_map]
  rfl

theorem execution_of_payload {matched : List String} {payload : Payload Execution}
    (h : route_payload disk files route matched = .ok payload) :
    execution_of disk files route = .ok payload.execution := by
  rw [route_payload] at h
  cases hblock : execution_of disk files route with
  | error e =>
    rw [hblock] at h
    cases h
  | ok block =>
    rw [hblock] at h
    cases h
    rfl

theorem loadable_of_resolved {answer : Report Execution}
    (h : resolve_query disk files query routes = .ok answer) (hmem : route ∈ routes)
    (hnamed : Named query route) : Loadable (files (agents_file disk route)) := by
  rw [resolve_query] at h
  cases hpayloads : (matched_routes query routes).mapM fun (route, aliases) =>
      route_payload disk files route aliases with
  | error e =>
    rw [hpayloads] at h
    cases h
  | ok payloads =>
    have hmatched : (route, matched_aliases query route) ∈ matched_routes query routes := by
      rw [matched_routes_eq]
      refine List.mem_map.mpr ⟨route, ?_, rfl⟩
      rw [named_routes, List.mem_filter]
      exact ⟨hmem, decide_eq_true hnamed⟩
    obtain ⟨payload, hpayload⟩ := traverse.mapM_ok_iff.mp ⟨payloads, hpayloads⟩ _ hmatched
    exact execution_of_ok.mp ⟨_, execution_of_payload hpayload⟩

/-- Accepted contracts are carried and every query is answered exactly where the accepted
contracts have candidates and the files that the query asks for can be loaded. -/
theorem routable_iff (disk : Disk) (files : Path → Except Err (List UInt8)) (query : String)
    (routes : List Route) : Routable disk files query routes ↔ Reads disk files query routes := by
  constructor
  · intro h
    refine ⟨fun route hroute contract hcontract _ => ?_, fun route hroute hnamed => ?_⟩
    · obtain ⟨payload, hpayload, hdetails⟩ := h.carried route hroute contract hcontract []
      rw [← execution_of_accepted hcontract, execution_of_payload hpayload, hdetails]
    · obtain ⟨answer, hanswer, -⟩ := h.resolved
      exact loadable_of_resolved hanswer hroute hnamed
  · intro h
    have hcandidates : ∀ route ∈ routes, ∀ contract, contract_of disk files route = .ok contract →
        (contract.runtime.find (lit "candidates")).isSome = true := by
      intro route hroute contract hcontract
      obtain ⟨⟨kind, hkind, hvalue⟩, hpython⟩ := contract_of_ok hcontract
      rcases List.mem_pair.mp hkind with rfl | rfl
      · exact hpython hvalue
      · exact h.candidates route hroute contract hcontract hvalue
    refine ⟨fun route hroute contract hcontract matched => ?_, ?_⟩
    · have hblock := (execution_of_accepted hcontract).mpr (hcandidates route hroute contract hcontract)
      refine ⟨routing.route_payload disk (fun _ => .details (carried contract)) route matched, ?_, rfl⟩
      rw [route_payload, hblock]
      rfl
    · have hanswer := @resolve_query_ok _ disk files _ query routes (own_execution disk files) (by
        intro route hroute
        rw [named_routes, List.mem_filter] at hroute
        exact own_execution_of (h.loadable route hroute.1 (of_decide_eq_true hroute.2))
          (hcandidates route hroute.1))
      refine ⟨_, hanswer, ?_, report_routes _⟩
      rw [report_status, resolve_query_status, List.length_map]

end Routing

end jvc.routing.loading

namespace jvc.routing.loading

open contracts

section Sample

/-- The contract of a project of documents, which needs no runtime. -/
def docs_contract : Json := docs [(lit "kind", .str (lit "none"))] "direct"

/-- The fields of its JSON text. -/
def docs_fields : List Char :=
  ["\"schema_version\": 1, ", "\"project_id\": \"docs\", ", "\"cwd\": \"/srv/docs\", ",
    "\"persistence\": \"git\", ", "\"privacy\": \"standard\", ",
    "\"permission_class\": ", "\"docs-only\", ", "\"runtime\": ", "\x7b\"kind\": \"none\"\x7d, ",
    "\"preflight\": null, ", "\"verify\": null, ", "\"write_policy\": \"direct\""].flatMap String.toList

/-- A platform whose parser knows that text. -/
@[reducible]
def documented : Platform where
  loads text := if text = object docs_fields then .ok docs_contract else .error .JSONDecodeError
  exc_str _ := "'candidates'"
  repr _ := "''"
  declared_root _ := "/"
  actual_root root := root
  loads_begins text value h := by
    split at h
    · rename_i htext
      exact ⟨_, _, htext, by decide, by decide⟩
    · cases h

attribute [local instance] asciiLexis documented

attribute [local irreducible] docs_fields

/-- The content of the file with that text. -/
def docs_file : List UInt8 := utf8.encode (written (object docs_fields))

theorem load_docs_file (file : Path) :
    load_contract file (.ok docs_file) = declared_contract docs_contract := by
  have hmarker : '<' ∉ docs_fields := by decide +kernel
  have hreturn : '\r' ∉ docs_fields := by decide +kernel
  have hloads : Platform.loads (object docs_fields) = .ok docs_contract := if_pos rfl
  rw [docs_file, load_contract_written file hmarker hreturn, hloads]
  rfl

/-- A file that is no UTF-8 stops the query; an accepted contract without candidates, where no
runtime is needed, has an invalid block. -/
theorem routable_undone :
    ¬ Routable allPresent (fun _ => .ok [0xff]) "web" [activeRoute "web" ["site"]] ∧
      ¬ Routable allPresent (fun _ => .ok docs_file) "web" [activeRoute "web" ["site"]] := by
  constructor
  · rintro ⟨-, answer, hanswer, -⟩
    have hnamed : Named "web" (activeRoute "web" ["site"]) :=
      ⟨"web", List.mem_cons_self, by decide +kernel, List.infix_refl _⟩
    obtain ⟨text, htext, -⟩ := loadable_of_resolved hanswer List.mem_cons_self hnamed
    have hdecode : decode_utf8_sig [0xff] = .error .UnicodeDecodeError := by decide +kernel
    rw [hdecode] at htext
    cases htext
  · rintro ⟨hcarried, -⟩
    obtain ⟨contract, hcontract⟩ := declared_contract_ok.mpr
      (show Valid docs_contract from ⟨rfl, by decide +kernel⟩)
    have hload : contract_of allPresent (fun _ => .ok docs_file) (activeRoute "web" ["site"]) =
        .ok contract := (load_docs_file _).trans hcontract
    obtain ⟨payload, hpayload, hdetails⟩ := hcarried _ List.mem_cons_self contract hload []
    have hblock := execution_of_payload hpayload
    rw [hdetails] at hblock
    have hcandidates := (execution_of_accepted hload).mp hblock
    rw [runtime_of_declared hcontract] at hcandidates
    cases hcandidates

end Sample

end jvc.routing.loading
