import Jvc.Configuration

namespace jvc.routing

/-- The further parts of `str` and `re` that routing relies on. -/
class Lexis extends Text where
  lower : String → String
  /-- `\w` -/
  isWord : Char → Bool
  /-- equality of letters under `re.IGNORECASE` -/
  sameLetter : Char → Char → Bool
  lower_plain : ∀ s, (∀ c ∈ s.toList, idChar c = true ∨ c = '-') → lower s = s

/-- The file system as the validator asks it. -/
structure Disk where
  /-- `root / relative` -/
  join : String → String → String
  /-- `str(root.resolve())` -/
  resolve : String → String
  exists_path : String → Bool
  is_dir : String → Bool
  is_file : String → Bool

/-- Canonical registered project route. -/
structure Route where
  project_id : String
  aliases : List String
  root : String
  startup : List String
  handoff : String
  status : String
  deriving DecidableEq, Repr

def ALLOWED_LIFECYCLE_STATUSES : List String := ["active", "held", "complete", "superseded"]

def ALLOWED_CAPABILITY_CLASSES : List String :=
  ["standard", "restricted-tooling", "private-content"]

def ALLOWED_STATUSES : List String := ALLOWED_LIFECYCLE_STATUSES ++ ALLOWED_CAPABILITY_CLASSES

def REQUIRED_STARTUP : List String := ["AGENTS.md", "CONTEXT.md", "HANDOFF.md"]

/-- `mapping[key] = value` -/
def insert (mapping : List (String × String)) (key value : String) : List (String × String) :=
  (key, value) :: mapping.filter (·.1 ≠ key)

/-- What the validator has collected from the routes before the current one. -/
structure Seen where
  ids : List String
  aliases : List (String × String)
  roots : List (String × String)

variable [Lexis] (disk : Disk)

def root_key (check_root_paths : Bool) (route : Route) : String :=
  if check_root_paths && disk.exists_path route.root then Text.casefold (disk.resolve route.root)
  else Text.casefold route.root

def id_errors (seen : Seen) (route : Route) : List String :=
  (if matchId false route.project_id.toList then []
    else [s!"{route.project_id}: invalid project ID"]) ++
  (if route.project_id ∈ seen.ids then [s!"{route.project_id}: duplicate project ID"] else [])

def root_errors (check_root_paths : Bool) (seen : Seen) (route : Route) : List String :=
  (match seen.roots.lookup (root_key disk check_root_paths route) with
    | some owner => [s!"{route.project_id}: root duplicates {owner}"]
    | none => []) ++
  (if check_root_paths && !disk.is_dir route.root then
    [s!"{route.project_id}: project root does not exist: {route.root}"] else [])

/-- `tuple(route.startup.index(filename) for filename in REQUIRED_STARTUP)`, or
`()` when one of them is missing. -/
def positions (startup : List String) : List Nat :=
  (REQUIRED_STARTUP.mapM fun filename => startup.idxOf? filename).getD []

def startup_errors (check_startup_files : Bool) (route : Route) : List String :=
  (if positions route.startup = [] ∨ route.startup.head? ≠ some "AGENTS.md" ∨
      ¬ (positions route.startup).Pairwise (· ≤ ·) then
    [s!"{route.project_id}: startup must route AGENTS.md -> CONTEXT.md -> HANDOFF.md in order"]
    else []) ++
  (if check_startup_files then
    (route.startup.filter fun relative => !disk.is_file (disk.join route.root relative)).map
      fun relative => s!"{route.project_id}: startup file missing: {relative}"
    else [])

/-- The loop over the aliases of one route. -/
def alias_errors (project_id : String) :
    List String → List (String × String) → List String × List (String × String)
  | [], aliases => ([], aliases)
  | al :: rest, aliases =>
    let taken := match aliases.lookup al with
      | some owner =>
        if owner ≠ "" ∧ owner ≠ project_id then
          [s!"{project_id}: alias {Text.repr al} already belongs to {owner}"] else []
      | none => []
    let (errors, aliases') := alias_errors project_id rest (insert aliases al project_id)
    (taken ++ errors, aliases')

/-- The checks of one route. -/
def check_route (check_startup_files check_root_paths : Bool) (seen : Seen) (route : Route) :
    List String × Seen :=
  let (taken, aliases) := alias_errors route.project_id route.aliases seen.aliases
  (id_errors seen route ++
    (if route.status ∈ ALLOWED_STATUSES then []
      else [s!"{route.project_id}: unsupported status {Text.repr route.status}"]) ++
    root_errors disk check_root_paths seen route ++
    startup_errors disk check_startup_files route ++
    (if route.aliases = [] then [s!"{route.project_id}: at least one alias is required"] else []) ++
    taken,
   { ids := route.project_id :: seen.ids
     aliases
     roots := insert seen.roots (root_key disk check_root_paths route) route.project_id })

def check_routes (check_startup_files check_root_paths : Bool) :
    Seen → List Route → List String × Seen
  | seen, [] => ([], seen)
  | seen, route :: rest =>
    let (errors, seen') := check_route disk check_startup_files check_root_paths seen route
    let (errors', seen'') := check_routes check_startup_files check_root_paths seen' rest
    (errors ++ errors', seen'')

inductive Verdict
  | PASS
  | FAIL
  deriving DecidableEq, Repr

structure Validation where
  status : Verdict
  route_count : Nat
  alias_count : Nat
  errors : List String

/-- Validate route constraints without modifying any files. -/
def validate (routes : List Route) (check_startup_files check_root_paths : Bool) : Validation :=
  let (errors, seen) := check_routes disk check_startup_files check_root_paths ⟨[], [], []⟩ routes
  { status := if errors = [] then .PASS else .FAIL
    route_count := (routes.map Route.project_id).dedup.length
    alias_count := seen.aliases.length
    errors }

variable {disk} {check_startup_files check_root_paths : Bool}

theorem validate_pass_iff {routes : List Route} :
    (validate disk routes check_startup_files check_root_paths).status = .PASS ↔
      (check_routes disk check_startup_files check_root_paths ⟨[], [], []⟩ routes).1 = [] := by
  simp only [validate]
  split
  · simp_all
  · simp_all

omit [Lexis] in
theorem id_errors_nil {seen : Seen} {route : Route} (h : id_errors seen route = []) :
    matchId false route.project_id.toList = true ∧ route.project_id ∉ seen.ids := by
  simp only [id_errors, List.append_eq_nil_iff] at h
  obtain ⟨hmatch, hnew⟩ := h
  constructor
  · by_contra hno
    rw [if_neg hno] at hmatch
    cases hmatch
  · intro hmem
    rw [if_pos hmem] at hnew
    cases hnew

theorem check_route_ids {seen : Seen} {route : Route} :
    (check_route disk check_startup_files check_root_paths seen route).2.ids =
      route.project_id :: seen.ids := rfl

theorem check_route_id_errors {seen : Seen} {route : Route}
    (h : (check_route disk check_startup_files check_root_paths seen route).1 = []) :
    id_errors seen route = [] := by
  simp only [check_route, List.append_eq_nil_iff] at h
  exact h.1.1.1.1.1

/-- Project ids that pass the validator match `PROJECT_ID_RE`, are new, and
differ from one another. -/
theorem check_routes_ids {seen : Seen} {routes : List Route}
    (h : (check_routes disk check_startup_files check_root_paths seen routes).1 = []) :
    (∀ r ∈ routes, matchId false r.project_id.toList = true ∧ r.project_id ∉ seen.ids) ∧
      routes.Pairwise (fun r r' => r.project_id ≠ r'.project_id) := by
  induction routes generalizing seen with
  | nil => simp
  | cons route rest ih =>
    simp only [check_routes, List.append_eq_nil_iff] at h
    obtain ⟨hroute, hrest⟩ := h
    obtain ⟨hmatch, hnew⟩ := id_errors_nil (check_route_id_errors hroute)
    obtain ⟨hvalid, hpair⟩ := ih hrest
    refine ⟨List.forall_mem_cons.mpr ⟨⟨hmatch, hnew⟩, fun r hr => ?_⟩,
      List.pairwise_cons.mpr ⟨fun r hr heq => ?_, hpair⟩⟩
    · obtain ⟨hm, hn⟩ := hvalid r hr
      rw [check_route_ids, List.mem_cons, not_or] at hn
      exact ⟨hm, hn.2⟩
    · obtain ⟨-, hn⟩ := hvalid r hr
      rw [check_route_ids, ← heq] at hn
      exact hn List.mem_cons_self

theorem validate_matched {routes : List Route}
    (h : (validate disk routes check_startup_files check_root_paths).status = .PASS)
    {r : Route} (hr : r ∈ routes) : matchId false r.project_id.toList = true :=
  ((check_routes_ids (validate_pass_iff.mp h)).1 r hr).1

/-- Two routes of a validated registry with one project id are one route. -/
theorem validate_project_id_inj {routes : List Route}
    (h : (validate disk routes check_startup_files check_root_paths).status = .PASS)
    {r r' : Route} (hr : r ∈ routes) (hr' : r' ∈ routes)
    (heq : r.project_id = r'.project_id) : r = r' := by
  have hpair := (check_routes_ids (validate_pass_iff.mp h)).2
  by_contra hne
  have hsym : Std.Symm fun r r' : Route => r.project_id ≠ r'.project_id :=
    ⟨fun _ _ h => h.symm⟩
  exact hpair.forall hr hr' hne heq

end jvc.routing
