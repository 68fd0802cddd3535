import Jvc.Contracts.Schema

open json (Value)

namespace jvc.contracts

open authority (PyStr CodePoint scalars)

inductive Applicability
  | CONFIGURED
  | NOT_APPLICABLE
  | MISSING
  deriving DecidableEq, Repr

def isNull : Json → Bool
  | .null => true
  | _ => false

def isTrue : Json → Bool
  | .bool b => b
  | _ => false

def isFalse : Json → Bool
  | .bool b => !b
  | _ => false

/-- Whether a check is to run by its contract. -/
def check_applicability (contract : Json) (name : String) : Except Err Applicability :=
  match contract.find (lit name) with
  | none => .ok .MISSING
  | some check =>
    if isNull check || check.isDict && isFalse (field "applicable" check) then do
      let runtime_kind := field "kind" (field "runtime" contract)
      let exempt ← member ["docs-only", "private-structure-only"] (field "permission_class" contract)
      return if exempt || runtime_kind.equalsStr (lit "none") then .NOT_APPLICABLE else .MISSING
    else if check.isDict then .ok .CONFIGURED
    else .ok .MISSING

/-- `failure_kind in {None, "none"}` -/
def no_failure (failure_kind : Json) : Except Err Bool :=
  if isNull failure_kind then .ok true else member ["none"] failure_kind

/-- Return True if result represents successful execution or legitimate contract-permitted N/A. -/
def is_verification_satisfied (result : Json) (allow_na : Bool) (expected_name : Option String) :
    Except Err Bool :=
  if !result.isDict then .ok false
  else if expected_name.any fun expected => !(field "name" result).equalsStr (lit expected) then
    .ok false
  else if !nonempty_str (field "name" result) then .ok false
  else if (field "status" result).equalsStr (lit "PASS") then
    if !isTrue (field "executed" result) then .ok false
    else if !isTrue (field "applicable" result) then .ok false
    else if (field "returncode" result).exactInt? ≠ some 0 then .ok false
    else no_failure (field "failure_kind" result)
  else if allow_na && (field "status" result).equalsStr (lit "NOT_APPLICABLE") &&
      isFalse (field "applicable" result) && isFalse (field "executed" result) then
    no_failure (field "failure_kind" result)
  else .ok false

section Machine

/-- What becomes of `subprocess.run`. It raises more than `run_check` catches: a
`ValueError` for a NUL in an argument, a `UnicodeEncodeError` for one that cannot be encoded,
a `UnicodeDecodeError` for output that cannot be decoded, and an `OverflowError` for a
timeout that is too long. -/
inductive Outcome
  | completed (returncode : Int) (stdout stderr : PyStr)
  | TimeoutExpired (exc : PyStr)
  | OSError (exc : PyStr)
  | raised (err : Err)
  deriving DecidableEq

/-- A machine with its variables and programs, as a call finds them. -/
structure Machine where
  /-- `os.path.expandvars`, which raises for a variable whose name cannot be encoded -/
  expandvars : PyStr → Except Err PyStr
  /-- `Path(executable).is_file()`, which raises for a name that is too long -/
  is_file : PyStr → Except Err Bool
  /-- `shutil.which(executable)` -/
  which : PyStr → Option PyStr
  /-- what comes of an argv that is not empty, with a timeout in seconds -/
  outcome : List PyStr → Int → Outcome

/-- What `run_check` and its callees raise beside the exceptions that they catch. -/
inductive Raised
  | IndexError
  | error (err : Err)
  deriving DecidableEq

/-- `subprocess.run(argv, timeout=timeout)`, which finds its program in the first argument. -/
def Machine.run (machine : Machine) (argv : List PyStr) (timeout : Int) : Except Raised Outcome :=
  if argv = [] then .error .IndexError else .ok (machine.outcome argv timeout)

/-- `text.replace(old, new)` for an `old` that is not empty; `skip` counts what is still to be
passed of the last occurrence. -/
def replaceFrom (old new : PyStr) : Nat → PyStr → PyStr
  | _, [] => []
  | skip + 1, _ :: text => replaceFrom old new skip text
  | 0, c :: text =>
    if old.isPrefixOf (c :: text) then new ++ replaceFrom old new (old.length - 1) text
    else c :: replaceFrom old new 0 text

/-- `_expand`, for a project root. -/
def expand (machine : Machine) (root value : PyStr) : Except Err PyStr :=
  machine.expandvars (replaceFrom (lit "{project_root}") root 0 value)

/-- `[_expand(arg, root) for arg in args]` -/
def expand_all (machine : Machine) (root : PyStr) : List PyStr → Except Err (List PyStr)
  | [] => .ok []
  | arg :: rest => do
    let first ← expand machine root arg
    let rest ← expand_all machine root rest
    return first :: rest

/-- `text.strip()` -/
def strip_text (text : PyStr) : PyStr :=
  ((text.dropWhile isSpacePoint).reverse.dropWhile isSpacePoint).reverse

def isBreakPoint : CodePoint → Bool
  | .scalar c => lines.isBreak c
  | .surrogate _ => false

/-- `text.splitlines()[-1]` for a text that is not empty. -/
def last_line (text : PyStr) : PyStr :=
  let rest := match text.reverse with
    | .scalar '\n' :: .scalar '\r' :: rest => rest
    | c :: rest => if isBreakPoint c then rest else c :: rest
    | [] => []
  (rest.takeWhile fun c => !isBreakPoint c).reverse

/-- `text[-n:]` -/
def last_of (n : Nat) (text : PyStr) : PyStr := text.drop (text.length - n)

/-- The strings of a list. -/
def texts (value : Json) : List PyStr :=
  match value with
  | .list items => items.filterMap Value.str?
  | _ => []

end Machine

section Runtime

inductive Attempt
  | not_found (candidate : List PyStr)
  | probe_error (candidate : List PyStr) (detail : PyStr)
  | probe_failed (candidate : List PyStr) (detail : PyStr)
  deriving DecidableEq

structure Runtime where
  status : String
  kind : String
  argv : List PyStr
  detail : PyStr
  attempts : List Attempt
  deriving DecidableEq

/-- The executable of a candidate, where there is one. -/
def resolve_executable (machine : Machine) (executable : PyStr) : Except Err (Option PyStr) := do
  let found ← machine.is_file executable
  return (if found then some executable else machine.which executable).filter (· ≠ [])

/-- The loop over the candidates of a runtime, each with at least one argument. -/
def try_candidates (machine : Machine) (root : PyStr) (probe : List PyStr) :
    List Attempt → List (List PyStr) → Except Err Runtime
  | attempts, [] => .ok
    { status := "FAIL", kind := "python", argv := []
      detail := lit "no candidate passed the capability probe", attempts }
  | attempts, raw_candidate :: rest => do
    let candidate ← expand_all machine root raw_candidate
    match ← resolve_executable machine (candidate.headD []) with
    | none => try_candidates machine root probe (attempts ++ [.not_found candidate]) rest
    | some resolved =>
      let argv := resolved :: candidate.tail
      let probe_argv ← expand_all machine root probe
      match machine.outcome (argv ++ probe_argv) 30 with
      | .raised err => throw err
      | .OSError exc | .TimeoutExpired exc =>
        try_candidates machine root probe (attempts ++ [.probe_error candidate exc]) rest
      | .completed returncode stdout stderr =>
        if returncode = 0 then
          return { status := "PASS", kind := "python", argv
                   detail := last_line (if strip_text stdout = [] then resolved else strip_text stdout)
                   attempts }
        else
          let said := if strip_text stderr = [] then strip_text stdout else strip_text stderr
          try_candidates machine root probe
            (attempts ++ [.probe_failed candidate (last_of 500 said)]) rest

/-- Resolve an available runtime candidate based on the contract probe. -/
def resolve_runtime (machine : Machine) (contract : Json) (root : PyStr) : Except Err Runtime :=
  let runtime := field "runtime" contract
  if (field "kind" runtime).equalsStr (lit "none") then .ok
    { status := "PASS", kind := "none", argv := []
      detail := lit "no application runtime required", attempts := [] }
  else
    let candidates := match field "candidates" runtime with
      | .list items => items.map texts
      | _ => []
    try_candidates machine root (texts (field "probe_argv" runtime)) [] candidates

end Runtime

section Check

/-- What an argument of a check stands for. -/
def format_arg (machine : Machine) (runtime : Runtime) (root arg : PyStr) :
    Except Err (List PyStr) :=
  if arg = lit "{runtime}" then .ok runtime.argv else expand_all machine root [arg]

/-- The loop of `command_argv` over the arguments. -/
def format_args (machine : Machine) (runtime : Runtime) (root : PyStr) :
    List PyStr → Except Err (List PyStr)
  | [] => .ok []
  | arg :: rest => do
    let formatted ← format_arg machine runtime root arg
    let rest ← format_args machine runtime root rest
    return formatted ++ rest

/-- Format argv array substituting {runtime} and {project_root}. -/
def command_argv (machine : Machine) (check : Json) (runtime : Runtime) (root : PyStr) :
    Except Err (List PyStr) :=
  format_args machine runtime root (texts (field "argv" check))

/-- `"\n".join(part for part in (stdout.strip(), stderr.strip()) if part)` -/
def combined (stdout stderr : PyStr) : PyStr :=
  (lit "\n").intercalate ([strip_text stdout, strip_text stderr].filter (· ≠ []))

/-- The result of a check that is not started. -/
def skipped (status : String) (name : String) (applicable : Bool) (detail : PyStr)
    (failure_kind : String) : Json :=
  .ofFields [(lit "status", .str (lit status)), (lit "name", .str (lit name)),
    (lit "executed", .bool false), (lit "applicable", .bool applicable), (lit "skipped", .bool true),
    (lit "detail", .str detail), (lit "failure_kind", .str (lit failure_kind))]

/-- The result of a check whose subprocess gives no exit code. -/
def unexecuted (name : String) (argv : List PyStr) (detail : PyStr) : Json :=
  .ofFields [(lit "status", .str (lit "FAIL")), (lit "name", .str (lit name)),
    (lit "executed", .bool false), (lit "applicable", .bool true),
    (lit "argv", .list (argv.map .str)), (lit "detail", .str detail),
    (lit "failure_kind", .str (lit "infrastructure"))]

/-- The result of a check whose subprocess ends. -/
def executed (name : String) (argv : List PyStr) (passed : Bool) (returncode : Int) (detail : PyStr) :
    Json :=
  .ofFields [(lit "status", .str (lit (if passed then "PASS" else "FAIL"))),
    (lit "name", .str (lit name)), (lit "executed", .bool true), (lit "applicable", .bool true),
    (lit "argv", .list (argv.map .str)), (lit "returncode", .int returncode),
    (lit "detail", .str detail),
    (lit "failure_kind", .str (lit (if passed then "none" else "behavioral")))]

/-- What a check does: the argv of the subprocess that it asks for, if it asks for one, and
its result. -/
structure Run where
  started : Option (List PyStr)
  result : Except Raised Json

/-- `check["timeout_seconds"]` -/
def timeout_seconds (check : Json) : Int := (field "timeout_seconds" check).exactInt?.getD 0

/-- The result of a check from what becomes of its subprocess. -/
def conclude (check : Json) (name : String) (argv : List PyStr) : Outcome → Except Raised Json
  | .raised err => .error (.error err)
  | .TimeoutExpired exc =>
    let seconds := lit (toString (timeout_seconds check))
    .ok (unexecuted name argv (lit "timeout after " ++ seconds ++ lit "s: " ++ exc))
  | .OSError exc => .ok (unexecuted name argv (lit "infrastructure error: " ++ exc))
  | .completed returncode stdout stderr =>
    let combined := combined stdout stderr
    let needle := ((field "expected_contains" check).str?).getD []
    let passed := (field "expected_exit" check).equalsInt returncode &&
      (needle == [] || decide (needle <:+: combined))
    .ok (executed name argv passed returncode (last_of 2000 combined))

/-- Run a declared preflight or verify check against project root. -/
def run_check (machine : Machine) (contract : Json) (name : String) (runtime : Runtime) (root : PyStr) :
    Run :=
  match check_applicability contract name with
  | .error e => { started := none, result := .error (.error e) }
  | .ok .NOT_APPLICABLE =>
    { started := none
      result := .ok (skipped "NOT_APPLICABLE" name false
        (lit s!"{name} explicitly not applicable by contract") "none") }
  | .ok .MISSING =>
    { started := none
      result := .ok (skipped "MISSING" name true
        (lit s!"required check '{name}' is not configured or missing") "configuration") }
  | .ok .CONFIGURED =>
    let check := field name contract
    if runtime.status ≠ "PASS" then
      { started := none
        result := .ok (skipped "FAIL" name true (lit "runtime unresolved") "infrastructure") }
    else
      match command_argv machine check runtime root with
      | .error e => { started := none, result := .error (.error e) }
      | .ok argv =>
        { started := some argv
          result := machine.run argv (timeout_seconds check) >>= conclude check name argv }

end Check

section Verdict

variable {name : String} {allow_na : Bool} {detail : PyStr} {argv : List PyStr}

theorem satisfied_not_applicable (hname : name ∈ ["preflight", "verify"]) :
    is_verification_satisfied (skipped "NOT_APPLICABLE" name false detail "none") allow_na (some name) =
      .ok allow_na := by
  rcases List.mem_pair.mp hname with rfl | rfl
  · cases allow_na <;> rfl
  · cases allow_na <;> rfl

theorem satisfied_skipped {status failure_kind : String} (hname : name ∈ ["preflight", "verify"])
    (hstatus : status ∈ ["MISSING", "FAIL"]) :
    is_verification_satisfied (skipped status name true detail failure_kind) allow_na (some name) =
      .ok false := by
  rcases List.mem_pair.mp hname with rfl | rfl
  · rcases List.mem_pair.mp hstatus with rfl | rfl
    · cases allow_na <;> rfl
    · cases allow_na <;> rfl
  · rcases List.mem_pair.mp hstatus with rfl | rfl
    · cases allow_na <;> rfl
    · cases allow_na <;> rfl

theorem satisfied_unexecuted (hname : name ∈ ["preflight", "verify"]) :
    is_verification_satisfied (unexecuted name argv detail) allow_na (some name) = .ok false := by
  rcases List.mem_pair.mp hname with rfl | rfl
  · cases allow_na <;> rfl
  · cases allow_na <;> rfl

theorem satisfied_executed {passed : Bool} {returncode : Int} (hname : name ∈ ["preflight", "verify"]) :
    is_verification_satisfied (executed name argv passed returncode detail) allow_na (some name) =
      .ok (passed && decide (returncode = 0)) := by
  have hcode : is_verification_satisfied (executed name argv true returncode detail) allow_na
      (some name) = if some returncode ≠ some 0 then .ok false else .ok true := by
    rcases List.mem_pair.mp hname with rfl | rfl
    · rfl
    · rfl
  cases passed with
  | true =>
    rw [hcode]
    by_cases hzero : returncode = 0
    · simp [hzero]
    · simp [hzero]
  | false =>
    rcases List.mem_pair.mp hname with rfl | rfl
    · cases allow_na <;> rfl
    · cases allow_na <;> rfl

end Verdict

section Accepted

variable [Platform] {contract : Json} {project_id : Option PyStr} {project_root : Option Path}
  {name : String}

/-- A check that is to run: it is declared and not marked as inapplicable. -/
def Configured (check : Json) : Prop :=
  check.isDict = true ∧ isFalse (field "applicable" check) = false

/-- What the validator has found in a contract without errors. -/
theorem accepted (h : validate_contract contract project_id project_root = .ok []) :
    Listed ALLOWED_PERMISSION_CLASSES (field "permission_class" contract) ∧
      Listed ["python", "none"] (runtime_kind contract) ∧
      ∀ name ∈ ["preflight", "verify"], Declared name contract ∧ Whole (field name contract) := by
  have hdict : contract.isDict = true := by
    cases hdict : contract.isDict with
    | true => rfl
    | false =>
      rw [validate_contract, hdict] at h
      cases h
  rw [validate_contract_nil hdict] at h
  obtain ⟨-, -, -, -, -, hclass, -, hruntime, hpreflight, hverify⟩ := h
  rw [check_runtime_nil] at hruntime
  refine ⟨member_true.mp hclass, hruntime.2.1, ?_⟩
  intro name hname
  rcases List.mem_pair.mp hname with rfl | rfl
  · exact check_declared_nil.mp hpreflight
  · exact check_declared_nil.mp hverify

/-- An accepted check has an applicability, and it is configured as its fields say. -/
theorem applicability_accepted (h : validate_contract contract project_id project_root = .ok [])
    (hname : name ∈ ["preflight", "verify"]) :
    ∃ applicability, check_applicability contract name = .ok applicability ∧
      (applicability = .CONFIGURED ↔ Configured (field name contract)) := by
  obtain ⟨hclass, -, hchecks⟩ := accepted h
  obtain ⟨⟨hsome, hcheck⟩, -⟩ := hchecks name hname
  obtain ⟨check, hfind⟩ := Option.isSome_iff_exists.mp hsome
  have hfield : field name contract = check := by
    rw [field, Value.get, hfind]
    rfl
  have hexempt : ∃ exempt, member ["docs-only", "private-structure-only"]
      (field "permission_class" contract) = .ok exempt := by
    obtain ⟨s, -, hs⟩ := hclass
    exact (member_ok _).mpr (by rw [hs]; rfl)
  obtain ⟨exempt, hexempt⟩ := hexempt
  rw [hfield] at hcheck ⊢
  rw [check_applicability, hfind]
  by_cases hexcused : (isNull check || check.isDict && isFalse (field "applicable" check)) = true
  · simp only [hexcused, if_true, hexempt]
    refine ⟨_, rfl, ?_⟩
    have hconfigured : ¬ Configured check := by
      rintro ⟨hdict, happlicable⟩
      rw [happlicable, Bool.and_false, Bool.or_false] at hexcused
      cases check with
      | null => cases hdict
      | _ => cases hexcused
    constructor
    · intro happlicability
      split at happlicability
      · cases happlicability
      · cases happlicability
    · intro hcheck'
      exact absurd hcheck' hconfigured
  · have hconfigured : Configured check := by
      rcases hcheck with rfl | ⟨hdict, -⟩
      · exact absurd rfl hexcused
      · rw [hdict, Bool.true_and, Bool.or_eq_true, not_or, Bool.not_eq_true] at hexcused
        exact ⟨hdict, eq_false_of_ne_true hexcused.2⟩
    simp only [if_neg hexcused, if_pos hconfigured.1]
    exact ⟨_, rfl, fun _ => hconfigured, fun _ => rfl⟩

omit [Platform] in
theorem int_of_exactInt {value : Json} {n : Int} (h : value.exactInt? = some n) : value = .int n := by
  cases value with
  | int m =>
    cases h
    rfl
  | _ => cases h

omit [Platform] in
/-- A runtime that is found has a program. -/
theorem try_candidates_pass {machine : Machine} {root : PyStr} {probe : List PyStr}
    {attempts : List Attempt} {candidates : List (List PyStr)} {runtime : Runtime}
    (h : try_candidates machine root probe attempts candidates = .ok runtime)
    (hpass : runtime.status = "PASS") : runtime.argv ≠ [] := by
  induction candidates generalizing attempts with
  | nil =>
    rw [try_candidates] at h
    cases h
    have hfail : "FAIL" = "PASS" := hpass
    exact absurd hfail (by decide)
  | cons raw_candidate rest ih =>
    rw [try_candidates] at h
    obtain ⟨candidate, -, h⟩ := recovery.bind_eq_ok.mp h
    obtain ⟨resolved, -, h⟩ := recovery.bind_eq_ok.mp h
    cases resolved with
    | none => exact ih h
    | some resolved =>
      obtain ⟨probe_argv, -, h⟩ := recovery.bind_eq_ok.mp h
      split at h
      · cases h
      · exact ih h
      · exact ih h
      · split at h
        · cases h
          exact List.cons_ne_nil _ _
        · exact ih h

omit [Platform] in
theorem resolve_runtime_none {machine : Machine} {root : PyStr} {runtime : Runtime}
    (h : runtime_kind contract = .str (lit "none"))
    (hresolve : resolve_runtime machine contract root = .ok runtime) :
    runtime.status = "PASS" := by
  rw [← Value.equalsStr_iff, runtime_kind] at h
  rw [resolve_runtime] at hresolve
  simp only [h, if_true] at hresolve
  cases hresolve
  rfl

omit [Platform] in
/-- A runtime that passes has a program, unless the contract needs none. -/
theorem resolve_runtime_pass {machine : Machine} {root : PyStr} {runtime : Runtime}
    (hresolve : resolve_runtime machine contract root = .ok runtime)
    (h : runtime.status = "PASS") :
    runtime.argv = [] ↔ runtime_kind contract = .str (lit "none") := by
  rw [← Value.equalsStr_iff, runtime_kind]
  rw [resolve_runtime] at hresolve
  simp only at hresolve
  split at hresolve
  · rename_i hnone
    cases hresolve
    simp [hnone]
  · rename_i hnone
    simp [hnone, try_candidates_pass hresolve h]

omit [Platform] in
/-- An argv is empty exactly where nothing but the runtime is asked for and that has no
program. -/
theorem format_args_eq_nil {machine : Machine} {runtime : Runtime} {root : PyStr}
    {args argv : List PyStr} (h : format_args machine runtime root args = .ok argv) :
    argv = [] ↔ ∀ arg ∈ args, arg = lit "{runtime}" ∧ runtime.argv = [] := by
  induction args generalizing argv with
  | nil =>
    cases h
    simp
  | cons arg args ih =>
    rw [format_args] at h
    obtain ⟨formatted, hformatted, h⟩ := recovery.bind_eq_ok.mp h
    obtain ⟨rest, hrest, h⟩ := recovery.bind_eq_ok.mp h
    cases h
    rw [List.append_eq_nil_iff, List.forall_mem_cons, ih hrest]
    refine and_congr_left fun _ => ?_
    rw [format_arg] at hformatted
    split at hformatted
    · rename_i harg
      cases hformatted
      simp [harg]
    · rename_i harg
      rw [expand_all] at hformatted
      obtain ⟨text, -, hformatted⟩ := recovery.bind_eq_ok.mp hformatted
      cases hformatted
      simp [harg]

omit [Platform] in
theorem texts_ne_nil {value : Json} (h : array_of nonempty_str value = true) : texts value ≠ [] := by
  obtain ⟨items, rfl, hne, hall⟩ := array_of_iff.mp h
  obtain ⟨item, hitem⟩ := List.exists_mem_of_ne_nil _ hne
  obtain ⟨s, rfl, -⟩ := nonempty_str_iff.mp (hall item hitem)
  exact List.ne_nil_of_mem (List.mem_filterMap.mpr ⟨_, hitem, rfl⟩)

end Accepted

section Sound

/-- The command ran, exited with 0 and printed what is expected. -/
def Passes (machine : Machine) (check : Json) (run : Run) : Prop :=
  ∃ argv, run.started = some argv ∧ ∃ stdout stderr,
    machine.outcome argv (timeout_seconds check) = .completed 0 stdout stderr ∧
      ∃ needle, field "expected_contains" check = .str needle ∧ needle <:+: combined stdout stderr

/-- A check asks for no subprocess without a program, it has a result, and the result is
satisfying exactly if the command passed or need not run. -/
structure Sound (machine : Machine) (contract : Json) (name : String) (runtime : Runtime)
    (root : PyStr) : Prop where
  started : ∀ argv, (run_check machine contract name runtime root).started = some argv → argv ≠ []
  satisfied : ∃ result, (run_check machine contract name runtime root).result = .ok result ∧
    result.isDict = true ∧ ∀ allow_na, ∃ verdict,
      is_verification_satisfied result allow_na (some name) = .ok verdict ∧
        (verdict = true ↔
          Passes machine (field name contract) (run_check machine contract name runtime root) ∨
            allow_na = true ∧ check_applicability contract name = .ok .NOT_APPLICABLE)

/-- Where no runtime is needed, a configured check has an argument other than the runtime. -/
def Runnable (contract : Json) (name : String) : Prop :=
  Configured (field name contract) → runtime_kind contract = .str (lit "none") →
    ∃ arg ∈ texts (field "argv" (field name contract)), arg ≠ lit "{runtime}"

/-- The arguments of a configured check can be expanded, and its subprocess ends, runs out
of time or cannot be started, and nothing else is raised. -/
def Answered (machine : Machine) (contract : Json) (name : String) (runtime : Runtime)
    (root : PyStr) : Prop :=
  Configured (field name contract) → runtime.status = "PASS" →
    ∃ argv, command_argv machine (field name contract) runtime root = .ok argv ∧
      ∀ err, machine.outcome argv (timeout_seconds (field name contract)) ≠ .raised err

/-- A check that is not started, with a result that satisfies nobody. -/
theorem sound_unsatisfied {machine : Machine} {contract : Json} {name : String} {runtime : Runtime}
    {root : PyStr} {applicability : Applicability} {result : Json}
    (hrun : run_check machine contract name runtime root = { started := none, result := .ok result })
    (happlicability : check_applicability contract name = .ok applicability)
    (hne : applicability ≠ .NOT_APPLICABLE)
    (hdict : result.isDict = true) (hresult : ∀ allow_na, is_verification_satisfied result allow_na (some name) = .ok false) :
    Sound machine contract name runtime root := by
  constructor
  · intro argv hargv
    rw [hrun] at hargv
    cases hargv
  · rw [hrun]
    refine ⟨result, rfl, hdict, fun allow_na => ⟨false, hresult allow_na, ?_⟩⟩
    constructor
    · intro h
      cases h
    · rintro (⟨argv, hstarted, -⟩ | ⟨-, hna⟩)
      · cases hstarted
      · rw [happlicability] at hna
        exact absurd (Except.ok.inj hna) hne

/-- A check that asks for a subprocess is sound if it has a program for it and nothing is
raised that is not caught. -/
theorem sound_started {machine : Machine} {contract : Json} {name : String} {runtime : Runtime}
    {root : PyStr} {argv : List PyStr} (hname : name ∈ ["preflight", "verify"])
    (hrun : run_check machine contract name runtime root =
      { started := some argv
        result := machine.run argv (timeout_seconds (field name contract)) >>=
          conclude (field name contract) name argv })
    (happlicability : check_applicability contract name = .ok .CONFIGURED)
    (hexit : field "expected_exit" (field name contract) = .int 0)
    (hcontains : (field "expected_contains" (field name contract)).str?.isSome = true) :
    Sound machine contract name runtime root ↔ argv ≠ [] ∧
      ∀ err, machine.outcome argv (timeout_seconds (field name contract)) ≠ .raised err := by
  have hresult (hne : argv ≠ []) : machine.run argv (timeout_seconds (field name contract)) >>=
      conclude (field name contract) name argv = conclude (field name contract) name argv
        (machine.outcome argv (timeout_seconds (field name contract))) := by
    rw [Machine.run, if_neg hne]
    rfl
  constructor
  · intro h
    have hne : argv ≠ [] := h.started argv (by rw [hrun])
    refine ⟨hne, fun err hraised => ?_⟩
    obtain ⟨result, hok, -⟩ := h.satisfied
    rw [hrun, hresult hne, hraised] at hok
    cases hok
  rintro ⟨hne, hanswered⟩
  obtain ⟨needle, hneedle⟩ := Option.isSome_iff_exists.mp hcontains
  have hpasses : Passes machine (field name contract) (run_check machine contract name runtime root) ↔
      ∃ stdout stderr, machine.outcome argv (timeout_seconds (field name contract)) =
        .completed 0 stdout stderr ∧ needle <:+: combined stdout stderr := by
    rw [hrun, Passes, Value.str?_eq_some.mp hneedle]
    simp
  have hna : check_applicability contract name ≠ .ok .NOT_APPLICABLE := by
    rw [happlicability]
    intro h
    cases h
  constructor
  · intro argv' hargv'
    rw [hrun] at hargv'
    cases hargv'
    exact hne
  · rw [hpasses, hrun, hresult hne]
    simp only [hna, and_false, or_false]
    cases houtcome : machine.outcome argv (timeout_seconds (field name contract)) with
    | raised err => exact absurd houtcome (hanswered err)
    | TimeoutExpired exc => exact ⟨_, rfl, rfl, fun _ => ⟨false, satisfied_unexecuted hname, by simp⟩⟩
    | OSError exc => exact ⟨_, rfl, rfl, fun _ => ⟨false, satisfied_unexecuted hname, by simp⟩⟩
    | completed returncode stdout stderr =>
      refine ⟨_, rfl, rfl, fun allow_na => ⟨_, satisfied_executed hname, ?_⟩⟩
      have hempty : needle = [] → needle <:+: combined stdout stderr := by
        rintro rfl
        exact List.nil_infix
      simp only [hexit, Value.equalsInt, hneedle, Option.getD_some, Bool.and_eq_true, beq_iff_eq,
        Bool.or_eq_true, decide_eq_true_eq, Outcome.completed.injEq]
      constructor
      · rintro ⟨⟨-, hcontains⟩, hzero⟩
        exact ⟨stdout, stderr, ⟨hzero, rfl, rfl⟩, hcontains.elim hempty id⟩
      · rintro ⟨_, _, ⟨hzero, rfl, rfl⟩, hcontains⟩
        exact ⟨⟨hzero.symm, .inr hcontains⟩, hzero⟩

variable [Platform] {contract : Json} {project_id : Option PyStr} {project_root : Option Path}
  {name : String}

omit [Platform] in
/-- A check that need not run by the contract is sound. -/
theorem sound_not_applicable {machine : Machine} {runtime : Runtime} {root : PyStr}
    (hname : name ∈ ["preflight", "verify"])
    (happlicability : check_applicability contract name = .ok .NOT_APPLICABLE) :
    Sound machine contract name runtime root := by
  have hrun : run_check machine contract name runtime root =
      { started := none
        result := .ok (skipped "NOT_APPLICABLE" name false
          (lit s!"{name} explicitly not applicable by contract") "none") } := by
    rw [run_check, happlicability]
  constructor
  · intro argv hargv
    rw [hrun] at hargv
    cases hargv
  · rw [hrun]
    refine ⟨_, rfl, rfl, fun allow_na => ⟨allow_na, satisfied_not_applicable hname, ?_⟩⟩
    constructor
    · intro hallow
      exact .inr ⟨hallow, happlicability⟩
    · rintro (⟨argv, hstarted, -⟩ | ⟨hallow, -⟩)
      · cases hstarted
      · exact hallow

omit [Platform] in
/-- A command whose arguments can be expanded is answered unless something is raised. -/
theorem answered_iff {machine : Machine} {runtime : Runtime} {root : PyStr} {argv : List PyStr}
    (hconfigured : Configured (field name contract)) (hstatus : runtime.status = "PASS")
    (hformat : command_argv machine (field name contract) runtime root = .ok argv) :
    Answered machine contract name runtime root ↔
      ∀ err, machine.outcome argv (timeout_seconds (field name contract)) ≠ .raised err := by
  constructor
  · intro hanswered
    obtain ⟨argv', hok, hnone⟩ := hanswered hconfigured hstatus
    rw [hformat] at hok
    cases hok
    exact hnone
  · intro hnone _ _
    exact ⟨argv, hformat, hnone⟩

omit [Platform] in
/-- A command has a program exactly where a runtime that is not needed cannot empty it. -/
theorem argv_ne_nil_iff {machine machine' : Machine} {runtime : Runtime} {root root' : PyStr}
    {argv : List PyStr} (hconfigured : Configured (field name contract))
    (hargv : array_of nonempty_str (field "argv" (field name contract)) = true)
    (hresolve : resolve_runtime machine' contract root' = .ok runtime)
    (hstatus : runtime.status = "PASS")
    (hformat : command_argv machine (field name contract) runtime root = .ok argv) :
    argv ≠ [] ↔ Runnable contract name := by
  rw [Ne, format_args_eq_nil hformat, resolve_runtime_pass hresolve hstatus]
  constructor
  · intro hsome _ hnone
    by_contra hall
    refine hsome fun arg harg => ⟨?_, hnone⟩
    by_contra hne
    exact hall ⟨arg, harg, hne⟩
  · intro hrunnable hall
    obtain ⟨arg, harg⟩ := List.exists_mem_of_ne_nil _ (texts_ne_nil hargv)
    obtain ⟨arg', harg', hne⟩ := hrunnable hconfigured (hall arg harg).2
    exact hne (hall arg' harg').1

/-- The verdict on an accepted check is sound, whatever runtime is resolved and whatever the
subprocess comes to, exactly where an argv cannot be emptied by a runtime that is not needed
and nothing is raised that is not caught. -/
theorem check_verdicts_iff (h : validate_contract contract project_id project_root = .ok [])
    (hname : name ∈ ["preflight", "verify"]) {machine machine' : Machine} {root root' : PyStr}
    {runtime : Runtime} (hresolve : resolve_runtime machine' contract root' = .ok runtime) :
    Sound machine contract name runtime root ↔
      Runnable contract name ∧ Answered machine contract name runtime root := by
  obtain ⟨-, hkind, hchecks⟩ := accepted h
  obtain ⟨⟨-, hcheck⟩, hwhole⟩ := hchecks name hname
  obtain ⟨applicability, happlicability, hconfigured⟩ := applicability_accepted h hname
  have hidle : applicability ≠ .CONFIGURED →
      Runnable contract name ∧ Answered machine contract name runtime root := by
    intro hne
    have hnot : ¬ Configured (field name contract) := fun hcheck' => hne (hconfigured.mpr hcheck')
    exact ⟨fun hcheck' => absurd hcheck' hnot, fun hcheck' => absurd hcheck' hnot⟩
  cases applicability with
  | NOT_APPLICABLE =>
    exact ⟨fun _ => hidle (by decide), fun _ => sound_not_applicable hname happlicability⟩
  | MISSING =>
    have hrun : run_check machine contract name runtime root =
        { started := none
          result := .ok (skipped "MISSING" name true
            (lit s!"required check '{name}' is not configured or missing") "configuration") } := by
      rw [run_check, happlicability]
    refine ⟨fun _ => hidle (by decide), fun _ => ?_⟩
    exact sound_unsatisfied hrun happlicability (by decide) rfl fun _ => satisfied_skipped hname (by decide)
  | CONFIGURED =>
    have hcheck' := hconfigured.mp rfl
    obtain ⟨hargv, -, hexit, hcontains⟩ := (hcheck.resolve_left (by
      intro hnull
      rw [hnull] at hcheck'
      cases hcheck'.1)).2
    by_cases hstatus : runtime.status = "PASS"
    · cases hformat : command_argv machine (field name contract) runtime root with
      | error e =>
        have hrun : run_check machine contract name runtime root =
            { started := none, result := .error (.error e) } := by
          rw [run_check, happlicability]
          simp only [hstatus, hformat, ne_eq, not_true_eq_false, if_false]
        constructor
        · intro hsound
          obtain ⟨result, hok, -⟩ := hsound.satisfied
          rw [hrun] at hok
          cases hok
        · rintro ⟨-, hanswered⟩
          obtain ⟨argv, hok, -⟩ := hanswered hcheck' hstatus
          rw [hformat] at hok
          cases hok
      | ok argv =>
        have hrun : run_check machine contract name runtime root =
            { started := some argv
              result := machine.run argv (timeout_seconds (field name contract)) >>=
                conclude (field name contract) name argv } := by
          rw [run_check, happlicability]
          simp only [hstatus, hformat, ne_eq, not_true_eq_false, if_false]
        have hzero : field "expected_exit" (field name contract) = .int 0 := by
          have hinteger := exactInt_iff.mpr ⟨(hwhole hcheck'.1).2, by rw [hexit]; rfl⟩
          exact int_of_exactInt hinteger
        rw [sound_started hname hrun happlicability hzero hcontains, answered_iff hcheck' hstatus hformat,
          argv_ne_nil_iff hcheck' hargv hresolve hstatus hformat]
    · have hrun : run_check machine contract name runtime root =
          { started := none
            result := .ok (skipped "FAIL" name true (lit "runtime unresolved") "infrastructure") } := by
        rw [run_check, happlicability]
        simp only [ne_eq, hstatus, not_false_eq_true, if_true]
      refine ⟨fun _ => ⟨fun _ hnone => ?_, fun _ h => absurd h hstatus⟩, fun _ =>
        sound_unsatisfied hrun happlicability (by decide) rfl fun _ => satisfied_skipped hname (by decide)⟩
      exact absurd (resolve_runtime_none hnone hresolve) hstatus

end Sound

section Sample

attribute [local instance] unreadable

/-- The longest timeout of a poll, in seconds. -/
def LONGEST_TIMEOUT : Int := 2147483

/-- A machine on which every program that can be started ends at once. -/
def quiet : Machine where
  expandvars value := .ok value
  is_file _ := .ok false
  which executable := some executable
  outcome argv timeout :=
    if argv.any fun arg => arg.contains (.scalar '\x00') then
      .raised (.ValueError "embedded null byte")
    else if LONGEST_TIMEOUT < timeout then
      .raised (.OverflowError "timeout is too large")
    else .completed 0 [] []

/-- A contract without a runtime whose verify has the given argv. -/
def verifying (argv : List String) : Json :=
  (docs [(lit "kind", .str (lit "none"))] "direct").set (lit "verify")
    (.ofFields [(lit "argv", .list (argv.map fun arg => .str (lit arg))),
      (lit "timeout_seconds", .int 60), (lit "expected_exit", .int 0),
      (lit "expected_contains", .str [])])

/-- The runtime of a contract that needs none. -/
def noRuntime : Runtime :=
  { status := "PASS", kind := "none", argv := [], detail := lit "no application runtime required"
    attempts := [] }

theorem make_sound :
    Sound quiet (verifying ["make"]) "verify" noRuntime (lit "/srv/docs") := by
  have hvalid : validate_contract (verifying ["make"]) none none = .ok [] := by decide +kernel
  have hresolve : resolve_runtime quiet (verifying ["make"]) (lit "/srv/docs") = .ok noRuntime := by
    decide +kernel
  refine (check_verdicts_iff hvalid (by decide) hresolve).mpr ⟨fun _ _ => ?_, fun _ _ => ?_⟩
  · exact ⟨lit "make", List.mem_cons_self, by decide⟩
  · exact ⟨[lit "make"], by decide +kernel, fun err herr => by cases herr⟩

/-- Without a runtime, an argv of the runtime alone is accepted and expands to nothing. -/
theorem runtime_unsound :
    validate_contract (verifying ["{runtime}"]) none none = .ok [] ∧
      resolve_runtime quiet (verifying ["{runtime}"]) (lit "/srv/docs") = .ok noRuntime ∧
        ¬ Sound quiet (verifying ["{runtime}"]) "verify" noRuntime (lit "/srv/docs") := by
  refine ⟨by decide +kernel, by decide +kernel, fun h => ?_⟩
  exact h.started [] rfl rfl

/-- A NUL in an argument, which a contract may have, is refused with an error that is not
caught. -/
example : (run_check quiet (verifying ["make\x00"]) "verify" noRuntime (lit "/srv/docs")).result =
    .error (.error (.ValueError "embedded null byte")) := rfl

end Sample

end jvc.contracts
