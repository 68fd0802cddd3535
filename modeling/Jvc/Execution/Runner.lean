import Mathlib.Data.List.Infix
import Jvc.Lib.Json
import Jvc.Lib.Traverse
import Jvc.World

open json (Value)

namespace jvc.runner

abbrev Json := Value String

/-- A refusal because something drifted, or an exception of the code below. -/
inductive Raised
  | IntegrityDriftError (message : String)
  | other (err : Err)
  deriving DecidableEq, Repr

/-- What becomes of a subprocess that is started. -/
inductive Outcome
  | completed (returncode : Int) (stdout stderr : String)
  | TimeoutExpired (exc : String)
  | OSError (exc : String)
  deriving DecidableEq, Repr

/-- A machine as the runner finds it: how Python converts values, what its paths resolve to,
and its files and programs. -/
structure Machine (Bytes : Type) where
  /-- `str(value)` -/
  str : Json → String
  /-- `repr(text)` -/
  repr : String → String
  /-- `int(value)` -/
  int : Json → Except Err Int
  lower : String → String
  /-- `str(Path(text).resolve())` -/
  resolve : String → Except Err String
  /-- `str(root / relative)` -/
  join : String → String → String
  /-- `path.parent` -/
  parent : String → String
  /-- `path.relative_to(root)` succeeds -/
  is_relative_to : String → String → Bool
  is_file : String → Bool
  read_bytes : String → Except Err Bytes
  /-- `subprocess.run` of a program with its arguments -/
  outcome : List String → Outcome

/-- An entry of the trusted executables. -/
structure Trusted where
  path : Option Json
  sha256 : Option Json

/-- A check of the manifest, as the runner reads it: fields that may be missing, and the
entries of its tables or the exception that reading them raises. -/
structure Spec where
  project_id : Option Json
  check_id : Option Json
  cwd : Option Json
  executable : Option Json
  executable_path : Option Json
  executable_sha256 : Option Json
  /-- `spec.get("child_executables", {}).items()` -/
  child_executables : Except Err (List (String × Json))
  /-- `spec.get("executed_files", {}).items()` -/
  executed_files : Except Err (List (String × Json))
  /-- `list(spec.get("argv", []))` -/
  argv : Except Err (List Json)
  timeout_seconds : Option Json
  expected_exit : Option Json
  expected_contains : Option Json

/-- What is handed to the subprocess. -/
structure Command where
  executable : String
  arguments : List String
  cwd : String
  timeout : Int
  extra_paths : List String
  deriving DecidableEq, Repr

variable {Bytes : Type} [Text] [Host Bytes] (machine : Machine Bytes)

def lift {α : Type} : Except Err α → Except Raised α
  | .ok a => .ok a
  | .error e => .error (.other e)

/-- `Path(value)`, as a text -/
def path_text : Json → Except Raised String
  | .str s => .ok s
  | _ => .error (.other (.TypeError "argument should be a str or an os.PathLike object"))

/-- `str(Path(value).resolve())` -/
def resolve_value (value : Json) : Except Raised String := do
  let text ← path_text value
  lift (machine.resolve text)

def sha256_file (path : String) : Except Raised String := do
  let data ← lift (machine.read_bytes path)
  return sha256_bytes data

/-- `hmac.compare_digest`, of a digest and a text -/
def compare_digest (digest text : String) : Except Raised Bool :=
  if text.toList.all fun c => c.toNat < 128 then .ok (digest == text)
  else .error (.other
    (.TypeError "comparing strings with non-ASCII characters is not supported"))

/-- `str(name).strip().lower().removesuffix(".exe")` -/
def trusted_key (name : String) : String :=
  let key := (machine.lower (strip name)).toList
  if ".exe".toList.isSuffixOf key then String.ofList (key.take (key.length - 4)) else String.ofList key

/-- `str(spec.get(key, default)).upper()` -/
def pin (sha256 : Json) : String := Text.upper (machine.str sha256)

/-- Resolve and verify cryptographic integrity of a trusted executable. -/
def resolve_trusted_executable (trusted : String → Option Trusted) (name : String) :
    Except Raised String := do
  let key := trusted_key machine name
  match trusted key with
  | none =>
    let shown := machine.repr name
    throw (.other (.ValueError s!"executable {shown} is not in trusted executables list"))
  | some spec =>
    let path ← lift (machine.resolve (machine.str (spec.path.getD (.str ""))))
    let expected_sha256 := pin machine (spec.sha256.getD (.str ""))
    if !machine.is_file path then
      throw (.other (.OSError s!"approved executable missing: {path}"))
    if expected_sha256.length ≠ 64 then
      throw (.other (.PermissionError s!"invalid SHA-256 pin for {key}"))
    let current_sha256 ← sha256_file machine path
    let same ← compare_digest current_sha256 expected_sha256
    if !same then
      throw (.other (.PermissionError s!"approved executable integrity mismatch for {key}: expected {expected_sha256}, observed {current_sha256}"))
    return path

/-- The pins that the manifest itself gives to an executable. -/
def check_pins (exe : String) (path sha256 : Except Raised Json) (path_message hash_message : String) :
    Except Raised Unit := do
  let path ← path
  let pinned ← resolve_value machine path
  if Text.casefold exe ≠ Text.casefold pinned then throw (.IntegrityDriftError path_message)
  let observed ← sha256_file machine exe
  let sha256 ← sha256
  let same ← compare_digest observed (pin machine sha256)
  if !same then throw (.IntegrityDriftError hash_message)

/-- `child_spec[key]` -/
def entry (key : String) (child_spec : Json) : Except Raised Json :=
  if child_spec.isDict then
    match child_spec.find key with
    | some value => .ok value
    | none => .error (.other (.KeyError key))
  else .error (.other (.TypeError "string indices must be integers"))

/-- A child executable, and the folder that it adds to the path. -/
def check_child (trusted : String → Option Trusted) : String × Json → Except Raised String
  | (child_name, child_spec) => do
    let child_exe ← resolve_trusted_executable machine trusted child_name
    check_pins machine child_exe (entry "path" child_spec) (entry "sha256" child_spec)
      s!"child executable path mismatch: {child_name}" s!"child executable hash mismatch: {child_name}"
    return machine.parent child_exe

def check_file (root : String) : String × Json → Except Raised Unit
  | (relative, expected_hash) => do
    let file_target ← lift (machine.resolve (machine.join root relative))
    if !machine.is_file file_target then
      throw (.IntegrityDriftError s!"executed file missing: {relative}")
    let observed_hash ← sha256_file machine file_target
    let same ← compare_digest observed_hash (pin machine expected_hash)
    if !same then
      let expected := machine.str expected_hash
      throw (.IntegrityDriftError s!"executed file hash mismatch: {relative} (expected {expected}, observed {observed_hash})")

/-- An argument of a subprocess is a text. -/
def argument : Json → Except Raised String
  | .str s => .ok s
  | _ => .error (.other (.TypeError "expected str, bytes or os.PathLike object"))

/-- `str(check_id).lower().strip()` -/
def check_name (check_id : String) : String := strip (machine.lower check_id)

/-- `timeout or int(spec.get("timeout_seconds", 60))` -/
def seconds (spec : Spec) (timeout : Option Int) : Except Raised Int :=
  match timeout.filter (· ≠ 0) with
  | some n => .ok n
  | none => lift (machine.int (spec.timeout_seconds.getD (.int 60)))

/-- The part of `run_declared_check` before its subprocess. -/
def prepare (project_id check_id : String) (spec : Spec) (root : String)
    (trusted : String → Option Trusted) (timeout : Option Int) : Except Raised Command := do
  let cid := check_name machine check_id
  if cid ∉ ["preflight", "verify"] then
    throw (.other (.ValueError s!"unknown declared check: {cid}"))
  if spec.project_id.any (·.equalsStr project_id) && spec.check_id.any (·.equalsStr cid) then
    let spec_cwd ← resolve_value machine (spec.cwd.getD (.str ""))
    let observed ← lift (machine.resolve root)
    if observed ≠ spec_cwd then
      throw (.IntegrityDriftError s!"canonical cwd mismatch: expected {spec_cwd}, observed {observed}")
    let exe_class := machine.lower (machine.str (spec.executable.getD (.str "")))
    let exe_path ← resolve_trusted_executable machine trusted exe_class
    check_pins machine exe_path (.ok (spec.executable_path.getD (.str "")))
      (.ok (spec.executable_sha256.getD (.str ""))) "trusted executable path mismatch"
      "trusted executable hash mismatch"
    let child_executables ← lift spec.child_executables
    let child_paths ← child_executables.mapM (check_child machine trusted)
    let executed_files ← lift spec.executed_files
    forM executed_files (check_file machine root)
    let argv ← lift spec.argv
    if argv = [] then throw (.IntegrityDriftError "manifest argv is empty")
    let run_timeout ← seconds machine spec timeout
    let arguments ← argv.tail.mapM argument
    return {
      executable := exe_path, arguments, cwd := root, timeout := run_timeout
      extra_paths := machine.parent exe_path :: child_paths }
  else throw (.IntegrityDriftError "declared project/check identity mismatch")

/-- A result of a check, with the pins that its argv came with. -/
inductive Report
  | failed (project_id check_id : String) (argv : List Json) (error : String)
  | ended (project_id check_id : String) (argv : List Json) (exit_code expected_exit : Int)
      (expected_contains : Option Json) (output : String) (passed : Bool)

/-- The part of `run_declared_check` behind its subprocess. -/
def conclude (project_id cid : String) (spec : Spec) (timeout : Int) :
    Outcome → Except Raised Report
  | .TimeoutExpired exc =>
    .ok (.failed project_id cid (spec.argv.toOption.getD []) s!"timeout after {timeout}s: {exc}")
  | .OSError exc =>
    .ok (.failed project_id cid (spec.argv.toOption.getD []) s!"execution failed: {exc}")
  | .completed returncode stdout stderr => do
    let output := stdout ++ stderr
    let expected_exit ← lift (machine.int (spec.expected_exit.getD (.int 0)))
    let marked := match spec.expected_contains with
      | none | some .null => true
      | some marker => decide ((machine.str marker).toList <:+: output.toList)
    return .ended project_id cid (spec.argv.toOption.getD []) returncode expected_exit
      spec.expected_contains (String.ofList (output.toList.drop (output.length - 12000)))
      (returncode == expected_exit && marked)

/-- What a check does: the subprocess that it launches, if it does, and its result. -/
structure Run where
  launched : Option Command
  result : Except Raised Report

/-- Execute a cryptographically pinned declared check. -/
def run_declared_check (project_id check_id : String) (spec : Spec) (root : String)
    (trusted : String → Option Trusted) (timeout : Option Int) : Run :=
  match prepare machine project_id check_id spec root trusted timeout with
  | .error e => { launched := none, result := .error e }
  | .ok command =>
    { launched := some command
      result := conclude machine project_id (check_name machine check_id) spec command.timeout
        (machine.outcome (command.executable :: command.arguments)) }

section Pins

/-- The file has the digest that a pin asks for. -/
def Matches (path : String) (sha256 : Json) : Prop :=
  ∃ data, machine.read_bytes path = .ok data ∧ sha256_bytes data = pin machine sha256 ∧
    (pin machine sha256).toList.all (fun c => c.toNat < 128) = true

/-- An entry of the trusted executables, with the file that it pins. -/
def TrustedAt (trusted : String → Option Trusted) (name exe : String) : Prop :=
  ∃ spec, trusted (trusted_key machine name) = some spec ∧
    machine.resolve (machine.str (spec.path.getD (.str ""))) = .ok exe ∧
    machine.is_file exe = true ∧ (pin machine (spec.sha256.getD (.str ""))).length = 64 ∧
    Matches machine exe (spec.sha256.getD (.str ""))

/-- An executable that both tables pin, their paths being the same in a sense. -/
def Pinned (same : String → String → Prop) (trusted : String → Option Trusted) (name : String)
    (path sha256 : Json) (exe : String) : Prop :=
  TrustedAt machine trusted name exe ∧
    (∃ text pinned, path = .str text ∧ machine.resolve text = .ok pinned ∧ same exe pinned) ∧
    Matches machine exe sha256

variable {machine} {trusted : String → Option Trusted} {name exe : String}

open traverse

omit [Text] in
theorem lift_ok {α : Type} {x : Except Err α} {a : α} : lift x = .ok a ↔ x = .ok a := by
  cases x <;> simp [lift]

theorem sha256_file_ok {path digest : String} : sha256_file machine path = .ok digest ↔
    ∃ data, machine.read_bytes path = .ok data ∧ sha256_bytes data = digest := by
  simp only [sha256_file, bind_ok, lift_ok, pure_ok]

omit [Text] in
theorem compare_digest_true {digest text : String} : compare_digest digest text = .ok true ↔
    digest = text ∧ text.toList.all (fun c => c.toNat < 128) = true := by
  rw [compare_digest]
  split
  · rename_i h
    simp [h]
  · rename_i h
    simp [h]

/-- The comparison of a file with a pin, as the runner makes it. -/
theorem matches_iff {path : String} {sha256 : Json} : (∃ digest, sha256_file machine path = .ok digest ∧
    compare_digest digest (pin machine sha256) = .ok true) ↔ Matches machine path sha256 := by
  simp only [sha256_file_ok, compare_digest_true, Matches]
  constructor
  · rintro ⟨digest, ⟨data, hdata, rfl⟩, hpin, hplain⟩
    exact ⟨data, hdata, hpin, hplain⟩
  · rintro ⟨data, hdata, hpin, hplain⟩
    exact ⟨_, ⟨data, hdata, rfl⟩, hpin, hplain⟩

theorem resolve_trusted_executable_ok :
    resolve_trusted_executable machine trusted name = .ok exe ↔ TrustedAt machine trusted name exe := by
  rw [resolve_trusted_executable, TrustedAt]
  cases trusted (trusted_key machine name) with
  | none => simp [throw, throwThe, MonadExceptOf.throw]
  | some spec =>
    simp only [bind_ok, guard_ok, lift_ok, pure_ok, Bool.not_eq_true', Bool.not_eq_false,
      ne_eq, not_not, Option.some.injEq, exists_eq_left', ← matches_iff]
    constructor
    · rintro ⟨path, hresolve, hfile, hlength, digest, hdigest, b, hsame, rfl, rfl⟩
      exact ⟨hresolve, hfile, hlength, digest, hdigest, hsame⟩
    · rintro ⟨hresolve, hfile, hlength, digest, hdigest, hsame⟩
      exact ⟨exe, hresolve, hfile, hlength, digest, hdigest, true, hsame, rfl, rfl⟩

omit [Text] in
theorem resolve_value_ok {value : Json} {path : String} : resolve_value machine value = .ok path ↔
    ∃ text, value = .str text ∧ machine.resolve text = .ok path := by
  simp only [resolve_value, bind_ok, lift_ok]
  cases value <;> simp [path_text]

theorem check_pins_ok {path sha256 : Except Raised Json} {path_message hash_message : String}
    {done : Unit} : check_pins machine exe path sha256 path_message hash_message = .ok done ↔
      ∃ path' sha256', path = .ok path' ∧ sha256 = .ok sha256' ∧
        (∃ text pinned, path' = .str text ∧ machine.resolve text = .ok pinned ∧
          Text.casefold exe = Text.casefold pinned) ∧ Matches machine exe sha256' := by
  simp only [check_pins, bind_ok, guard_ok, last_guard_ok, resolve_value_ok, ← matches_iff, ne_eq, not_not]
  constructor
  · rintro ⟨path', hpath, pinned, ⟨text, htext, hpinned⟩, hsame, digest, hdigest, sha256', hsha, b,
      hcompare, hb⟩
    cases b with
    | true => exact ⟨path', sha256', hpath, hsha, ⟨text, pinned, htext, hpinned, hsame⟩, digest,
        hdigest, hcompare⟩
    | false => exact absurd rfl hb
  · rintro ⟨path', sha256', hpath, hsha, ⟨text, pinned, htext, hpinned, hsame⟩, digest, hdigest,
      hcompare⟩
    exact ⟨path', hpath, pinned, ⟨text, htext, hpinned⟩, hsame, digest, hdigest, sha256', hsha, true,
      hcompare, Bool.false_ne_true⟩

omit [Text] in
theorem entry_ok {key : String} {child_spec value : Json} :
    entry key child_spec = .ok value ↔ child_spec.find key = some value := by
  cases child_spec with
  | dict fields =>
    simp only [entry, Value.isDict, Value.find, if_true]
    cases fields key <;> simp
  | _ => simp [entry, Value.isDict, Value.find]

/-- Paths that `run_declared_check` takes for the same. -/
def SameFolded (a b : String) : Prop := Text.casefold a = Text.casefold b

/-- The pins of a child executable, their paths being the same in a sense. -/
def ChildPinned (machine : Machine Bytes) (same : String → String → Prop)
    (trusted : String → Option Trusted) (item : String × Json) : Prop :=
  ∃ path sha256 exe, item.2.find "path" = some path ∧ item.2.find "sha256" = some sha256 ∧
    Pinned machine same trusted item.1 path sha256 exe

theorem check_child_ok {item : String × Json} : (∃ parent, check_child machine trusted item = .ok parent) ↔
    ChildPinned machine SameFolded trusted item := by
  obtain ⟨child_name, child_spec⟩ := item
  simp only [check_child, bind_ok, resolve_trusted_executable_ok, check_pins_ok, entry_ok, pure_ok,
    ChildPinned, Pinned]
  constructor
  · rintro ⟨parent, exe, htrusted, -, ⟨path, sha256, hpath, hsha, hpinned, hmatches⟩, -⟩
    exact ⟨path, sha256, exe, hpath, hsha, htrusted, hpinned, hmatches⟩
  · rintro ⟨path, sha256, exe, hpath, hsha, htrusted, hpinned, hmatches⟩
    exact ⟨machine.parent exe, exe, htrusted, (), ⟨path, sha256, hpath, hsha, hpinned, hmatches⟩, rfl⟩

/-- A file of the manifest has its pinned digest. -/
def FilePinned (machine : Machine Bytes) (root : String) (item : String × Json) : Prop :=
  ∃ path, machine.resolve (machine.join root item.1) = .ok path ∧ machine.is_file path = true ∧
    Matches machine path item.2

theorem check_file_ok {root : String} {item : String × Json} :
    check_file machine root item = .ok () ↔ FilePinned machine root item := by
  obtain ⟨relative, expected_hash⟩ := item
  simp only [check_file, bind_ok, guard_ok, last_guard_ok, lift_ok, FilePinned, ← matches_iff]
  constructor
  · rintro ⟨path, hpath, hfile, digest, hdigest, b, hcompare, hb⟩
    cases b with
    | true => exact ⟨path, hpath, by simpa using hfile, digest, hdigest, hcompare⟩
    | false => exact absurd rfl hb
  · rintro ⟨path, hpath, hfile, digest, hdigest, hcompare⟩
    exact ⟨path, hpath, by simpa using hfile, digest, hdigest, true, hcompare, Bool.false_ne_true⟩

omit [Text] in
theorem argument_ok {value : Json} {text : String} : argument value = .ok text ↔ value = .str text := by
  cases value <;> simp [argument]

end Pins

section Launch

open traverse

variable {machine} {project_id check_id : String} {spec : Spec} {root : String}
  {trusted : String → Option Trusted} {timeout : Option Int}

/-- The check is the one that the manifest describes, in its folder, with every pin of both
tables, the paths of an executable being the same in a sense. -/
structure Checked (machine : Machine Bytes) (same : String → String → Prop)
    (project_id check_id : String) (spec : Spec) (root : String)
    (trusted : String → Option Trusted) (exe : String) : Prop where
  known : check_name machine check_id ∈ ["preflight", "verify"]
  project_id : spec.project_id = some (.str project_id)
  check_id : spec.check_id = some (.str (check_name machine check_id))
  cwd : ∃ text path, spec.cwd.getD (.str "") = .str text ∧ machine.resolve text = .ok path ∧
    machine.resolve root = .ok path
  executable : Pinned machine same trusted
    (machine.lower (machine.str (spec.executable.getD (.str ""))))
    (spec.executable_path.getD (.str "")) (spec.executable_sha256.getD (.str "")) exe
  child_executables : ∃ items, spec.child_executables = .ok items ∧
    ∀ item ∈ items, ChildPinned machine same trusted item
  executed_files : ∃ items, spec.executed_files = .ok items ∧
    ∀ item ∈ items, FilePinned machine root item

/-- There is a command to run, of texts, and a time for it. -/
structure Startable (machine : Machine Bytes) (spec : Spec) (timeout : Option Int) : Prop where
  argv : ∃ argv, spec.argv = .ok argv ∧ argv ≠ [] ∧ ∀ arg ∈ argv.tail, ∃ text, arg = .str text
  seconds : ∃ n, seconds machine spec timeout = .ok n

theorem prepare_ok {exe : String} :
    (∃ command, prepare machine project_id check_id spec root trusted timeout = .ok command ∧
      command.executable = exe) ↔
        Checked machine SameFolded project_id check_id spec root trusted exe ∧
          Startable machine spec timeout := by
  have hidentity : (spec.project_id.any (·.equalsStr project_id) &&
      spec.check_id.any (·.equalsStr (check_name machine check_id))) = true ↔
        spec.project_id = some (.str project_id) ∧
          spec.check_id = some (.str (check_name machine check_id)) := by
    simp [Option.any_eq_true, Value.equalsStr_iff]
  simp only [prepare, guard_ok]
  split
  · rename_i h
    simp only [bind_ok, guard_ok, lift_ok, pure_ok, resolve_value_ok, resolve_trusted_executable_ok,
      check_pins_ok, forM_ok_iff, check_file_ok, ne_eq, not_not, Except.ok.injEq]
    constructor
    · rintro ⟨_, ⟨hknown, folder, ⟨text, htext, hfolder⟩, _, hroot, rfl, exe', htrusted, -,
        ⟨_, _, rfl, rfl, hpinned, hmatches⟩, children, hchildren, paths, hpaths, files, hfiles, -,
        hpins, argv, hargv, hne, n, hn, arguments, harguments, rfl⟩, rfl⟩
      have hitems := mapM_ok_iff.mp ⟨paths, hpaths⟩
      have htexts := mapM_ok_iff.mp ⟨arguments, harguments⟩
      simp only [check_child_ok] at hitems
      simp only [argument_ok] at htexts
      exact ⟨⟨hknown, (hidentity.mp h).1, (hidentity.mp h).2, ⟨text, _, htext, hfolder, hroot⟩,
        ⟨htrusted, hpinned, hmatches⟩, ⟨children, hchildren, hitems⟩, ⟨files, hfiles, hpins⟩⟩,
        ⟨⟨argv, hargv, hne, htexts⟩, ⟨n, hn⟩⟩⟩
    · rintro ⟨⟨hknown, -, -, ⟨text, folder, htext, hfolder, hroot⟩, ⟨htrusted, hpinned, hmatches⟩,
        ⟨children, hchildren, hitems⟩, ⟨files, hfiles, hpins⟩⟩, ⟨argv, hargv, hne, htexts⟩, n, hn⟩
      simp only [← check_child_ok] at hitems
      simp only [← argument_ok] at htexts
      obtain ⟨paths, hpaths⟩ := mapM_ok_iff.mpr hitems
      obtain ⟨arguments, harguments⟩ := mapM_ok_iff.mpr htexts
      exact ⟨_, ⟨hknown, folder, ⟨text, htext, hfolder⟩, folder, hroot, rfl, exe, htrusted, (),
        ⟨_, _, rfl, rfl, hpinned, hmatches⟩, children, hchildren, paths, hpaths, files, hfiles, (),
        hpins, argv, hargv, hne, n, hn, arguments, harguments, rfl⟩, rfl⟩
  · rename_i h
    constructor
    · rintro ⟨command, ⟨-, hcommand⟩, -⟩
      cases hcommand
    · rintro ⟨hchecked, -⟩
      exact absurd (hidentity.mpr ⟨hchecked.project_id, hchecked.check_id⟩) h

/-- Every argument behind the first that names a file under the root names one whose digest
the manifest pins. -/
def Covered (machine : Machine Bytes) (spec : Spec) (root : String) : Prop :=
  ∀ argv, spec.argv = .ok argv → ∀ files, spec.executed_files = .ok files →
    ∀ arg ∈ argv.tail, ∀ text, arg = .str text → ∀ path folder,
      machine.resolve (machine.join root text) = .ok path → machine.is_file path = true →
        machine.resolve root = .ok folder → machine.is_relative_to path folder = true →
          ∃ item ∈ files, machine.resolve (machine.join root item.1) = .ok path

/-- A check launches nothing but what both tables pin, or it raises. -/
structure Secure (machine : Machine Bytes) (project_id check_id : String) (spec : Spec) (root : String)
    (trusted : String → Option Trusted) (timeout : Option Int) : Prop where
  launched : ∀ command,
    (run_declared_check machine project_id check_id spec root trusted timeout).launched = some command →
      Checked machine Eq project_id check_id spec root trusted command.executable ∧
        Covered machine spec root
  raised : (run_declared_check machine project_id check_id spec root trusted timeout).launched = none →
    ∃ e, (run_declared_check machine project_id check_id spec root trusted timeout).result = .error e

/-- The path that the manifest pins for an executable is the one that the other table pins, if
they are one but for case. -/
def Spelled (machine : Machine Bytes) (trusted : String → Option Trusted) (name : String)
    (path : Json) : Prop :=
  ∀ exe text pinned, TrustedAt machine trusted name exe → path = .str text →
    machine.resolve text = .ok pinned → SameFolded exe pinned → exe = pinned

/-- Both tables spell the paths of the executables alike. -/
structure Alike (machine : Machine Bytes) (spec : Spec) (trusted : String → Option Trusted) : Prop where
  executable : Spelled machine trusted (machine.lower (machine.str (spec.executable.getD (.str ""))))
    (spec.executable_path.getD (.str ""))
  child_executables : ∀ items, spec.child_executables = .ok items → ∀ item ∈ items,
    ∀ path, item.2.find "path" = some path → Spelled machine trusted item.1 path

theorem trustedAt_unique {name exe exe' : String} (h : TrustedAt machine trusted name exe)
    (h' : TrustedAt machine trusted name exe') : exe = exe' := by
  obtain ⟨entry, hentry, hresolve, -⟩ := h
  obtain ⟨entry', hentry', hresolve', -⟩ := h'
  rw [hentry] at hentry'
  cases hentry'
  rw [hresolve] at hresolve'
  exact Except.ok.inj hresolve'

theorem spelled_of_pinned {name exe : String} {path sha256 : Json}
    (h : Pinned machine Eq trusted name path sha256 exe) : Spelled machine trusted name path := by
  intro exe' text pinned htrusted htext hpinned _
  obtain ⟨htrusted', ⟨text', pinned', htext', hpinned', rfl⟩, -⟩ := h
  rw [htext] at htext'
  cases htext'
  rw [hpinned] at hpinned'
  cases hpinned'
  exact trustedAt_unique htrusted htrusted'

theorem pinned_of_spelled {name exe : String} {path sha256 : Json}
    (h : Pinned machine SameFolded trusted name path sha256 exe)
    (hspelled : Spelled machine trusted name path) : Pinned machine Eq trusted name path sha256 exe := by
  obtain ⟨htrusted, ⟨text, pinned, htext, hpinned, hsame⟩, hmatches⟩ := h
  exact ⟨htrusted, ⟨text, pinned, htext, hpinned, hspelled exe text pinned htrusted htext hpinned hsame⟩,
    hmatches⟩

theorem launched_iff {command : Command} :
    (run_declared_check machine project_id check_id spec root trusted timeout).launched = some command ↔
      prepare machine project_id check_id spec root trusted timeout = .ok command := by
  rw [run_declared_check]
  cases prepare machine project_id check_id spec root trusted timeout with
  | error e => simp
  | ok command' => simp

/-- The runner is secure exactly where a check that has its pins spells its paths as the trusted
table does and pins every file that its arguments name. -/
theorem secure_iff (machine : Machine Bytes) (project_id check_id : String) (spec : Spec)
    (root : String) (trusted : String → Option Trusted) (timeout : Option Int) :
    Secure machine project_id check_id spec root trusted timeout ↔
      ((∃ exe, Checked machine SameFolded project_id check_id spec root trusted exe) →
        Startable machine spec timeout → Alike machine spec trusted ∧ Covered machine spec root) := by
  constructor
  · rintro h ⟨exe, hchecked⟩ hstartable
    obtain ⟨command, hcommand, -⟩ := prepare_ok.mpr ⟨hchecked, hstartable⟩
    obtain ⟨hsame, hcovered⟩ := h.launched command (launched_iff.mpr hcommand)
    refine ⟨⟨spelled_of_pinned hsame.executable, fun items hitems item hitem path hpath => ?_⟩, hcovered⟩
    obtain ⟨items', hitems', hpinned⟩ := hsame.child_executables
    rw [hitems] at hitems'
    cases hitems'
    obtain ⟨path', sha256, exe', hpath', -, hchild⟩ := hpinned item hitem
    rw [hpath] at hpath'
    cases hpath'
    exact spelled_of_pinned hchild
  · intro h
    constructor
    · intro command hcommand
      obtain ⟨hchecked, hstartable⟩ := prepare_ok.mp ⟨command, launched_iff.mp hcommand, rfl⟩
      obtain ⟨halike, hcovered⟩ := h ⟨_, hchecked⟩ hstartable
      obtain ⟨items, hitems, hpinned⟩ := hchecked.child_executables
      refine ⟨{ hchecked with
        executable := pinned_of_spelled hchecked.executable halike.executable
        child_executables := ⟨items, hitems, fun item hitem => ?_⟩ }, hcovered⟩
      obtain ⟨path, sha256, exe, hpath, hsha, hchild⟩ := hpinned item hitem
      exact ⟨path, sha256, exe, hpath, hsha,
        pinned_of_spelled hchild (halike.child_executables items hitems item hitem path hpath)⟩
    · intro hlaunched
      rw [run_declared_check] at hlaunched ⊢
      split at hlaunched
      · rename_i e _
        exact ⟨e, rfl⟩
      · cases hlaunched

end Launch

end jvc.runner

namespace jvc.runner

section Sample

def zeros : String := "0000000000000000000000000000000000000000000000000000000000000000"

attribute [local instance] asciiText

/-- A host on which every file has one digest. -/
@[reducible]
def zeroHost : Host (Option recovery.Dict) where
  sha256_bytes _ := zeros
  size _ := 0
  loads
    | some data => .ok (.obj data)
    | none => .error .JSONDecodeError
  dumps := some
  cwd := "/"
  loads_dumps _ := rfl
  loads_error b e h := by
    cases b with
    | none =>
      cases h
      exact ⟨rfl, rfl⟩
    | some data => cases h
  upper_sha256 _ := by decide +kernel
  strip_sha256 _ := by decide +kernel
  sha256_ne_empty _ := by decide
  sha256_ne_absent _ := by decide
  size_lt _ := by decide

attribute [local instance] zeroHost

/-- A machine with every file, and texts that are in lower case. -/
def fullMachine : Machine (Option recovery.Dict) where
  str
    | .str s => s
    | _ => ""
  repr text := text
  int
    | .int n => .ok n
    | _ => .error (.TypeError "int() argument must be a string or a real number")
  lower text := text
  resolve text := .ok text
  join root relative := root ++ "/" ++ relative
  parent path := path
  is_relative_to path root := root.toList.isPrefixOf path.toList
  is_file _ := true
  read_bytes _ := .ok none
  outcome _ := .completed 0 "" ""

/-- A check of a script that is not among its executed files. -/
def scriptSpec : Spec where
  project_id := some (.str "app")
  check_id := some (.str "verify")
  cwd := some (.str "/srv/app")
  executable := some (.str "python")
  executable_path := some (.str "/usr/bin/python")
  executable_sha256 := some (.str zeros)
  child_executables := .ok []
  executed_files := .ok []
  argv := .ok [.str "python", .str "check.py"]
  timeout_seconds := none
  expected_exit := none
  expected_contains := none

def pythonOnly (key : String) : Option Trusted :=
  if key = "python" then some ⟨some (.str "/usr/bin/python"), some (.str zeros)⟩ else none

theorem python_trusted : TrustedAt fullMachine pythonOnly "python" "/usr/bin/python" := by
  have hpin : pin fullMachine (.str zeros) = zeros := zeroHost.upper_sha256 none
  have hkey : trusted_key fullMachine "python" = "python" := by decide +kernel
  refine ⟨⟨some (.str "/usr/bin/python"), some (.str zeros)⟩, ?_, rfl, rfl, ?_, none, rfl, hpin.symm, ?_⟩
  · rw [hkey]
    rfl
  · rw [Option.getD_some, hpin]
    rfl
  · rw [Option.getD_some, hpin]
    decide

theorem script_checked :
    Checked fullMachine SameFolded "app" "verify" scriptSpec "/srv/app" pythonOnly "/usr/bin/python" := by
  have hverify : check_name fullMachine "verify" = "verify" := by decide +kernel
  refine ⟨?_, rfl, ?_, ⟨"/srv/app", "/srv/app", rfl, rfl, rfl⟩, ⟨python_trusted, ?_, ?_⟩, ⟨[], rfl, ?_⟩,
    ⟨[], rfl, ?_⟩⟩
  · rw [hverify]
    decide
  · rw [hverify]
    rfl
  · exact ⟨"/usr/bin/python", "/usr/bin/python", rfl, rfl, rfl⟩
  · obtain ⟨spec, hspec, -, -, -, hmatches⟩ := python_trusted
    have hkey : trusted_key fullMachine "python" = "python" := by decide +kernel
    rw [hkey] at hspec
    cases hspec
    exact hmatches
  · intro item hitem
    cases hitem
  · intro item hitem
    cases hitem

/-- The script runs, whatever it contains. -/
theorem script_unpinned : ¬ Secure fullMachine "app" "verify" scriptSpec "/srv/app" pythonOnly none := by
  intro h
  have hstartable : Startable fullMachine scriptSpec none := by
    refine ⟨⟨[.str "python", .str "check.py"], rfl, by simp, fun arg harg => ?_⟩, 60, rfl⟩
    rw [List.mem_singleton.mp harg]
    exact ⟨"check.py", rfl⟩
  obtain ⟨command, hcommand, -⟩ := prepare_ok.mpr ⟨script_checked, hstartable⟩
  have hcovered := (h.launched command (launched_iff.mpr hcommand)).2
  obtain ⟨item, hitem, -⟩ := hcovered _ rfl [] rfl (.str "check.py") List.mem_cons_self "check.py" rfl
    "/srv/app/check.py" "/srv/app" (by decide +kernel) rfl rfl (by decide +kernel)
  cases hitem

end Sample

end jvc.runner
