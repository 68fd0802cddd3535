import Jvc.Lib.Json
import Jvc.Lib.Lines
import Jvc.Lib.Markers
import Jvc.Policy.Capability
import Jvc.World

open json (Value)

namespace jvc.contracts

open authority (PyStr CodePoint scalars)

abbrev Json := Value PyStr

def START_MARKER : List Char := "<!-- ICM_EXECUTION_START -->".toList

def END_MARKER : List Char := "<!-- ICM_EXECUTION_END -->".toList

def ALLOWED_PERSISTENCE : List String := ["git", "onedrive", "local"]

def ALLOWED_PRIVACY : List String := ["standard", "private-content", "restricted-tooling"]

def ALLOWED_PERMISSION_CLASSES : List String := ["read-test", "private-structure-only", "docs-only"]

/-- A missing or invalid contract, or an exception of the code below. -/
inductive Failure
  | ContractError (message : String)
  | other (err : Err)
  deriving DecidableEq, Repr

/-- Parsed ICM execution contract. -/
structure ExecutionContract where
  schema_version : Json
  project_id : Json
  cwd : Json
  persistence : Json
  privacy : Json
  permission_class : Json
  runtime : Json
  preflight : Json
  verify : Json
  write_policy : Json

/-- `json.loads`, the texts of exceptions and of strings, and the normalization of
paths, which are those of the platform. A JSON document begins neither with a backtick nor
with a letter other than those of its literals. -/
class Platform where
  loads : List Char → Except Err Json
  /-- `str(exc)` -/
  exc_str : Err → String
  repr : PyStr → String
  /-- `normcase(normpath(abspath(expandvars(str(cwd)))))` -/
  declared_root : Json → String
  /-- `normcase(normpath(abspath(str(root))))` -/
  actual_root : Path → String
  loads_begins : ∀ text value, loads text = .ok value →
    ∃ c rest, text = c :: rest ∧ c ≠ '\x60' ∧ c ≠ 'j'

section Validation

def lit (s : String) : PyStr := scalars s.toList

/-- `contract.get(key)` -/
def field (key : String) (contract : Json) : Json := contract.get (lit key)

/-- `value in allowed`, where `allowed` is a set of strings. -/
def member (allowed : List String) (value : Json) : Except Err Bool :=
  if value.hashable then .ok (allowed.any fun s => value.equalsStr (lit s))
  else .error (.TypeError s!"unhashable type: '{value.typeName}'")

/-- `isinstance(value, str) and value` -/
def nonempty_str (value : Json) : Bool := value.str?.any fun s => s ≠ []

def isSpacePoint : CodePoint → Bool
  | .scalar c => isSpace c
  | .surrogate _ => false

/-- `isinstance(value, str) and value.strip()` -/
def filled_str (value : Json) : Bool := value.str?.any fun s => !s.all isSpacePoint

/-- A non-empty list whose items are all as asked. -/
def array_of (item : Json → Bool) : Json → Bool
  | .list items => !items.isEmpty && items.all item
  | _ => false

def require (holds : Bool) (error : String) : List String := if holds then [] else [error]

def check_runtime (runtime : Json) : Except Err (List String) :=
  if !runtime.isDict then .ok ["runtime.kind must be python or none"]
  else do
    let known ← member ["python", "none"] (field "kind" runtime)
    if !known then return ["runtime.kind must be python or none"]
    else if (field "kind" runtime).equalsStr (lit "python") then
      return require (array_of (array_of nonempty_str) (field "candidates" runtime))
          "python runtime.candidates must be non-empty argument arrays" ++
        require (array_of (fun arg => arg.str?.isSome) (field "probe_argv" runtime))
          "python runtime.probe_argv must be a non-empty argument array"
    else return []

/-- The checks of a declared `preflight` or `verify`. -/
def check_command (name : String) (check : Json) : List String :=
  require (array_of nonempty_str (field "argv" check)) s!"{name}.argv must be a non-empty argument array" ++
    require ((field "timeout_seconds" check).exactInt?.any fun n => 1 ≤ n)
      s!"{name}.timeout_seconds must be a positive integer" ++
    require ((field "expected_exit" check).exactInt? = some 0) s!"{name}.expected_exit must be 0" ++
    require (field "expected_contains" check).str?.isSome s!"{name}.expected_contains must be a string"

def check_declared (name : String) (contract : Json) : List String :=
  match contract.find (lit name) with
  | none => [s!"{name} must be declared in contract"]
  | some .null => []
  | some check =>
    if check.isDict then check_command name check else [s!"{name} must be an object or null"]

variable [Platform]

def check_project_id (project_id : Option PyStr) (contract : Json) : List String :=
  match project_id with
  | some expected =>
    let shown := Platform.repr expected
    require ((field "project_id" contract).equalsStr expected) s!"project_id must be {shown}"
  | none => require (nonempty_str (field "project_id" contract))
      "project_id must be a non-empty string"

def check_cwd (root : Option Path) (contract : Json) : List String :=
  match root with
  | some root =>
    let declared_root := Platform.declared_root ((contract.find (lit "cwd")).getD (.str []))
    let actual_root := Platform.actual_root root
    require (declared_root == actual_root)
      s!"cwd ({declared_root}) must equal the registered absolute project root ({actual_root})"
  | none => require (nonempty_str (field "cwd" contract)) "cwd must be a non-empty string"

/-- Validate contract structure against schema requirements. -/
def validate_contract (contract : Json) (project_id : Option PyStr) (root : Option Path) :
    Except Err (List String) :=
  if !contract.isDict then .ok ["contract must be a dict"]
  else do
    let persistence ← member ALLOWED_PERSISTENCE (field "persistence" contract)
    let privacy ← member ALLOWED_PRIVACY (field "privacy" contract)
    let permission_class ← member ALLOWED_PERMISSION_CLASSES (field "permission_class" contract)
    let runtime ← check_runtime (field "runtime" contract)
    return require ((field "schema_version" contract).exactInt? = some 1) "schema_version must be 1" ++
      check_project_id project_id contract ++
      check_cwd root contract ++
      require persistence "persistence must be git, onedrive, or local" ++
      require privacy "privacy must be standard, private-content, or restricted-tooling" ++
      require permission_class "permission_class is unsupported" ++
      require (filled_str (field "write_policy" contract)) "write_policy must be a non-empty string" ++
      runtime ++
      check_declared "preflight" contract ++
      check_declared "verify" contract

end Validation

section Extraction

/-- `read_text(encoding="utf-8-sig")`, read with universal newlines. -/
def decode_utf8_sig (data : List UInt8) : Except Err (List Char) :=
  -- The decoder waits for the rest of a byte order mark, and reads its start as no text.
  if data = [0xef] ∨ data = [0xef, 0xbb] then .ok []
  else match data.toByteArray.utf8Decode? with
    | some cs =>
      .ok (lines.translate (match cs.toList with
        | '\ufeff' :: text => text
        | text => text))
    | none => .error .UnicodeDecodeError

/-- `text.strip()` -/
def trim (text : List Char) : List Char := (strip (String.ofList text)).toList

/-- The block with its fence taken off. -/
def unfence (body : List Char) : List Char :=
  if "```json".toList.isPrefixOf body && "```".toList.isSuffixOf body then
    trim ((body.drop "```json".length).take (body.length - "```json".length - "```".length))
  else if "```".toList.isPrefixOf body && "```".toList.isSuffixOf body then
    trim ((body.drop "```".length).take (body.length - "```".length - "```".length))
  else body

/-- `text.split(START_MARKER, 1)[1].split(END_MARKER, 1)[0].strip()`, without its fence. -/
def contract_body (text : List Char) : List Char :=
  unfence (trim ((markers.split END_MARKER ((markers.split START_MARKER text).getD 1 [])).headD []))

variable [Platform]

/-- `ContractError`, if the caught exception is of the given kind. -/
def caught {α : Type} (isKind : Err → Bool) (message : String → String) :
    Except Err α → Except Failure α
  | .ok a => .ok a
  | .error e => .error (if isKind e then .ContractError (message (Platform.exc_str e)) else .other e)

/-- The second half of `load_contract`: the contract that a parsed value declares. -/
def declared_contract (value : Json) : Except Failure ExecutionContract :=
  if !value.isDict then
    .error (.ContractError "ICM execution contract must be a JSON object")
  else
    match validate_contract value none none with
    | .error e => .error (.other e)
    | .ok [] => .ok
      { schema_version := field "schema_version" value
        project_id := field "project_id" value
        cwd := field "cwd" value
        persistence := field "persistence" value
        privacy := field "privacy" value
        permission_class := field "permission_class" value
        runtime := field "runtime" value
        preflight := field "preflight" value
        verify := field "verify" value
        write_policy := field "write_policy" value }
    | .ok errors =>
      let shown := "; ".intercalate errors
      .error (.ContractError s!"invalid ICM execution contract: {shown}")

/-- Extract and parse the ICM execution contract block from an AGENTS.md file. -/
def load_contract (agents_file : Path) (content : Except Err (List UInt8)) :
    Except Failure ExecutionContract := do
  let text ← caught Err.isOSError (fun exc => s!"cannot read agents file {agents_file}: {exc}")
    (content.bind decode_utf8_sig)
  if markers.count START_MARKER text ≠ 1 ∨ markers.count END_MARKER text ≠ 1 then
    throw (.ContractError "AGENTS.md must contain exactly one ICM execution block")
  let value ← caught Err.isJSONDecodeError (fun exc => s!"invalid ICM execution JSON: {exc}")
    (Platform.loads (contract_body text))
  declared_contract value

end Extraction

end jvc.contracts
