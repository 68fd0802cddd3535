import Jvc.Contracts.Contract
import Jvc.Policy.Guard

open json (Value)
open program

namespace jvc.prewrite

open authority (PyStr CodePoint characters)
open contracts (Json lit field member filled_str)
open guard (Failure Lifecycle LIFECYCLE_STATES VALID_TRANSITIONS SCHEMA_VERSION check_output_path
  normalize_intents)

abbrev Guarded (Bytes α : Type) := Prog (Op Bytes) Op.Res Failure α

/-- The texts of values, times and identifiers, and what becomes of a path with a lone
surrogate in it, which only a manifest that others wrote can have. -/
class Texts where
  /-- `f"{value}"` -/
  shown : Json → String
  /-- `str(exc)` -/
  exc_str : Err → String
  isoformat : Int → String
  uuid4 : List UInt8 → String
  surrogate_target : Path → PyStr → Except Err (Path × PyStr)
  surrogate_secret : PyStr → Bool
  surrogate_control : PyStr → Bool

/-- JSON files of the guard as they are read and written. What was written is read back, and
a digest has 64 characters. -/
class Artifacts (Bytes : Type) [Text] [Host Bytes] where
  empty : Bytes
  /-- `json.loads(path.read_text(encoding="utf-8-sig"))` on the bytes of the file -/
  loads : Bytes → Except Err Json
  /-- `canonical_json(value) + b"\n"`, if no string of it has a lone surrogate -/
  canonical_json : Json → Option Bytes
  /-- `json.dumps(value, indent=2, ensure_ascii=False) + "\n"`, likewise -/
  dumps : Json → Option Bytes
  loads_canonical_json : ∀ value data, canonical_json value = some data → loads data = .ok value
  loads_dumps : ∀ value data, dumps value = some data → loads data = .ok value
  length_sha256 : ∀ data : Bytes, (sha256_bytes data).length = 64

section Paths

variable [Text] [Texts]

/-- `canonical_target(self.root, raw_path)` -/
def target (root : Path) (raw_path : PyStr) : Except Err (Path × PyStr) :=
  match characters raw_path with
  | some cs => (policy.canonical_target root (String.ofList cs)).map fun found => (found.1, lit found.2)
  | none => Texts.surrogate_target root raw_path

/-- `is_secret_path(canonical_rel)` -/
def secret (canonical_rel : PyStr) : Bool :=
  match characters canonical_rel with
  | some cs => policy.is_secret_path (String.ofList cs)
  | none => Texts.surrogate_secret canonical_rel

/-- `is_control_plane_path(canonical_rel)` -/
def control (canonical_rel : PyStr) : Bool :=
  match characters canonical_rel with
  | some cs => policy.is_control_plane_path (String.ofList cs)
  | none => Texts.surrogate_control canonical_rel

end Paths

section Validation

variable [Text] [Texts]

/-- `isinstance(value, str) and len(value) == 64` -/
def is_hash (value : Json) : Bool := value.str?.any fun s => s.length == 64

/-- The checks of `expected_state` and of the preimage that goes with it. -/
def check_preimage (shown : String) (entry : Json) : Except Failure Unit :=
  match member ["present", "absent"] (field "expected_state" entry) with
  | .error err => .error (.other err)
  | .ok known =>
    if !known then .error (.GuardError s!"unsupported expected_state for {shown}")
    else if (field "expected_state" entry).equalsStr (lit "present") then
      if !is_hash (field "sha256" entry) then
        .error (.GuardError s!"present entry lacks a SHA-256 preimage: {shown}")
      else if !(field "byte_length" entry).int?.any fun n => 0 ≤ n then
        .error (.GuardError s!"present entry lacks a byte length: {shown}")
      else .ok ()
    else if (entry.find (lit "sha256")).isSome || (entry.find (lit "byte_length")).isSome then
      .error (.GuardError s!"absent entry cannot contain a preimage: {shown}")
    else .ok ()

/-- A missing hash and a hash that is null are taken for the same. -/
def check_expected (shown : String) (entry : Json) : Except Failure Unit :=
  match field "expected_sha256" entry with
  | .null => .ok ()
  | expected =>
    if is_hash expected then .ok ()
    else .error (.GuardError s!"entry has an invalid expected post-write SHA-256: {shown}")

/-- The checks of one entry, given the canonical paths before it. -/
def check_entry (root : Path) (seen : List PyStr) (entry : Json) : Except Failure (List PyStr) :=
  let shown := Texts.shown (field "path" entry)
  if !entry.isDict then .error (.GuardError "guard manifest entries must be objects")
  else if !filled_str (field "path" entry) then
    .error (.GuardError "guard manifest entry path is required")
  else match target root ((field "path" entry).str?.getD []) with
    | .error err => .error (.other err)
    | .ok (_, canonical_rel) =>
      if canonical_rel ∈ seen then .error (.GuardError s!"duplicate guard path: {shown}")
      else if secret canonical_rel then
        .error (.GuardError s!"secret path present in guard manifest: {shown}")
      else if control canonical_rel then
        .error (.GuardError s!"control plane path present in guard manifest: {shown}")
      else do
        check_preimage shown entry
        check_expected shown entry
        return canonical_rel :: seen

def check_entries (root : Path) : List PyStr → List Json → Except Failure Unit
  | _, [] => .ok ()
  | seen, entry :: rest => do
    let seen ← check_entry root seen entry
    check_entries root seen rest

/-- The check that a strict-write manifest past its proposal has bound its intent. -/
def check_intent (manifest : Json) (entries : List Json) : Except Failure Unit :=
  if !(field "guard_mode" manifest).equalsStr (lit "strict-write") then .ok ()
  else match member ["approved", "applied", "verified"] (field "lifecycle_state" manifest) with
    | .error err => .error (.other err)
    | .ok under_way =>
      if !under_way then .ok ()
      else if !(field "intent_state" manifest).equalsStr (lit "bound") then
        .error (.GuardError "strict-write manifest requires a bound post-write intent")
      else if entries.any fun entry => (entry.find (lit "expected_sha256")).isNone then
        .error (.GuardError "strict-write manifest entries must bind expected post-write hashes")
      else .ok ()

/-- `_validate_entries` -/
def validate_entries (root : Path) (manifest : Json) : Except Failure (List Json) :=
  if !(field "schema_version" manifest).equalsInt SCHEMA_VERSION then
    .error (.GuardError "unsupported guard manifest schema_version")
  else match field "entries" manifest with
    | .list (entry :: rest) => do
      check_entries root [] (entry :: rest)
      check_intent manifest (entry :: rest)
      return entry :: rest
    | _ => .error (.GuardError "guard manifest entries must be a non-empty array")

end Validation

section Files

variable {Bytes : Type}

/-- An operation of the host: its exceptions are no `GuardError`. -/
def os {α : Type} : Jvc Bytes α → Guarded Bytes α
  | .ret a => .ret a
  | .fail err => .fail (.other err)
  | .act op k => .act op fun r => os (k r)

def exists_path (p : Path) : Jvc Bytes Bool := do
  let directory ← is_dir p
  if directory then pure true else is_file p

def write_bytes (p : Path) (data : Bytes) : Jvc Bytes Unit := .act (.put p data) .ret

variable [Texts]

def utc_now : Jvc Bytes String := do
  let ns ← time_ns
  pure (Texts.isoformat ns)

/-- `except (OSError, json.JSONDecodeError)` in `_read_json` -/
def unreadable (path : Path) (err : Err) : Failure :=
  let exc := Texts.exc_str err
  if err.isOSError || err.isJSONDecodeError then
    .GuardError s!"cannot read guard manifest {path}: {exc}"
  else .other err

variable [Text] [Host Bytes] [Artifacts Bytes]

/-- `_read_json` -/
def read_json (path : Path) : Guarded Bytes Json := do
  let data ← Prog.act (.read_bytes path) fun
    | some data => .ret data
    | none => .fail (unreadable path (.OSError s!"[Errno 2] No such file or directory: '{path}'"))
  match Artifacts.loads data with
  | .error err => throw (unreadable path err)
  | .ok value =>
    if value.isDict then pure value
    else throw (.GuardError s!"guard manifest must contain an object: {path}")

/-- `_write_new_json`: the file is opened before its text is encoded. -/
def write_new_json (path : Path) (value : Json) : Guarded Bytes Unit := do
  let occupied ← os (exists_path path)
  if occupied then throw (.GuardError s!"refusing to overwrite existing guard artifact: {path}")
  else match (Artifacts.dumps value : Option Bytes) with
    | some data => os (write_bytes path data)
    | none => do
      os (write_bytes path Artifacts.empty)
      throw (.other .UnicodeEncodeError)

variable [DecidableEq Bytes]

/-- `_rewrite_manifest` -/
def rewrite_manifest (path : Path) (before_bytes : Bytes) (manifest : Json) :
    Guarded Bytes Unit := do
  let current ← os (read_bytes path)
  if current ≠ before_bytes then
    throw (.GuardError s!"guard manifest changed before lifecycle update: {path}")
  else match (Artifacts.canonical_json manifest : Option Bytes) with
    | none => throw (.other .UnicodeEncodeError)
    | some expected => do
      os (write_bytes path expected)
      let after ← os (read_bytes path)
      if sha256_bytes after ≠ sha256_bytes expected then
        throw (.GuardError s!"guard manifest post-write verification failed: {path}")
      else pure ()

end Files

section Lifecycle

variable {Bytes : Type} [Text] [Texts] [Host Bytes] [Artifacts Bytes]

/-- The entry captured for one path. -/
def capture_entry (root : Path) (p : String) : Guarded Bytes Json := do
  let (target, canonical_rel) ← Prog.ofExcept ((policy.canonical_target root p).mapError .other)
  if policy.is_secret_path canonical_rel || policy.is_control_plane_path canonical_rel then
    throw (.GuardError s!"protected target rejected before capture: {p}")
  else do
    let captured_at ← os utc_now
    let present ← os (exists_path target)
    if !present then
      pure (.ofFields [(lit "path", .str (lit canonical_rel)), (lit "expected_state", .str (lit "absent")),
        (lit "captured_at", .str (lit captured_at))])
    else do
      let file ← os (is_file target)
      if !file then throw (.GuardError s!"guard paths must be files or absent: {p}")
      else do
        let data ← os (read_bytes target)
        pure (.ofFields [(lit "path", .str (lit canonical_rel)),
          (lit "expected_state", .str (lit "present")), (lit "sha256", .str (lit (sha256_bytes data))),
          (lit "byte_length", .int (Host.size data)), (lit "captured_at", .str (lit captured_at))])

def capture_entries (root : Path) : List String → Guarded Bytes (List Json)
  | [] => pure []
  | p :: rest => do
    let entry ← capture_entry root p
    let entries ← capture_entries root rest
    pure (entry :: entries)

def captured_manifest (manifest_id captured_at : String) (entries : List Json) : Json := .ofFields
  [(lit "schema_version", .int SCHEMA_VERSION), (lit "manifest_id", .str (lit manifest_id)),
    (lit "captured_at", .str (lit captured_at)), (lit "lifecycle_state", .str (lit "proposed")),
    (lit "guard_mode", .str (lit "strict-write")), (lit "intent_state", .str (lit "unbound")),
    (lit "entries", .list entries)]

/-- Capture fresh preimages of paths and write a proposed manifest. -/
def capture (root : Path) (paths : List String) (output_manifest : Path) : Guarded Bytes Json := do
  Prog.ofExcept (check_output_path root output_manifest "manifest")
  let entries ← capture_entries root paths
  let id_bytes ← os (token_bytes 16)
  let captured_at ← os utc_now
  let manifest := captured_manifest (Texts.uuid4 id_bytes) captured_at entries
  write_new_json output_manifest manifest
  pure manifest

/-- `entry["expected_sha256"] = normalized_intents[entry["path"]]` -/
def bind_entry (normalized_intents : List (PyStr × PyStr)) (entry : Json) : Json :=
  match (field "path" entry).str?.bind fun path => normalized_intents.lookup path with
  | some expected => entry.set (lit "expected_sha256") (.str expected)
  | none => entry

def bind_manifest (normalized_intents : List (PyStr × PyStr)) (manifest : Json) (entries : List Json) :
    Json :=
  (manifest.set (lit "entries") (.list (entries.map (bind_entry normalized_intents)))).set
    (lit "intent_state") (.str (lit "bound"))

/-- `manifest["lifecycle_state"] = target_state`, with its time. -/
def enter (manifest : Json) (target_state now : String) : Json :=
  (manifest.set (lit "lifecycle_state") (.str (lit target_state))).set (lit (target_state ++ "_at"))
    (.str (lit now))

variable [DecidableEq Bytes]

/-- Bind expected post-write hashes to manifest while in 'proposed' state. -/
def bind_intent (root manifest_path : Path) (expected_hashes : List (String × String)) :
    Guarded Bytes Json := do
  let before_bytes ← os (read_bytes manifest_path)
  let manifest ← read_json manifest_path
  let entries ← Prog.ofExcept (validate_entries root ((manifest.set (lit "intent_state") (.str (lit "bound"))).set
    (lit "lifecycle_state") (.str (lit "proposed"))))
  if !(field "lifecycle_state" manifest).equalsStr (lit "proposed") then
    throw (.GuardError "post-write intent can only be bound while lifecycle_state=proposed")
  else do
    let intents ← Prog.ofExcept (normalize_intents root [] expected_hashes)
    let normalized_intents := intents.map fun (c_rel, v) => (lit c_rel, lit v)
    let entry_paths := entries.filterMap fun entry => (field "path" entry).str?
    if !(normalized_intents.map Prod.fst ⊆ entry_paths && entry_paths ⊆ normalized_intents.map Prod.fst) then
      throw (.GuardError "post-write intent must provide exactly one hash for every captured path")
    else do
      let manifest := bind_manifest normalized_intents manifest entries
      rewrite_manifest manifest_path before_bytes manifest
      pure manifest

/-- `VALID_TRANSITIONS.get(current_state, set())` -/
def valid_transitions (current_state : Json) : Except Err (List Lifecycle) :=
  if !current_state.hashable then .error (.TypeError s!"unhashable type: '{current_state.typeName}'")
  else .ok (((LIFECYCLE_STATES.find? fun state => current_state.equalsStr (lit state.name)).map
    VALID_TRANSITIONS).getD [])

/-- Advance lifecycle state along the valid transition sequence. -/
def transition (root manifest_path : Path) (target_state : String) : Guarded Bytes Json :=
  match LIFECYCLE_STATES.find? (·.name == target_state) with
  | none => throw (.GuardError s!"unsupported lifecycle state: {target_state}")
  | some target => do
    let before_bytes ← os (read_bytes manifest_path)
    let manifest ← read_json manifest_path
    let _ ← Prog.ofExcept (validate_entries root manifest)
    let allowed ← Prog.ofExcept ((valid_transitions (field "lifecycle_state" manifest)).mapError .other)
    if target ∉ allowed then
      let current_state := Texts.shown (field "lifecycle_state" manifest)
      throw (.GuardError s!"invalid lifecycle transition: {current_state} -> {target_state}")
    else if target = .applied ∧ (field "guard_mode" manifest).equalsStr (lit "strict-write") ∧
        ¬ (field "intent_state" manifest).equalsStr (lit "bound") then
      throw (.GuardError "cannot mark strict-write action applied before binding post-write intent")
    else do
      let now ← os utc_now
      let manifest := enter manifest target_state now
      rewrite_manifest manifest_path before_bytes manifest
      pure manifest

end Lifecycle

section Receipt

variable {Bytes : Type} [Text] [Texts] [Host Bytes] [Artifacts Bytes]

/-- What one entry adds to the failures, changed paths and observations. -/
structure Tally where
  failures : List String := []
  changed_paths : List PyStr := []
  observations : List Json := []

def Tally.append (t u : Tally) : Tally where
  failures := t.failures ++ u.failures
  changed_paths := t.changed_paths ++ u.changed_paths
  observations := t.observations ++ u.observations

def observation (path : PyStr) (data : Bytes) (changed : Bool) : Json := .ofFields
  [(lit "path", .str path), (lit "post_state", .str (lit "present")),
    (lit "post_sha256", .str (lit (sha256_bytes data))), (lit "post_byte_length", .int (Host.size data)),
    (lit "changed", .bool changed)]

/-- `expected_hash and post_hash != expected_hash`, where a validated hash is null or a text. -/
def differs (expected_hash : Json) (post_hash : String) : Bool :=
  match expected_hash with
  | .null => false
  | .str expected => expected ≠ [] && expected ≠ lit post_hash
  | _ => true

/-- One round of the loop over the entries. -/
def inspect_entry (root : Path) (strict : Bool) (entry : Json) : Guarded Bytes Tally := do
  let path := (field "path" entry).str?.getD []
  let shown := Texts.shown (field "path" entry)
  let (target, _) ← Prog.ofExcept ((target root path).mapError .other)
  if (field "expected_state" entry).equalsStr (lit "absent") then do
    let created ← os (exists_path target)
    if created then do
      let data ← os (read_bytes target)
      pure
        { failures := if differs (field "expected_sha256" entry) (sha256_bytes data) then
            [s!"post-write content differs from expected intent: {shown}"] else []
          changed_paths := [path]
          observations := [observation path data true] }
    else pure { failures := [s!"expected new file was not created: {shown}"] }
  else do
    let file ← os (is_file target)
    if !file then pure { failures := [s!"post-write file is missing: {shown}"] }
    else do
      let data ← os (read_bytes target)
      let changed := !(field "sha256" entry).equalsStr (lit (sha256_bytes data)) ||
        !(field "byte_length" entry).equalsInt (Host.size data)
      pure
        { failures := (if differs (field "expected_sha256" entry) (sha256_bytes data) then
              [s!"post-write content differs from expected intent: {shown}"] else []) ++
            if strict && !changed then [s!"write produced no changed postimage: {shown}"] else []
          changed_paths := if changed then [path] else []
          observations := [observation path data changed] }

def inspect_entries (root : Path) (strict : Bool) : List Json → Guarded Bytes Tally
  | [] => pure {}
  | entry :: rest => do
    let tally ← inspect_entry root strict entry
    let tallies ← inspect_entries root strict rest
    pure (tally.append tallies)

/-- What `receipt` has read before it reports or writes anything. -/
structure Examined (Bytes : Type) where
  before_manifest : Bytes
  manifest : Json
  tally : Tally

/-- The first part of `receipt`: its checks, and the loop over the entries. -/
def examine (root manifest_path output_receipt : Path) : Guarded Bytes (Examined Bytes) := do
  Prog.ofExcept (check_output_path root output_receipt "receipt")
  let occupied ← os (exists_path output_receipt)
  if occupied then
    throw (.GuardError s!"refusing to overwrite existing receipt: {output_receipt}")
  else do
    let before_manifest ← os (read_bytes manifest_path)
    let manifest ← read_json manifest_path
    let entries ← Prog.ofExcept (validate_entries root manifest)
    if !(field "lifecycle_state" manifest).equalsStr (lit "applied") then
      throw (.GuardError "receipt requires lifecycle_state=applied; approval is not application")
    else do
      let tally ← inspect_entries root ((field "guard_mode" manifest).equalsStr (lit "strict-write")) entries
      pure ⟨before_manifest, manifest, tally⟩

/-- The report of `receipt`. -/
inductive Report
  | FAIL (manifest_id : Json) (failures : List String) (changed_paths : List PyStr)
  | PASS (record : Json)

/-- The number of a code point. -/
def ordinal : CodePoint → Nat
  | .scalar c => c.toNat
  | .surrogate offset => 0xd800 + offset

/-- `sorted(set(paths))` -/
def sorted_set (paths : List PyStr) : List PyStr :=
  paths.dedup.insertionSort fun a b => a.map ordinal ≤ b.map ordinal

def record (manifest : Json) (tally : Tally) (verified_time : String) : Json := .ofFields
  [(lit "schema_version", .int SCHEMA_VERSION), (lit "manifest_id", field "manifest_id" manifest),
    (lit "receipt_state", .str (lit "verified")), (lit "verified_at", .str (lit verified_time)),
    (lit "changed_paths", .list ((sorted_set tally.changed_paths).map .str)),
    (lit "observations", .list tally.observations), (lit "failures", .list []),
    (lit "intent_binding", .str (lit "bound"))]

variable [DecidableEq Bytes]

/-- Generate verified post-write receipt completing applied -> verified transition. -/
def receipt (root manifest_path output_receipt : Path) : Guarded Bytes Report := do
  let ⟨before_manifest, manifest, tally⟩ ← examine root manifest_path output_receipt
  if tally.failures ≠ [] then
    pure (.FAIL (field "manifest_id" manifest) tally.failures tally.changed_paths)
  else do
    let verified_time ← os utc_now
    let record := record manifest tally verified_time
    write_new_json output_receipt record
    let manifest := enter manifest "verified" verified_time
    rewrite_manifest manifest_path before_manifest manifest
    pure (.PASS record)

end Receipt

end jvc.prewrite
