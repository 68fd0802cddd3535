import Jvc.Policy.Boundaries

namespace jvc.guard

open policy

def SCHEMA_VERSION : Nat := 1

/-- `LIFECYCLE_STATES` -/
inductive Lifecycle
  | proposed
  | approved
  | applied
  | verified
  deriving DecidableEq, Repr

def Lifecycle.name : Lifecycle → String
  | proposed => "proposed"
  | approved => "approved"
  | applied => "applied"
  | verified => "verified"

def LIFECYCLE_STATES : List Lifecycle := [.proposed, .approved, .applied, .verified]

def VALID_TRANSITIONS : Lifecycle → List Lifecycle
  | .proposed => [.approved]
  | .approved => [.applied]
  | .applied => [.verified]
  | .verified => []

/-- A failed pre-write invariant, or an exception of the code below. -/
inductive Failure
  | GuardError (message : String)
  | other (err : Err)
  deriving DecidableEq, Repr

/-- `expected_state` with the fields that go with it. -/
inductive Preimage
  | absent
  | present (sha256 : String) (byte_length : Nat)
  deriving DecidableEq, Repr

/-- The recorded hash is not 64 characters long. -/
def Preimage.malformed : Preimage → Bool
  | .absent => false
  | .present sha256 _ => sha256.length != 64

structure Entry where
  path : String
  preimage : Preimage
  captured_at : String
  expected_sha256 : Option String := none
  deriving DecidableEq, Repr

structure Manifest where
  schema_version : Nat
  manifest_id : String
  captured_at : String
  lifecycle_state : Lifecycle
  guard_mode : String
  intent_state : String
  entries : List Entry
  approved_at : Option String := none
  applied_at : Option String := none
  verified_at : Option String := none
  deriving DecidableEq, Repr

structure Observation where
  path : String
  post_sha256 : String
  post_byte_length : Nat
  changed : Bool
  deriving DecidableEq, Repr

/-- A written post-write receipt; its state is always "verified", it has no
failures and its intent binding is "bound". -/
structure Record where
  schema_version : Nat
  manifest_id : String
  verified_at : String
  changed_paths : List String
  observations : List Observation
  deriving DecidableEq, Repr

/-- What a call sees of the target of one entry, each access at its own moment:
a read that gives nothing raises. -/
structure Glance (Bytes : Type) where
  exists_path : Bool
  is_file : Bool
  data : Option Bytes

/-- What a call sees of the world around its manifest: the targets of the
entries in order, whether a file is in the way of its output, the clock and the
random source. -/
structure Sight (Bytes : Type) where
  target : Nat → Glance Bytes
  occupied : Path → Bool
  utc_now : Nat → String
  uuid : String

/-- The guard artifacts: the manifest at its path and the receipts. -/
structure Desk where
  manifest : Option Manifest
  receipts : List (Path × Record)

variable [Text] {Bytes : Type} (sha256_bytes : Bytes → String) (size : Bytes → Nat)
variable (root manifest_path : Path)

/-- `path.resolve().relative_to(root).as_posix()`, if the path is inside. -/
def relative_to (path : Path) : Option String :=
  let base := resolveParts (components root.toList)
  let parts := resolveParts (components path.toList)
  if base.isPrefixOf parts then some ("/".intercalate (parts.drop base.length)) else none

def check_output_path (path : Path) (what : String) : Except Failure Unit :=
  match relative_to root path with
  | none => .ok ()
  | some rel =>
    if is_secret_path rel || is_control_plane_path rel then
      .error (.GuardError s!"protected guard {what} path rejected: {rel}")
    else .ok ()

/-- The checks of one entry, given the canonical paths before it. -/
def check_entry (seen : List String) (entry : Entry) : Except Failure (List String) :=
  if strip entry.path = "" then .error (.GuardError "guard manifest entry path is required")
  else match canonical_target root entry.path with
    | .error err => .error (.other err)
    | .ok (_, canonical_rel) =>
      if canonical_rel ∈ seen then .error (.GuardError s!"duplicate guard path: {entry.path}")
      else if is_secret_path canonical_rel then
        .error (.GuardError s!"secret path present in guard manifest: {entry.path}")
      else if is_control_plane_path canonical_rel then
        .error (.GuardError s!"control plane path present in guard manifest: {entry.path}")
      else if entry.preimage.malformed then
        .error (.GuardError s!"present entry lacks a SHA-256 preimage: {entry.path}")
      else if entry.expected_sha256.any fun expected => expected.length != 64 then
        .error (.GuardError s!"entry has an invalid expected post-write SHA-256: {entry.path}")
      else .ok (canonical_rel :: seen)

def check_entries : List String → List Entry → Except Failure Unit
  | _, [] => .ok ()
  | seen, entry :: rest =>
    match check_entry root seen entry with
    | .error failure => .error failure
    | .ok seen' => check_entries seen' rest

def validate_entries (manifest : Manifest) : Except Failure Unit :=
  if manifest.schema_version ≠ SCHEMA_VERSION then
    .error (.GuardError "unsupported guard manifest schema_version")
  else if manifest.entries = [] then
    .error (.GuardError "guard manifest entries must be a non-empty array")
  else match check_entries root [] manifest.entries with
    | .error failure => .error failure
    | .ok () =>
      if manifest.guard_mode = "strict-write" ∧ manifest.lifecycle_state ≠ .proposed then
        if manifest.intent_state ≠ "bound" then
          .error (.GuardError "strict-write manifest requires a bound post-write intent")
        else if manifest.entries.any fun entry => entry.expected_sha256.isNone then
          .error (.GuardError "strict-write manifest entries must bind expected post-write hashes")
        else .ok ()
      else .ok ()

/-- The entry captured for the `n`-th path. -/
def capture_entry (sight : Sight Bytes) (n : Nat) (p : String) : Except Failure Entry :=
  match canonical_target root p with
  | .error err => .error (.other err)
  | .ok (target, canonical_rel) =>
    if is_secret_path canonical_rel || is_control_plane_path canonical_rel then
      .error (.GuardError s!"protected target rejected before capture: {p}")
    else if !(sight.target n).exists_path then
      .ok { path := canonical_rel, preimage := .absent, captured_at := sight.utc_now n }
    else if !(sight.target n).is_file then
      .error (.GuardError s!"guard paths must be files or absent: {p}")
    else match (sight.target n).data with
      | none => .error (.other (.OSError s!"[Errno 2] No such file or directory: '{target}'"))
      | some data =>
        .ok { path := canonical_rel, preimage := .present (sha256_bytes data) (size data)
              captured_at := sight.utc_now n }

def capture_entries (sight : Sight Bytes) : Nat → List String → Except Failure (List Entry)
  | _, [] => .ok []
  | n, p :: rest =>
    match capture_entry sha256_bytes size root sight n p with
    | .error failure => .error failure
    | .ok entry =>
      match capture_entries sight (n + 1) rest with
      | .error failure => .error failure
      | .ok entries => .ok (entry :: entries)

/-- A file is at the path: the manifest, a receipt or another one. -/
def Desk.exists_path (desk : Desk) (sight : Sight Bytes) (path : Path) : Bool :=
  (desk.manifest.isSome && path == manifest_path) || desk.receipts.any (·.1 == path) ||
    sight.occupied path

/-- Capture fresh preimages of paths and write a proposed manifest. -/
def capture (desk : Desk) (sight : Sight Bytes) (paths : List String) : Except Failure Desk :=
  match check_output_path root manifest_path "manifest" with
  | .error failure => .error failure
  | .ok () =>
    match capture_entries sha256_bytes size root sight 0 paths with
    | .error failure => .error failure
    | .ok entries =>
      if desk.exists_path manifest_path sight manifest_path then
        .error (.GuardError s!"refusing to overwrite existing guard artifact: {manifest_path}")
      else
        .ok { desk with
          manifest := some
            { schema_version := SCHEMA_VERSION
              manifest_id := sight.uuid
              captured_at := sight.utc_now paths.length
              lifecycle_state := .proposed
              guard_mode := "strict-write"
              intent_state := "unbound"
              entries } }

/-- `manifest_path.read_bytes()`, then `_read_json`. -/
def read_manifest (desk : Desk) : Except Failure Manifest :=
  match desk.manifest with
  | some manifest => .ok manifest
  | none => .error (.other (.OSError s!"[Errno 2] No such file or directory: '{manifest_path}'"))

/-- `normalized_intents`, built in the order of the mapping. -/
def normalize_intents :
    List (String × String) → List (String × String) → Except Failure (List (String × String))
  | intents, [] => .ok intents
  | intents, (k, v) :: rest =>
    match canonical_target root k with
    | .error err => .error (.other err)
    | .ok (_, c_rel) => normalize_intents ((c_rel, Text.upper v) :: intents) rest

/-- Bind expected post-write hashes to manifest while in 'proposed' state. -/
def bind_intent (desk : Desk) (expected_hashes : List (String × String)) : Except Failure Desk :=
  match read_manifest manifest_path desk with
  | .error failure => .error failure
  | .ok manifest =>
    match validate_entries root { manifest with intent_state := "bound", lifecycle_state := .proposed } with
    | .error failure => .error failure
    | .ok () =>
      if manifest.lifecycle_state ≠ .proposed then
        .error (.GuardError "post-write intent can only be bound while lifecycle_state=proposed")
      else match normalize_intents root [] expected_hashes with
        | .error failure => .error failure
        | .ok intents =>
          let entry_paths := manifest.entries.map Entry.path
          if intents.map Prod.fst ⊆ entry_paths ∧ entry_paths ⊆ intents.map Prod.fst then
            .ok { desk with
              manifest := some { manifest with
                entries := manifest.entries.map fun entry =>
                  { entry with expected_sha256 := intents.lookup entry.path }
                intent_state := "bound" } }
          else
            .error (.GuardError "post-write intent must provide exactly one hash for every captured path")

/-- `manifest["lifecycle_state"] = target_state`, with its time. -/
def Manifest.enter (manifest : Manifest) (target_state : Lifecycle) (now : String) : Manifest :=
  match target_state with
  | .proposed => { manifest with lifecycle_state := .proposed }
  | .approved => { manifest with lifecycle_state := .approved, approved_at := some now }
  | .applied => { manifest with lifecycle_state := .applied, applied_at := some now }
  | .verified => { manifest with lifecycle_state := .verified, verified_at := some now }

/-- Advance lifecycle state along the valid transition sequence. -/
def transition (desk : Desk) (sight : Sight Bytes) (target_state : String) : Except Failure Desk :=
  match LIFECYCLE_STATES.find? (·.name == target_state) with
  | none => .error (.GuardError s!"unsupported lifecycle state: {target_state}")
  | some target =>
    match read_manifest manifest_path desk with
    | .error failure => .error failure
    | .ok manifest =>
      match validate_entries root manifest with
      | .error failure => .error failure
      | .ok () =>
        let current_state := manifest.lifecycle_state.name
        if target ∉ VALID_TRANSITIONS manifest.lifecycle_state then
          .error (.GuardError s!"invalid lifecycle transition: {current_state} -> {target_state}")
        else if target = .applied ∧ manifest.guard_mode = "strict-write" ∧
            manifest.intent_state ≠ "bound" then
          .error (.GuardError "cannot mark strict-write action applied before binding post-write intent")
        else .ok { desk with manifest := some (manifest.enter target (sight.utc_now 0)) }

/-- What one entry adds to the failures, changed paths and observations. -/
structure Tally where
  failures : List String := []
  changed_paths : List String := []
  observations : List Observation := []

def Tally.append (t u : Tally) : Tally where
  failures := t.failures ++ u.failures
  changed_paths := t.changed_paths ++ u.changed_paths
  observations := t.observations ++ u.observations

/-- `expected_hash and post_hash != expected_hash` -/
def intent_failures (entry : Entry) (post_hash : String) : List String :=
  if entry.expected_sha256.any fun expected => expected != "" && post_hash != expected then
    [s!"post-write content differs from expected intent: {entry.path}"]
  else []

def inspect_entry (guard_mode : String) (glance : Glance Bytes) (entry : Entry) :
    Except Failure Tally :=
  let missing : Failure := .other (.OSError s!"[Errno 2] No such file or directory: '{entry.path}'")
  match canonical_target root entry.path, entry.preimage with
  | .error err, _ => .error (.other err)
  | .ok _, .absent =>
    if glance.exists_path then
      match glance.data with
      | none => .error missing
      | some data =>
        .ok
          { failures := intent_failures entry (sha256_bytes data)
            changed_paths := [entry.path]
            observations := [⟨entry.path, sha256_bytes data, size data, true⟩] }
    else .ok { failures := [s!"expected new file was not created: {entry.path}"] }
  | .ok _, .present sha256 byte_length =>
    if !glance.is_file then .ok { failures := [s!"post-write file is missing: {entry.path}"] }
    else match glance.data with
      | none => .error missing
      | some data =>
        let changed := sha256_bytes data != sha256 || size data != byte_length
        .ok
          { failures := intent_failures entry (sha256_bytes data) ++
              if guard_mode = "strict-write" ∧ changed = false then
                [s!"write produced no changed postimage: {entry.path}"] else []
            changed_paths := if changed then [entry.path] else []
            observations := [⟨entry.path, sha256_bytes data, size data, changed⟩] }

def inspect_entries (guard_mode : String) (sight : Sight Bytes) :
    Nat → List Entry → Except Failure Tally
  | _, [] => .ok {}
  | n, entry :: rest => do
    let tally ← inspect_entry sha256_bytes size root guard_mode (sight.target n) entry
    let tallies ← inspect_entries guard_mode sight (n + 1) rest
    return tally.append tallies

/-- The report of `receipt`. -/
inductive Report
  | FAIL (manifest_id : String) (failures changed_paths : List String)
  | PASS (record : Record)

/-- Generate verified post-write receipt completing applied -> verified transition. -/
def receipt (desk : Desk) (sight : Sight Bytes) (output_receipt : Path) :
    Except Failure (Report × Desk) :=
  match check_output_path root output_receipt "receipt" with
  | .error failure => .error failure
  | .ok () =>
    if desk.exists_path manifest_path sight output_receipt then
      .error (.GuardError s!"refusing to overwrite existing receipt: {output_receipt}")
    else match read_manifest manifest_path desk with
      | .error failure => .error failure
      | .ok manifest =>
        match validate_entries root manifest with
        | .error failure => .error failure
        | .ok () =>
          if manifest.lifecycle_state ≠ .applied then
            .error (.GuardError "receipt requires lifecycle_state=applied; approval is not application")
          else match inspect_entries sha256_bytes size root manifest.guard_mode sight 0
              manifest.entries with
            | .error failure => .error failure
            | .ok tally =>
              if tally.failures ≠ [] then
                .ok (.FAIL manifest.manifest_id tally.failures tally.changed_paths, desk)
              else
                let record : Record :=
                  { schema_version := SCHEMA_VERSION
                    manifest_id := manifest.manifest_id
                    verified_at := sight.utc_now 0
                    changed_paths := (tally.changed_paths.dedup).insertionSort (· ≤ ·)
                    observations := tally.observations }
                .ok (.PASS record,
                  { manifest := some (manifest.enter .verified (sight.utc_now 0))
                    receipts := (output_receipt, record) :: desk.receipts })

/-- The calls on one manifest. -/
inductive Call
  | capture (paths : List String)
  | bind_intent (expected_hashes : List (String × String))
  | transition (target_state : String)
  | receipt (output_receipt : Path)
  deriving DecidableEq

def perform (desk : Desk) (sight : Sight Bytes) : Call → Except Failure Desk
  | .capture paths => capture sha256_bytes size root manifest_path desk sight paths
  | .bind_intent expected_hashes => bind_intent root manifest_path desk expected_hashes
  | .transition target_state => transition root manifest_path desk sight target_state
  | .receipt output_receipt =>
    (receipt sha256_bytes size root manifest_path desk sight output_receipt).map Prod.snd

/-- The artifacts after a sequence of calls, latest first; a call that raises
leaves them as they are. -/
def desk_after : List (Call × Sight Bytes) → Desk
  | [] => ⟨none, []⟩
  | (call, sight) :: earlier =>
    match perform sha256_bytes size root manifest_path (desk_after earlier) sight call with
    | .ok desk => desk
    | .error _ => desk_after earlier

end jvc.guard
