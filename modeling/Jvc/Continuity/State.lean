import Mathlib.Logic.Function.Basic
import Jvc.Lib.Program
import Jvc.World

open program

namespace jvc.continuity

def SCHEMA_VERSION : Nat := 2

inductive Err
  | ContinuityError (message : String)
  | ConflictError (message : String)
  | LockTimeoutError (message : String)
  | ValueError (message : String)
  | TypeError (message : String)
  | OSError (message : String)
  deriving DecidableEq, Repr

/-- `.continuity/state.json` -/
structure ContinuityState where
  schema_version : Nat
  project_id : String
  metadata_revision : Nat
  persistence : String
  privacy : String
  active_workstream : Option String
  handoff_sha256 : Option String
  created_at : String
  updated_at : String
  deriving DecidableEq, Repr

structure Checkpoint (Payload : Type) where
  checkpoint_id : String
  project_id : String
  metadata_revision : Nat
  previous_revision : Nat
  handoff_sha256 : String
  created_at : String
  payload : Payload

structure Decision (Payload : Type) where
  decision_id : String
  recorded_at : String
  metadata_revision : Nat
  payload : Payload

inductive Kind
  | init
  | checkpoint
  | reconcile
  | decision
  deriving DecidableEq, Repr

/-- A file of the continuity directory. -/
inductive FileName
  | state
  | checkpoint (name : String)
  | decision (name : String)
  deriving DecidableEq, Repr

/-- One replacement of the state file: who made it in which call, the revision it
wrote, and what that process had last seen of HANDOFF.md. -/
structure Mutation (ι Bytes : Type) where
  by_process : ι
  kind : Kind
  revision : Nat
  seen : Option Bytes

/-- The host as the continuity manager of one project uses it. `times` and
`tokens` are what clock and random source will answer; `seen`, `changes` and
`history` are history that no operation reads, latest first. -/
structure Store (ι Bytes Payload : Type) where
  lock : Option ι
  state : Option ContinuityState
  handoff : Option Bytes
  checkpoints : String → Option (Checkpoint Payload)
  decisions : String → Option (Decision Payload)
  times : Nat → String
  tokens : Nat → String
  ticks : Nat
  seen : ι → Option Bytes
  changes : List (ι × FileName)
  history : List (Mutation ι Bytes)

/-- The atomic operations on the host; a replacement by `atomic_write` is one. -/
inductive Op (Payload : Type)
  | acquire
  | release
  | is_initialized
  | read_state
  | handoff_is_file
  | read_handoff
  | decision_exists (decision_id : String)
  | write_checkpoint (checkpoint_id : String) (data : Checkpoint Payload)
  | write_decision (decision_id : String) (data : Decision Payload)
  | write_state (kind : Kind) (state : ContinuityState)
  | utc_now
  | secrets_token

def Op.Res {Payload : Type} (Bytes : Type) : Op Payload → Type
  | .acquire => Bool
  | .release => Unit
  | .is_initialized => Bool
  | .read_state => Option ContinuityState
  | .handoff_is_file => Bool
  | .read_handoff => Option Bytes
  | .decision_exists _ => Bool
  | .write_checkpoint _ _ => Unit
  | .write_decision _ _ => Unit
  | .write_state _ _ => Unit
  | .utc_now => String
  | .secrets_token => String

section Machine

variable {ι Bytes Payload : Type} [DecidableEq ι]

/-- What the host does for one operation of process `i`. A lock attempt on a
held lock is one that times out. -/
def step (i : ι) : (op : Op Payload) → Store ι Bytes Payload →
    op.Res Bytes × Store ι Bytes Payload
  | .acquire, s => if s.lock = none then (true, { s with lock := some i }) else (false, s)
  | .release, s => ((), { s with lock := none })
  | .is_initialized, s => (s.state.isSome, s)
  | .read_state, s => (s.state, s)
  | .handoff_is_file, s =>
    (s.handoff.isSome,
      { s with seen := Function.update s.seen i (if s.handoff.isSome then s.seen i else none) })
  | .read_handoff, s => (s.handoff, { s with seen := Function.update s.seen i s.handoff })
  | .decision_exists decision_id, s => ((s.decisions decision_id).isSome, s)
  | .write_checkpoint checkpoint_id data, s =>
    ((), { s with
      checkpoints := Function.update s.checkpoints checkpoint_id (some data)
      changes := (i, .checkpoint checkpoint_id) :: s.changes })
  | .write_decision decision_id data, s =>
    ((), { s with
      decisions := Function.update s.decisions decision_id (some data)
      changes := (i, .decision decision_id) :: s.changes })
  | .write_state kind state, s =>
    ((), { s with
      state := some state
      changes := (i, .state) :: s.changes
      history := ⟨i, kind, state.metadata_revision, s.seen i⟩ :: s.history })
  | .utc_now, s => (s.times s.ticks, { s with ticks := s.ticks + 1 })
  | .secrets_token, s => (s.tokens s.ticks, { s with ticks := s.ticks + 1 })

def machine (ι Bytes Payload : Type) [DecidableEq ι] :
    Machine ι (Op Payload) (Op.Res Bytes) (Store ι Bytes Payload) := ⟨step⟩

end Machine

/-- SHA-256 of file contents, in upper-case hexadecimal digits. -/
class Digest (Bytes : Type) where
  sha256_bytes : Bytes → String
  sha256_ne_empty : ∀ b, sha256_bytes b ≠ ""

export Digest (sha256_bytes)

variable {Bytes Payload : Type}

abbrev Continuity (Bytes Payload α : Type) := Prog (Op Payload) (Op.Res Bytes) Err α

section Primitives

def acquire : Continuity Bytes Payload Bool := .act .acquire .ret

def release : Continuity Bytes Payload Unit := .act .release .ret

def is_initialized : Continuity Bytes Payload Bool := .act .is_initialized .ret

def read_state : Continuity Bytes Payload (Option ContinuityState) := .act .read_state .ret

def handoff_is_file : Continuity Bytes Payload Bool := .act .handoff_is_file .ret

def read_handoff : Continuity Bytes Payload (Option Bytes) := .act .read_handoff .ret

def decision_exists (decision_id : String) : Continuity Bytes Payload Bool :=
  .act (.decision_exists decision_id) .ret

def write_checkpoint (checkpoint_id : String) (data : Checkpoint Payload) :
    Continuity Bytes Payload Unit := .act (.write_checkpoint checkpoint_id data) .ret

def write_decision (decision_id : String) (data : Decision Payload) :
    Continuity Bytes Payload Unit := .act (.write_decision decision_id data) .ret

def write_state (kind : Kind) (state : ContinuityState) : Continuity Bytes Payload Unit :=
  .act (.write_state kind state) .ret

def utc_now : Continuity Bytes Payload String := .act .utc_now .ret

def secrets_token : Continuity Bytes Payload String := .act .secrets_token .ret

end Primitives

/-- What a successful call returns. -/
inductive Passed
  | init (project_id : String) (revision : Nat)
  | checkpoint (checkpoint_id : String) (metadata_revision : Nat)
  | reconciled (metadata_revision : Nat) (handoff_sha256 : String)
  | decision (decision_id : String) (metadata_revision : Nat)
  deriving DecidableEq, Repr

def Passed.revision : Passed → Nat
  | .init _ revision => revision
  | .checkpoint _ metadata_revision => metadata_revision
  | .reconciled metadata_revision _ => metadata_revision
  | .decision _ metadata_revision => metadata_revision

/-- `[A-Za-z0-9]` -/
def alphanumeric (c : Char) : Bool :=
  ('a' ≤ c && c ≤ 'z') || ('A' ≤ c && c ≤ 'Z') || ('0' ≤ c && c ≤ '9')

/-- `DECISION_ID_RE.fullmatch` -/
def decisionId (decision_id : String) : Bool :=
  match decision_id.toList with
  | [] => false
  | c :: rest =>
    alphanumeric c && rest.length ≤ 127 &&
      rest.all fun c => alphanumeric c || c == '_' || c == '.' || c == '-'

/-- `{n:06d}` -/
def padded (n : Nat) : String :=
  String.ofList (List.replicate (6 - (toString n).length) '0') ++ toString n

/-- The name of a checkpoint file. -/
def checkpointId (new_rev : Nat) (now token : String) : String :=
  "checkpoint-" ++ padded new_rev ++ "-" ++ String.ofList (now.toList.filter (· ≠ ':')) ++ "-" ++
    token

/-- The body runs under the revision lock, which is released on both ways out. -/
def with_revision_lock {α : Type} (body : Continuity Bytes Payload α) :
    Continuity Bytes Payload α := do
  let acquired ← acquire
  if acquired then body.ensuring release
  else throw (.LockTimeoutError "timed out acquiring interprocess lock")

/-- `if condition: raise err` -/
def raiseIf (condition : Prop) [Decidable condition] (err : Err) : Continuity Bytes Payload Unit :=
  if condition then throw err else return

/-- The value that was read, or the error of reading nothing. -/
def expect {α : Type} (err : Err) : Option α → Continuity Bytes Payload α
  | some a => return a
  | none => throw err

def load_state : Continuity Bytes Payload ContinuityState := do
  let initialized ← is_initialized
  raiseIf (initialized = false) (.ContinuityError "continuity is not initialized")
  let state ← read_state
  expect (.ContinuityError "failed to read state file: [Errno 2] No such file or directory") state

/-- The optimistic concurrency check of the revision. -/
def check_revision (conflict : String) (expected : Option Nat) (observed : Nat) :
    Continuity Bytes Payload Unit :=
  match expected with
  | some revision =>
    raiseIf (observed ≠ revision)
      (.ConflictError s!"{conflict}: expected {revision}, observed {observed}")
  | none => return

variable [Text] [Digest Bytes]

/-- `sha256_file(handoff_path)` -/
def sha256_handoff : Continuity Bytes Payload String := do
  let found ← read_handoff
  let data ← expect (.OSError "[Errno 2] No such file or directory: 'HANDOFF.md'") found
  return sha256_bytes data

/-- `value.upper().strip()` -/
def canonicalHash (value : String) : String := strip (Text.upper value)

def init_locked (root : Path) (project_id persistence privacy : String) : Continuity Bytes Payload Passed := do
  let initialized ← is_initialized
  raiseIf (initialized = true) (.ContinuityError s!"continuity already initialized in {root}")
  let present ← handoff_is_file
  let handoff_sha ← if present then some <$> sha256_handoff else pure none
  let created_at ← utc_now
  let updated_at ← utc_now
  write_state .init
    { schema_version := SCHEMA_VERSION
      project_id
      metadata_revision := 1
      persistence
      privacy
      active_workstream := none
      handoff_sha256 := handoff_sha
      created_at
      updated_at }
  return .init project_id 1

/-- `json.dumps` refuses a payload that is not JSON data. -/
def dumps (serializable : Payload → Bool) (payload : Payload) : Continuity Bytes Payload Unit :=
  raiseIf (serializable payload = false) (.TypeError "Object is not JSON serializable")

variable (serializable : Payload → Bool)

def checkpoint_locked (expected_handoff_sha256 : String) (payload : Payload)
    (expected_metadata_revision : Option Nat) : Continuity Bytes Payload Passed := do
  let state ← load_state
  let current_rev := state.metadata_revision
  check_revision "metadata revision conflict" expected_metadata_revision current_rev
  let present ← handoff_is_file
  raiseIf (present = false) (.ContinuityError "HANDOFF.md is missing")
  let current_handoff_sha ← sha256_handoff
  raiseIf (current_handoff_sha ≠ canonicalHash expected_handoff_sha256)
    (.ConflictError
      s!"handoff SHA-256 conflict: expected {expected_handoff_sha256}, observed {current_handoff_sha}")
  let new_rev := current_rev + 1
  let now ← utc_now
  let token ← secrets_token
  let checkpoint_id := checkpointId new_rev now token
  let created_at ← utc_now
  dumps serializable payload
  write_checkpoint checkpoint_id
    { checkpoint_id
      project_id := state.project_id
      metadata_revision := new_rev
      previous_revision := current_rev
      handoff_sha256 := current_handoff_sha
      created_at
      payload }
  let updated_at ← utc_now
  write_state .checkpoint
    { state with
      metadata_revision := new_rev, handoff_sha256 := some current_handoff_sha, updated_at }
  return .checkpoint checkpoint_id new_rev

/-- The caller must name the handoff the state file currently records. -/
def check_recorded (expected_handoff_sha256 : String) : Option String → Continuity Bytes Payload Unit
  | some recorded =>
    raiseIf (recorded ≠ "" ∧ recorded ≠ canonicalHash expected_handoff_sha256)
      (.ConflictError
        s!"handoff expected SHA-256 conflict: expected {expected_handoff_sha256}, recorded is {recorded}")
  | none => return

def reconcile_locked (expected_handoff_sha256 observed_handoff_sha256 : String)
    (expected_metadata_revision : Option Nat) : Continuity Bytes Payload Passed := do
  let state ← load_state
  let current_rev := state.metadata_revision
  check_revision "metadata revision conflict" expected_metadata_revision current_rev
  let present ← handoff_is_file
  raiseIf (present = false) (.ContinuityError "HANDOFF.md is missing")
  let current_handoff_sha ← sha256_handoff
  raiseIf (current_handoff_sha ≠ canonicalHash observed_handoff_sha256)
    (.ConflictError
      s!"handoff observed SHA-256 conflict: expected {observed_handoff_sha256}, actual file is {current_handoff_sha}")
  check_recorded expected_handoff_sha256 state.handoff_sha256
  let new_rev := current_rev + 1
  let updated_at ← utc_now
  write_state .reconcile
    { state with
      metadata_revision := new_rev, handoff_sha256 := some current_handoff_sha, updated_at }
  return .reconciled new_rev current_handoff_sha

def record_decision_locked (decision_id : String) (expected_metadata_revision : Nat)
    (payload : Payload) : Continuity Bytes Payload Passed := do
  raiseIf (decisionId decision_id = false)
    (.ValueError ("invalid decision_id: must match [A-Za-z0-9][A-Za-z0-9_.-]\x7b0,127\x7d: " ++
      Text.repr decision_id))
  let state ← load_state
  let current_rev := state.metadata_revision
  check_revision "revision conflict" (some expected_metadata_revision) current_rev
  let present ← decision_exists decision_id
  raiseIf (present = true) (.ContinuityError s!"decision already exists: {decision_id}")
  let new_rev := current_rev + 1
  let recorded_at ← utc_now
  dumps serializable payload
  write_decision decision_id
    { decision_id, recorded_at, metadata_revision := new_rev, payload }
  let updated_at ← utc_now
  write_state .decision { state with metadata_revision := new_rev, updated_at }
  return .decision decision_id new_rev

/-- A call on the manager of one project. -/
inductive Call (Payload : Type)
  | init (project_id persistence privacy : String)
  | checkpoint (expected_handoff_sha256 : String) (payload : Payload)
      (expected_metadata_revision : Option Nat)
  | reconcile_handoff (expected_handoff_sha256 observed_handoff_sha256 : String)
      (payload : Payload) (expected_metadata_revision : Option Nat)
  | record_decision (decision_id : String) (expected_metadata_revision : Nat) (payload : Payload)

def Call.kind : Call Payload → Kind
  | .init _ _ _ => .init
  | .checkpoint _ _ _ => .checkpoint
  | .reconcile_handoff _ _ _ _ => .reconcile
  | .record_decision _ _ _ => .decision

/-- The revision that the call names. -/
def Call.expected_revision : Call Payload → Option Nat
  | .init _ _ _ => none
  | .checkpoint _ _ expected => expected
  | .reconcile_handoff _ _ _ expected => expected
  | .record_decision _ expected _ => some expected

/-- The critical section of a call. -/
def Call.locked (root : Path) : Call Payload → Continuity Bytes Payload Passed
  | .init project_id persistence privacy => init_locked root project_id persistence privacy
  | .checkpoint expected_handoff_sha256 payload expected_metadata_revision =>
    checkpoint_locked serializable expected_handoff_sha256 payload expected_metadata_revision
  | .reconcile_handoff expected_handoff_sha256 observed_handoff_sha256 _
      expected_metadata_revision =>
    reconcile_locked expected_handoff_sha256 observed_handoff_sha256 expected_metadata_revision
  | .record_decision decision_id expected_metadata_revision payload =>
    record_decision_locked serializable decision_id expected_metadata_revision payload

def Call.program (root : Path) (call : Call Payload) : Continuity Bytes Payload Passed :=
  with_revision_lock (call.locked serializable root)

end jvc.continuity
