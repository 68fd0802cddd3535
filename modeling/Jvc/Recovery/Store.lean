import Jvc.Lib.Utf8
import Jvc.Policy.Boundaries

open program jvc.recovery

namespace jvc

variable {Bytes α : Type}

/-- `if condition: raise error` -/
def raiseIf (condition : Bool) (error : Err) : Jvc Bytes Unit :=
  if condition then throw error else pure ()

/-- `try: p` with the listed exceptions caught and turned into `none`. -/
def attempt (p : Jvc Bytes α) (caught : Err → Bool) : Jvc Bytes (Option α) :=
  tryCatch (some <$> p) fun e => if caught e then pure none else throw e

/-- `with ResourceLock(lock_dir, name, timeout): body` -/
def with_lock (l : LockName) (body : Jvc Bytes α) : Jvc Bytes α := do
  let acquired ← acquire l
  raiseIf (!acquired) (.LockTimeoutError "timed out acquiring interprocess lock")
  body.ensuring (release l)

/-- `names[0]`, read where the list is not empty. -/
def first (names : List String) : String := names.head?.getD ""

/-- The last component of a path. -/
def Path.name (p : Path) : String := String.ofList (p.toList.reverse.takeWhile (· ≠ '/')).reverse

/-- `str(Path(text))`: no empty components and no `.` -/
def path_text (text : String) : String :=
  (if text.toList.head? = some '/' then "/" else "") ++
    "/".intercalate ((policy.components text.toList).filter (· ≠ "."))

/-- The host takes names of up to 255 bytes, and paths of up to 4095. -/
def too_long (text : String) : Bool :=
  (policy.components text.toList).any (fun name => 255 < (utf8.encode name.toList).length) ||
    4095 < (utf8.encode (path_text text).toList).length

def name_too_long (text : String) : Err := .OSError s!"[Errno 36] File name too long: '{text}'"

/-- `Path(text).is_file()` where the text names the file `p`. A name that is too long
raises (up to Python 3.13), and is the name of no file. -/
def stat (p : Path) (text : String) : Jvc Bytes Bool := do
  let present ← is_file p
  raiseIf (!present && too_long text) (name_too_long text)
  pure present

section Files

variable [Text] [Host Bytes]

/-- The file that a path text names, from the working directory where it is relative. -/
def located (Bytes : Type) [Host Bytes] (text : String) : Path :=
  policy.resolved (if text.toList.head? = some '/' then text else Host.cwd Bytes ++ "/" ++ text)

def sha256_file (p : Path) : Jvc Bytes String := do
  let data ← read_bytes p
  pure (sha256_bytes data)

def read_json (p : Path) : Jvc Bytes Document := do
  let data ← read_bytes p
  .ofExcept (Host.loads data)

def atomic_write_json (p : Path) (data : Dict) : Jvc Bytes Unit :=
  if data.deep then throw .RecursionError else durable_write_bytes p (Host.dumps data)

end Files

/-- `a == b` where `a` is a digest or `None` and `b` a JSON value. -/
def digestEq (current : Option String) (v : Val) : Bool :=
  match current with
  | some digest => v == .str digest
  | none => v == .null

/-- `str(data.get(key, ""))` -/
def textOf (field : Option Val) : String :=
  match field with
  | none => ""
  | some v => v.text

namespace recovery

def MAX_BACKUP_BYTES : Nat := 50 * 1024 * 1024

/-- `except (OSError, json.JSONDecodeError, RecoveryError)` -/
def journalError (e : Err) : Bool := e.isOSError || e.isJSONDecodeError || e.isRecoveryError

def unreadable (e : Err) : Bool := e.isOSError || e.isJSONDecodeError

inductive Outcome
  | recovered
  | verified
  | required
  deriving DecidableEq, Repr

/-- The journal in a directory that is given by its absolute path. -/
structure RecoveryStore where
  root : Path
  resolved : policy.resolved root = root
  root_ne : root ≠ "/"

/-- A store for the sample hosts. -/
def RecoveryStore.sample : RecoveryStore := ⟨"/store", by decide +kernel, by decide⟩

/-- What `recover` has seen and decided so far. -/
structure Summary where
  recovered : List String := []
  recovery_required : List String := []
  deferred : List String := []
  verified : Nat := 0
  orphans : List String := []
  seen_backup_ids : List String := []

inductive RollbackAction
  | deleted
  | restored (restored_sha256 : String)
  deriving DecidableEq, Repr

/-- The result of a rollback that reports `ROLLED_BACK`. -/
structure RollbackResult where
  receipt_id : String
  rollback_receipt_id : String
  path : Path
  action : RollbackAction
  deriving DecidableEq, Repr

namespace RecoveryStore

variable [Text] [Host Bytes] (self : RecoveryStore)

def receipt_path (receipt_id : String) : Path := self.root ++ "/" ++ receipt_id ++ ".json"

def backup_path (receipt_id : String) : Path := self.root ++ "/" ++ receipt_id ++ ".bak"

/-- `self.root / f"{source_id}.json"`: an absolute id replaces the root. -/
def source_text (source_id : String) : String :=
  if source_id.toList.head? = some '/' then source_id ++ ".json" else self.receipt_path source_id

/-- The file of a source: a dotted id can lead out of the store. -/
def source_path (source_id : String) : Path :=
  if '/' ∈ source_id.toList then policy.resolved (self.source_text source_id)
  else self.receipt_path source_id

/-- The attempts of `_new_receipt_id`. -/
def allocate (prefix_text : String) : Nat → Jvc Bytes String
  | 0 => throw allocation_error
  | n + 1 => do
    let stamp ← draw_stamp
    let rid := prefix_text ++ stamp.text
    if ← is_file (self.receipt_path rid) then allocate prefix_text n
    else if ← is_file (self.backup_path rid) then allocate prefix_text n
    else pure rid

/-- Generate a collision-safe receipt ID. -/
def new_receipt_id (project_id : String) (kind : String) : Jvc Bytes String :=
  self.allocate (kind ++ "-" ++ project_id ++ "-") 100

def iter_receipt_files : Jvc Bytes (List Path) := do
  let files ← glob self.root "recovery-" ".json"
  let more ← glob self.root "rollback-" ".json"
  pure (files ++ more)

def load_validated (meta_file : Path) : Jvc Bytes Receipt := do
  let raw ← read_json meta_file
  .ofExcept (validate_receipt raw)

/-- Reread and schema-validate a receipt; raise RecoveryError if bad. -/
def read_validated (meta_file : Path) : Jvc Bytes Receipt := do
  let raw ← tryCatch (read_json meta_file) fun e =>
    if unreadable e then throw (.RecoveryError s!"receipt unreadable: {meta_file.name}")
    else throw e
  .ofExcept (validate_receipt raw)

def valid_among : List Path → Jvc Bytes (List (Path × Receipt))
  | [] => pure []
  | meta_file :: rest => do
    let found ← attempt (read_validated meta_file) journalError
    let more ← valid_among rest
    match found with
    | some data => pure ((meta_file, data) :: more)
    | none => pure more

/-- All schema-valid receipts (any project/path/state). -/
def all_valid_receipts : Jvc Bytes (List (Path × Receipt)) := do
  let files ← self.iter_receipt_files
  valid_among files

/-- The receipts of one project and target. -/
def concerns (project_id : String) (target_resolved : Path) (data : Receipt) : Bool :=
  data.project_id == project_id && data.path == target_resolved

/-- The prev-pointers of the receipts in the given states. -/
def references (project_id : String) (target_resolved : Path) (states : TxState → Bool)
    (receipts : List (Path × Receipt)) : List String :=
  receipts.filterMap fun entry =>
    if concerns project_id target_resolved entry.2 && (get entry.2.prev_receipt_id).truthy &&
        states entry.2.tx_state
    then some (get entry.2.prev_receipt_id).text else none

def effectiveState : TxState → Bool
  | .APPLIED | .VERIFIED => true
  | _ => false

/-- Split prev-pointers into effective vs ambiguous ones. -/
def chain_references (project_id : String) (target_resolved : Path) :
    Jvc Bytes (List String × List String) := do
  let receipts ← self.all_valid_receipts
  pure (references project_id target_resolved effectiveState receipts,
    references project_id target_resolved TxState.blocking receipts)

/-- The receipts whose recorded postimage is the content about to be replaced. -/
def superseded_matches (project_id : String) (target_resolved : Path) (pre_hash : String)
    (receipts : List (Path × Receipt)) : List String :=
  (receipts.filter fun entry =>
    concerns project_id target_resolved entry.2 &&
      entry.2.original_operation == .FS_WRITE && entry.2.tx_state == .VERIFIED &&
        get entry.2.postimage_sha256 == .str pre_hash).map fun entry => entry.2.receipt_id

/-- `key > (best[0], best[1])` -/
def laterKey (key best : Int × String) : Bool :=
  decide (best.1 < key.1) || (key.1 == best.1 && decide (best.2 < key.2))

/-- The later of the best terminal receipt so far and one more receipt. -/
def later_terminal (project_id : String) (target_resolved : Path) (best : Option (Int × String))
    (entry : Path × Receipt) : Option (Int × String) :=
  if concerns project_id target_resolved entry.2 &&
      entry.2.original_operation == .FS_WRITE && entry.2.tx_state.terminal then
    let key := ((get entry.2.seq).seqNumber, entry.2.receipt_id)
    match best with
    | none => some key
    | some b => if laterKey key b then some key else some b
  else best

/-- The latest terminal receipt, by recorded sequence number and id. -/
def latest_terminal (project_id : String) (target_resolved : Path)
    (receipts : List (Path × Receipt)) : Option (Int × String) :=
  receipts.foldl (later_terminal project_id target_resolved) none

/-- Find the receipt ID this new write supersedes (chain link): the only
unreferenced exact postimage match for edits, the latest terminal receipt for
creates. -/
def find_superseded_id (project_id : String) (target_resolved : Path) (content : Option Bytes) :
    Jvc Bytes (Option String) := do
  let all_valid ← self.all_valid_receipts
  let (effective, _) ← self.chain_references project_id target_resolved
  match content with
  | some data =>
    let found := superseded_matches project_id target_resolved (sha256_bytes data) all_valid
    match found.filter fun rid => !effective.contains rid with
    | [rid] => pure (some rid)
    | _ => pure none
  | none => pure ((latest_terminal project_id target_resolved all_valid).map Prod.snd)

/-- Persist the backup bytes and verify them immediately. -/
def write_backup (receipt_id : String) (content : Bytes) : Jvc Bytes Unit := do
  raiseIf (MAX_BACKUP_BYTES < Host.size content)
    (.RecoveryError s!"file exceeds max backup limit: {Host.size content} bytes")
  durable_write_bytes (self.backup_path receipt_id) content
  let written ← sha256_file (self.backup_path receipt_id)
  raiseIf (written != sha256_bytes content)
    (.RecoveryError "backup verification failed immediately after write")

def optStr (text : Option String) : Val := (text.map Val.str).getD .null

/-- The PREPARED record of a governed write. -/
def preparedWrite (receipt_id project_id : String) (target : Path) (content : Option Bytes)
    (prev : Option String) (seq : Int) : Dict where
  receipt_id := some (.str receipt_id)
  project_id := some (.str project_id)
  path := some (.str target)
  original_operation := some (.str Operation.FS_WRITE.value)
  prev_receipt_id := some (optStr prev)
  preimage_exists := some (.bool content.isSome)
  preimage_sha256 := some (optStr (content.map sha256_bytes))
  postimage_sha256 := some .null
  backup_file := some (optStr (content.map fun _ => self.backup_path receipt_id))
  seq := some (.int seq)
  tx_state := some (.str TxState.PREPARED.value)

/-- Save preimage bytes before mutation and return the receipt id.

Creates a durable PREPARED transaction record BEFORE the target is mutated, so
a crash at any later point is detectable on restart. -/
def save_preimage (project_id : String) (target : Path) (content : Option Bytes) :
    Jvc Bytes String := do
  let rid ← self.new_receipt_id project_id "recovery"
  match content with
  | some data => self.write_backup rid data
  | none => pure ()
  let prev ← self.find_superseded_id project_id target content
  let seq ← time_ns
  atomic_write_json (self.receipt_path rid) (self.preparedWrite rid project_id target content prev seq)
  pure rid

/-- `data.get(...)` on a parsed document raises on anything but an object. -/
def asObject : Document → Except Err Dict
  | .obj data => .ok data
  | .other _ => .error (.AttributeError "object has no attribute 'get'")

/-- Transition PREPARED -> APPLIED after the target was replaced. -/
def note_target_replaced (receipt_id : String) (post_sha256 : String) : Jvc Bytes Unit := do
  let present ← is_file (self.receipt_path receipt_id)
  raiseIf (!present) (.RecoveryError s!"recovery receipt missing: {receipt_id}")
  let raw ← tryCatch (read_json (self.receipt_path receipt_id)) fun e =>
    if unreadable e then throw (.RecoveryError s!"recovery receipt unreadable: {receipt_id}")
    else throw e
  let data ← Prog.ofExcept (asObject raw)
  raiseIf (get data.tx_state != .str TxState.PREPARED.value)
    (.RecoveryError s!"unexpected transaction state on {receipt_id}: {(get data.tx_state).text}")
  atomic_write_json (self.receipt_path receipt_id)
    { data with
      postimage_sha256 := some (.str (Text.upper post_sha256))
      tx_state := some (.str TxState.APPLIED.value) }

/-- Verify the on-disk target and transition APPLIED -> VERIFIED. -/
def record_postimage (receipt_id : String) (post_sha256 : String) : Jvc Bytes Unit := do
  let present ← is_file (self.receipt_path receipt_id)
  raiseIf (!present) (.RecoveryError s!"recovery receipt missing: {receipt_id}")
  let raw ← read_json (self.receipt_path receipt_id)
  let data ← Prog.ofExcept (asObject raw)
  raiseIf (!(get data.tx_state).hashable) (.TypeError "unhashable type")
  raiseIf (get data.tx_state != .str TxState.PREPARED.value &&
      get data.tx_state != .str TxState.APPLIED.value)
    (.RecoveryError s!"unexpected transaction state on {receipt_id}: {(get data.tx_state).text}")
  let expected := Text.upper post_sha256
  let applied : Dict :=
    { data with
      postimage_sha256 := some (.str expected)
      tx_state := some (.str TxState.APPLIED.value) }
  atomic_write_json (self.receipt_path receipt_id) applied
  raiseIf data.path.isNone (.KeyError "path")
  match ← attempt (sha256_file (located Bytes (textOf data.path))) Err.isOSError with
  | none => do
    atomic_write_json (self.receipt_path receipt_id)
      { applied with tx_state := some (.str TxState.RECOVERY_REQUIRED.value) }
    throw (.RecoveryError s!"target unreadable during finalization of {receipt_id}")
  | some current =>
    if current != expected then do
      atomic_write_json (self.receipt_path receipt_id)
        { applied with tx_state := some (.str TxState.RECOVERY_REQUIRED.value) }
      throw (.RecoveryError
        s!"postimage verification failed for {receipt_id}: expected {expected}, observed {current}")
    else
      atomic_write_json (self.receipt_path receipt_id)
        { applied with tx_state := some (.str TxState.VERIFIED.value) }

/-- Check a receipt's backup exists and matches (when preimage exists). -/
def backup_ok (data : Receipt) : Jvc Bytes Bool := do
  let backup_ref := get data.backup_file
  let expected := get data.preimage_sha256
  if !data.preimage_exists then pure true
  else if !backup_ref.truthy || !expected.truthy then pure false
  else do
    let checked ← attempt (do
      if ← stat (located Bytes backup_ref.text) backup_ref.text then
        let digest ← sha256_file (located Bytes backup_ref.text)
        pure (expected == .str digest)
      else pure false) Err.isOSError
    pure (checked.getD false)

/-- Write the receipt back in a new state. -/
def mark (meta_file : Path) (data : Receipt) (state : TxState) (outcome : Outcome) :
    Jvc Bytes Outcome := do
  atomic_write_json meta_file { data with tx_state := state }.dict
  pure outcome

/-- `target.is_file()` and, if so, its digest. -/
def observe (target : String) : Jvc Bytes (Bool × Option String) := do
  if ← stat (located Bytes target) target then
    let digest ← sha256_file (located Bytes target)
    pure (true, some digest)
  else pure (false, none)

/-- Mark the rollback receipt VERIFIED and its source ROLLED_BACK. -/
def finalize_rollback (meta_file : Path) (data : Dict) (source_id : String) : Jvc Bytes Unit := do
  atomic_write_json meta_file { data with tx_state := some (.str TxState.VERIFIED.value) }
  if source_id != "" then
    if ← stat (self.source_path source_id) (self.source_text source_id) then
      match ← attempt (load_validated (self.source_path source_id)) journalError with
      | none => pure ()
      | some source =>
        atomic_write_json (self.source_path source_id) { source with tx_state := .ROLLED_BACK }.dict
    else pure ()
  else pure ()

/-- Complete an interrupted rollback transaction idempotently. -/
def reconcile_rollback (meta_file : Path) (data : Receipt) (state : TxState) :
    Jvc Bytes Outcome := do
  let restored := get data.restored_sha256
  match ← attempt (observe data.path) Err.isOSError with
  | none => mark meta_file data .RECOVERY_REQUIRED .required
  | some (target_exists, current) =>
    match state with
    | .PREPARED =>
      if digestEq current (get data.expected_postimage_sha256) then
        mark meta_file data .RECOVERED_UNAPPLIED .recovered
      else mark meta_file data .RECOVERY_REQUIRED .required
    | .APPLIED =>
      if restored.truthy && (digestEq current restored ||
          (restored == .str "__ABSENT__" && !target_exists)) then do
        self.finalize_rollback meta_file data.dict (textOf data.rollback_of)
        pure .verified
      else mark meta_file data .RECOVERY_REQUIRED .required
    | _ => mark meta_file data .RECOVERY_REQUIRED .required

/-- The decision of `_reconcile_one` once the target has been observed. -/
def settle_write (meta_file : Path) (data : Receipt) (state : TxState) (target_exists : Bool)
    (current : Option String) : Jvc Bytes Outcome :=
  match state with
  | .PREPARED =>
    -- Safe only if the target still matches the preimage (or is still absent).
    if (!data.preimage_exists && !target_exists) ||
        (data.preimage_exists && digestEq current (get data.preimage_sha256)) then
      mark meta_file data .RECOVERED_UNAPPLIED .recovered
    else mark meta_file data .RECOVERY_REQUIRED .required
  | .APPLIED =>
    if (get data.postimage_sha256).truthy && digestEq current (get data.postimage_sha256) then
      mark meta_file data .VERIFIED .verified
    else mark meta_file data .RECOVERY_REQUIRED .required
  | _ => mark meta_file data .RECOVERY_REQUIRED .required

def reconcile_one (meta_file : Path) (data : Receipt) (state : TxState) : Jvc Bytes Outcome :=
  match data.original_operation with
  | .ROLLBACK => self.reconcile_rollback meta_file data state
  | .FS_WRITE => do
    if !(← backup_ok data) then mark meta_file data .RECOVERY_REQUIRED .required
    else
      match ← attempt (observe data.path) Err.isOSError with
      | none => mark meta_file data .RECOVERY_REQUIRED .required
      | some (target_exists, current) => settle_write meta_file data state target_exists current

/-- Audit an already-terminal receipt; complete rollback sources. -/
def audit_verified (meta_file : Path) (data : Receipt) : Jvc Bytes Outcome :=
  match data.original_operation with
  | .ROLLBACK => do
    self.finalize_rollback meta_file data.dict (textOf data.rollback_of)
    pure .verified
  | .FS_WRITE => do
    if ← backup_ok data then pure .verified
    else mark meta_file data .RECOVERY_REQUIRED .required

/-- Mark a structurally invalid receipt fail-closed in place. -/
def mark_invalid (meta_file : Path) (raw : Document) : Jvc Bytes Unit :=
  match raw with
  | .obj data =>
    atomic_write_json meta_file
      { data with tx_state := some (.str TxState.RECOVERY_REQUIRED.value) }
  | .other _ => pure ()

/-- Make one recovery decision on freshly reread receipt state. -/
def decide_locked (meta_file : Path) : Jvc Bytes Outcome := do
  match ← attempt (read_validated meta_file) Err.isRecoveryError with
  | none => do
    let _ ← attempt (read_json meta_file >>= mark_invalid meta_file) unreadable
    pure .required
  | some data =>
    match data.tx_state with
    | .VERIFIED => self.audit_verified meta_file data
    | .RECOVERED_UNAPPLIED | .ROLLED_BACK | .SUPERSEDED => pure .recovered
    | .RECOVERY_REQUIRED => pure .required
    | state => self.reconcile_one meta_file data state

def Summary.add (s : Summary) (rid : String) : Outcome → Summary
  | .recovered => { s with recovered := s.recovered ++ [rid] }
  | .verified => { s with verified := s.verified + 1 }
  | .required => { s with recovery_required := s.recovery_required ++ [rid] }

/-- `with lock_for(path): _decide_locked(meta_file)`, deferring on a timeout. -/
def decide_under (lock_for : Option (Path → LockName)) (meta_file : Path) (data : Receipt)
    (s : Summary) : Jvc Bytes Summary := do
  let decision : Jvc Bytes Outcome :=
    match lock_for with
    | some lock => with_lock (lock data.path) (self.decide_locked meta_file)
    | none => self.decide_locked meta_file
  match ← attempt decision Err.isLockTimeout with
  | none => pure { s with deferred := s.deferred ++ [data.receipt_id] }
  | some outcome => pure (Summary.add s data.receipt_id outcome)

/-- A valid receipt in the scan: terminal and blocking states and intact
VERIFIED writes are read without the lock, all others decided under it. -/
def recover_valid (lock_for : Option (Path → LockName)) (meta_file : Path) (data : Receipt)
    (s : Summary) : Jvc Bytes Summary := do
  let seen := if (get data.backup_file).truthy
    then s.seen_backup_ids ++ [Path.name (get data.backup_file).text] else s.seen_backup_ids
  let s := { s with seen_backup_ids := seen }
  match data.tx_state with
  | .RECOVERY_REQUIRED => pure (Summary.add s data.receipt_id .required)
  | .RECOVERED_UNAPPLIED | .ROLLED_BACK | .SUPERSEDED =>
    pure (Summary.add s data.receipt_id .recovered)
  | .VERIFIED =>
    if data.original_operation == .FS_WRITE then
      if ← backup_ok data then pure (Summary.add s data.receipt_id .verified)
      else self.decide_under lock_for meta_file data s
    else self.decide_under lock_for meta_file data s
  | _ => self.decide_under lock_for meta_file data s

/-- One receipt file of the recovery scan. -/
def recover_file (lock_for : Option (Path → LockName)) (meta_file : Path) (s : Summary) :
    Jvc Bytes Summary := do
  match ← attempt (read_json meta_file) unreadable with
  | none => pure (Summary.add s meta_file.name .required)
  | some raw =>
    match validate_receipt raw with
    | .ok data => self.recover_valid lock_for meta_file data s
    | .error e =>
      if e.isRecoveryError then
        match raw with
        | .obj data => do
          let _ ← attempt (mark_invalid meta_file raw) Err.isOSError
          pure (Summary.add s (match data.receipt_id with
            | some v => v.text
            | none => meta_file.name) .required)
        | .other _ => pure (Summary.add s meta_file.name .required)
      else throw e

def recover_scan (lock_for : Option (Path → LockName)) :
    List Path → Summary → Jvc Bytes Summary
  | [], s => pure s
  | meta_file :: rest, s => do
    let s ← self.recover_file lock_for meta_file s
    recover_scan lock_for rest s

def find_orphan_backups (seen : List String) : Jvc Bytes (List String) := do
  let files ← glob self.root "" ".bak"
  pure ((files.map Path.name).filter fun name => !seen.contains name)

/-- Reconcile interrupted transactions after a restart. -/
def recover (lock_for : Option (Path → LockName)) : Jvc Bytes Summary := do
  let files ← self.iter_receipt_files
  let s ← self.recover_scan lock_for files {}
  let orphans ← self.find_orphan_backups s.seen_backup_ids
  pure { s with orphans }

def corrupt_among : List Path → Jvc Bytes (List String)
  | [] => pure []
  | meta_file :: rest => do
    let found ← attempt (load_validated meta_file) journalError
    let more ← corrupt_among rest
    match found with
    | some _ => pure more
    | none => pure (meta_file.name :: more)

/-- List receipt files that are unparseable or schema-invalid. -/
def corrupt_receipt_files : Jvc Bytes (List String) := do
  let files ← self.iter_receipt_files
  corrupt_among files

/-- The reason `has_blocking_state` returns. -/
inductive Blocker
  | store_corrupt (file : String)
  | receipt (receipt_id : String)
  deriving DecidableEq, Repr

def blocking_among (project_id : String) (target : Path) : List Path → Jvc Bytes (Option Blocker)
  | [] => pure none
  | meta_file :: rest => do
    match ← attempt (load_validated meta_file) journalError with
    | none => blocking_among project_id target rest
    | some data =>
      if concerns project_id target data && data.tx_state.blocking then
        pure (some (.receipt data.receipt_id))
      else blocking_among project_id target rest

/-- Return a blocking reason if mutation of target must not proceed. -/
def has_blocking_state (project_id : String) (target : Path) : Jvc Bytes (Option Blocker) := do
  match ← self.corrupt_receipt_files with
  | file :: _ => pure (some (.store_corrupt file))
  | [] =>
    let files ← self.iter_receipt_files
    blocking_among project_id target files

structure Reconciled where
  reconciled : List String := []
  recovery_required : List String := []

def reconcile_among (project_id : String) (target : Path) :
    List Path → Reconciled → Jvc Bytes Reconciled
  | [], s => pure s
  | meta_file :: rest, s => do
    match ← attempt (read_validated meta_file) journalError with
    | none => reconcile_among project_id target rest s
    | some data =>
      if !concerns project_id target data then reconcile_among project_id target rest s
      else if !data.tx_state.incomplete then
        reconcile_among project_id target rest
          (if data.tx_state.blocking
            then { s with recovery_required := s.recovery_required ++ [data.receipt_id] } else s)
      else do
        let outcome ← self.reconcile_one meta_file data data.tx_state
        reconcile_among project_id target rest
          (if outcome = .required
            then { s with recovery_required := s.recovery_required ++ [data.receipt_id] }
            else { s with reconciled := s.reconciled ++ [data.receipt_id] })

/-- Reconcile incomplete transactions for one target (lock held). -/
def reconcile_target (project_id : String) (target : Path) : Jvc Bytes Reconciled := do
  let files ← self.iter_receipt_files
  self.reconcile_among project_id target files {}

def candidates_among (project_id : String) (target : Path) (expected_post : String) :
    List Path → Jvc Bytes (List Receipt)
  | [] => pure []
  | meta_file :: rest => do
    let found ← attempt (load_validated meta_file) journalError
    let more ← candidates_among project_id target expected_post rest
    match found with
    | none => pure more
    | some data =>
      if concerns project_id target data && get data.postimage_sha256 == .str expected_post &&
          data.original_operation == .FS_WRITE && data.tx_state == .VERIFIED then
        pure (data :: more)
      else pure more

/-- Find the head VERIFIED receipt for a file/postimage pair: the candidate no
standing receipt points to. Ambiguous lineage raises. -/
def find_latest_receipt (project_id : String) (target : Path) (expected_postimage_sha256 : String) :
    Jvc Bytes (Option Receipt) := do
  let expected_post := strip (Text.upper expected_postimage_sha256)
  let files ← glob self.root ("recovery-" ++ project_id ++ "-") ".json"
  let candidates ← candidates_among project_id target expected_post files
  if candidates.isEmpty then pure none
  else do
    let (effective, ambiguous) ← self.chain_references project_id target
    match candidates.filter fun c => !effective.contains c.receipt_id with
    | [head] =>
      raiseIf (ambiguous.contains head.receipt_id)
        (.RecoveryRequiredError s!"ambiguous rollback lineage for {target}: a RECOVERY_REQUIRED transaction points at the head candidate {head.receipt_id}; resolve recovery first")
      pure (some head)
    | heads =>
      throw (.RecoveryRequiredError s!"ambiguous rollback lineage for {target} with postimage {expected_post}: {heads.length} head candidates; resolve recovery first")

/-- One pending receipt overtaken by an imminent rollback. -/
def supersede_one (target : Path) (current : Option String) (meta_file : Path) (data : Receipt) :
    Jvc Bytes (Option String) :=
  match data.original_operation, data.tx_state with
  | .ROLLBACK, state => do
    let outcome ← self.reconcile_one meta_file data state
    raiseIf (outcome = .required) (.RecoveryRequiredError
      s!"unresolved rollback transaction blocks rollback of {target}: {data.receipt_id}")
    pure none
  | .FS_WRITE, .PREPARED => do
    let outcome ← self.reconcile_one meta_file data .PREPARED
    raiseIf (outcome = .required) (.RecoveryRequiredError
      s!"unresolved prepared transaction blocks rollback of {target}: {data.receipt_id}; resolve recovery first")
    let data ← read_validated meta_file
    atomic_write_json meta_file { data with tx_state := .SUPERSEDED }.dict
    pure (some data.receipt_id)
  | .FS_WRITE, _ => do
    -- APPLIED: finalize iff the bytes are still the ones recorded.
    if (get data.postimage_sha256).truthy && digestEq current (get data.postimage_sha256) then do
      atomic_write_json meta_file { data with tx_state := .VERIFIED }.dict
      pure none
    else do
      atomic_write_json meta_file { data with tx_state := .RECOVERY_REQUIRED }.dict
      throw (.RecoveryRequiredError
        s!"ambiguous applied transaction blocks rollback of {target}: {data.receipt_id}; resolve recovery first")

def supersede_among (project_id : String) (target : Path) (current : Option String) :
    List Path → Jvc Bytes (List String)
  | [] => pure []
  | meta_file :: rest => do
    match ← attempt (read_validated meta_file) journalError with
    | none => supersede_among project_id target current rest
    | some data =>
      if concerns project_id target data && data.tx_state.incomplete then do
        let superseded ← self.supersede_one target current meta_file data
        let more ← supersede_among project_id target current rest
        pure (superseded.toList ++ more)
      else supersede_among project_id target current rest

/-- Settle pending intents overtaken by an imminent rollback (lock held). -/
def supersede_pending (project_id : String) (target : Path) : Jvc Bytes (List String) := do
  let observed ← attempt (observe target) Err.isOSError
  let files ← self.iter_receipt_files
  self.supersede_among project_id target (observed.bind Prod.snd) files

/-- The PREPARED record of a rollback. -/
def preparedRollback (rb_id project_id : String) (target : Path) (source_id current_hash : String)
    (seq : Int) : Dict where
  receipt_id := some (.str rb_id)
  project_id := some (.str project_id)
  path := some (.str target)
  original_operation := some (.str Operation.ROLLBACK.value)
  rollback_of := some (.str source_id)
  preimage_exists := some (.bool true)
  preimage_sha256 := some (.str current_hash)
  postimage_sha256 := some .null
  expected_postimage_sha256 := some (.str current_hash)
  restored_sha256 := some .null
  backup_file := some .null
  seq := some (.int seq)
  tx_state := some (.str TxState.PREPARED.value)

/-- Journal the completed replacement and finalize both receipts. -/
def complete_rollback (rb_id : String) (rb_receipt : Dict) (restored source_id : String) :
    Jvc Bytes Unit := do
  let applied : Dict :=
    { rb_receipt with
      restored_sha256 := some (.str restored)
      tx_state := some (.str TxState.APPLIED.value) }
  atomic_write_json (self.receipt_path rb_id) applied
  self.finalize_rollback (self.receipt_path rb_id) applied source_id

/-- Mark the rollback receipt RECOVERY_REQUIRED and raise. -/
def abandon_rollback (rb_id : String) (rb_receipt : Dict) (message : String) : Jvc Bytes α := do
  atomic_write_json (self.receipt_path rb_id)
    { rb_receipt with tx_state := some (.str TxState.RECOVERY_REQUIRED.value) }
  throw (.RecoveryError message)

/-- Replace the target by the backup of the receipt being rolled back. -/
def restore_backup (rb_id : String) (rb_receipt : Dict) (target : Path) (receipt : Receipt) :
    Jvc Bytes RollbackResult := do
  let backup_file := textOf receipt.backup_file
  let expected_preimage := get receipt.preimage_sha256
  if ← is_file (located Bytes backup_file) then
    let backup_hash ← sha256_file (located Bytes backup_file)
    if expected_preimage != .str backup_hash then
      self.abandon_rollback rb_id rb_receipt
        s!"recovery backup hash mismatch: expected {expected_preimage.text}, observed {backup_hash}"
    else
      let backup_data ← read_bytes (located Bytes backup_file)
      durable_write_bytes target backup_data
      let final_hash ← sha256_file target
      if expected_preimage != .str final_hash then
        self.abandon_rollback rb_id rb_receipt
          s!"rollback post-verification failed: expected {expected_preimage.text}, observed {final_hash}"
      else
        self.complete_rollback rb_id rb_receipt final_hash receipt.receipt_id
        pure ⟨receipt.receipt_id, rb_id, target, .restored final_hash⟩
  else self.abandon_rollback rb_id rb_receipt s!"recovery backup missing: {backup_file}"

/-- Undo one receipt: journal the intent, replace or unlink the target, finalize. -/
def apply_rollback (project_id : String) (target : Path) (current_hash : String)
    (receipt : Receipt) : Jvc Bytes RollbackResult := do
  let rb_id ← self.new_receipt_id project_id "rollback"
  let seq ← time_ns
  let rb_receipt := preparedRollback rb_id project_id target receipt.receipt_id current_hash seq
  atomic_write_json (self.receipt_path rb_id) rb_receipt
  if !receipt.preimage_exists then
    -- File was created; rollback deletes it.
    unlink target
    self.complete_rollback rb_id rb_receipt "__ABSENT__" receipt.receipt_id
    pure ⟨receipt.receipt_id, rb_id, target, .deleted⟩
  else self.restore_backup rb_id rb_receipt target receipt

/-- Durably rollback target to its previous state using the recovery store. -/
def rollback (project_id : String) (target : Path) (expected_postimage_sha256 : String) :
    Jvc Bytes RollbackResult := do
  let corrupt ← self.corrupt_receipt_files
  raiseIf (!corrupt.isEmpty) (.RecoveryRequiredError
    s!"corrupt recovery journal blocks rollback of {target}: repair or remove {first corrupt} and re-run recovery first")
  let present ← stat target target
  raiseIf (!present) (.RecoveryError s!"rollback target missing: {target}")
  let current_hash ← sha256_file target
  raiseIf (current_hash != strip (Text.upper expected_postimage_sha256))
    (.RecoveryError
      s!"stale postimage on rollback target: expected {expected_postimage_sha256}, observed {current_hash}")
  let _ ← self.supersede_pending project_id target
  match ← self.find_latest_receipt project_id target current_hash with
  | none =>
    throw (.RecoveryError
      s!"no matching governed recovery receipt for {target} with postimage {current_hash}")
  | some receipt => self.apply_rollback project_id target current_hash receipt

end RecoveryStore

end recovery

end jvc
