import Jvc.Configuration
import Jvc.Policy.Boundaries
import Jvc.Recovery.Store

open program jvc.recovery jvc.policy

namespace jvc

/-- Governed local executor. Host-owned stores live outside every governed root. -/
structure GovernedExecutor where
  registry : ProjectRegistry
  recovery_store : RecoveryStore
  confirmation_store : Path
  stores_outside : ∀ r ∈ registry.route_list,
    is_within_store recovery_store.root r.root = false ∧
      is_within_store confirmation_store r.root = false

/-- What a governed write returns: a `PASS` result or a pending confirmation. -/
inductive WriteReply
  | PASS (op_class project_id path receipt_id : String) (preimage_sha256 : Option String)
      (postimage_sha256 : String)
  | REQUIRES_CONFIRMATION (project_id path : String)
  deriving DecidableEq, Repr

namespace GovernedExecutor

variable {Bytes : Type} [Text] [Host Bytes] (self : GovernedExecutor)

def target_lock (target : Path) : LockName := lock_name_for_resource .fs target

/-- Re-run restart recovery over the recovery journal. -/
def recover : Jvc Bytes Summary := self.recovery_store.recover (some target_lock)

def resolve_project (project_id : String) : Jvc Bytes Route := do
  match self.registry.get project_id with
  | none => throw (.ValueError ("unregistered project_id: " ++ Text.repr project_id))
  | some route =>
    let present ← is_dir route.root
    raiseIf (!present) (.ValueError s!"project root directory missing: {route.root}")
    pure route

def assert_outside_host_stores (target : Path) : Jvc Bytes Unit :=
  raiseIf (is_within_store target self.confirmation_store ||
      is_within_store target self.recovery_store.root)
    (.PermissionError
      s!"host-owned trust/recovery store is not reachable via governed paths: {target}")

/-- `if not expected_preimage_sha256` -/
def absent (expected_preimage_sha256 : Option String) : Bool :=
  expected_preimage_sha256.getD "" == ""

/-- CAS verification inside the lock: the content of the target and whether it
is the one the caller expects. -/
def check_preimage (target : Path) (canonical_rel : String)
    (expected_preimage_sha256 : Option String) : Jvc Bytes (Option Bytes) := do
  -- `target.is_file()` raises for a name that is too long.
  raiseIf (too_long target) (name_too_long target)
  if ← is_file target then
    let preimage_bytes ← read_bytes target
    raiseIf (absent expected_preimage_sha256)
      (.ValueError s!"expected_preimage_sha256 required for existing file: {canonical_rel}")
    let expected := expected_preimage_sha256.getD ""
    raiseIf (sha256_bytes preimage_bytes != strip (Text.upper expected))
      (.ValueError s!"preimage CAS conflict on {canonical_rel}: expected {expected}, observed {sha256_bytes preimage_bytes}")
    pure (some preimage_bytes)
  else
    raiseIf (!absent expected_preimage_sha256)
      (.ValueError s!"preimage supplied for missing file: {canonical_rel}")
    pure none

/-- Reconcile-or-deny, then deny on any blocking state of the target or store. -/
def assert_unblocked (project_id : String) (target : Path) (canonical_rel : String) :
    Jvc Bytes Unit := do
  let pending ← self.recovery_store.reconcile_target project_id target
  raiseIf (!pending.recovery_required.isEmpty) (.RecoveryRequiredError
    s!"RECOVERY_REQUIRED blocks mutation of {canonical_rel}: resolve receipt {first pending.recovery_required} first")
  match ← self.recovery_store.has_blocking_state project_id target with
  | none => pure ()
  | some (.store_corrupt file) => throw (.RecoveryRequiredError
      s!"corrupt recovery journal blocks mutation of {canonical_rel}: repair or remove {file} and re-run recovery first")
  | some (.receipt receipt_id) => throw (.RecoveryRequiredError
      s!"RECOVERY_REQUIRED blocks mutation of {canonical_rel}: resolve receipt {receipt_id} first")

/-- The journaled replacement of the target. -/
def replace_target (project_id : String) (target : Path) (canonical_rel : String)
    (preimage_bytes : Option Bytes) (content : Bytes) : Jvc Bytes WriteReply := do
  let receipt_id ← self.recovery_store.save_preimage project_id target preimage_bytes
  install target content receipt_id
  let post_hash ← sha256_file target
  self.recovery_store.note_target_replaced receipt_id post_hash
  self.recovery_store.record_postimage receipt_id post_hash
  pure (.PASS (if preimage_bytes.isSome then "FILE_EDIT" else "FILE_CREATE") project_id canonical_rel
    receipt_id (preimage_bytes.map sha256_bytes) post_hash)

/-- The read/validate/mutate critical section of a governed write. -/
def write_locked (project_id : String) (target : Path) (canonical_rel : String) (content : Bytes)
    (expected_preimage_sha256 : Option String) : Jvc Bytes WriteReply := do
  self.assert_unblocked project_id target canonical_rel
  let preimage_bytes ← check_preimage target canonical_rel expected_preimage_sha256
  self.replace_target project_id target canonical_rel preimage_bytes content

/-- A governed write whose authority is settled, up to its lock. -/
def write_permitted (route : Route) (project_id relative_path : String) (content : Bytes)
    (expected_preimage_sha256 : Option String) (authorized : Bool) : Jvc Bytes WriteReply := do
  let permitted ← Prog.ofExcept
    (assert_permitted_path route.root relative_path "FS_WRITE" authorized)
  self.assert_outside_host_stores permitted.1
  with_lock (target_lock permitted.1)
    (self.write_locked project_id permitted.1 permitted.2 content expected_preimage_sha256)

/-- Operator authority is required: the project is held or the path, as it was
given, names a control-plane file. -/
def needs_cap (route : Route) (relative_path : String) : Bool :=
  route.lifecycle == "held" || is_control_plane_path relative_path

/-- Perform an authorized governed file write. A write that needs operator
authority asks `authorize`, and `request` files a confirmation request where a
held project has none; `extra` are the names of additional keyword arguments. -/
def fs_write_with (authorize : Jvc Bytes Bool) (request : Jvc Bytes WriteReply)
    (project_id relative_path : String) (content : Bytes)
    (expected_preimage_sha256 : Option String) (extra : List String) : Jvc Bytes WriteReply := do
  raiseIf (extra.contains "permit_held_mutation" || extra.contains "confirm")
    (.PermissionError "caller-controlled authority escalation parameter rejected")
  let route ← self.resolve_project project_id
  let needs_cap := needs_cap route relative_path
  let authorized ← if needs_cap then authorize else pure false
  raiseIf (needs_cap && !authorized && is_control_plane_path relative_path) (.PermissionError
    s!"REQUIRES_OPERATOR_CONTROL_PLANE_CAPABILITY: control plane target denied: {relative_path}")
  if needs_cap && !authorized then request
  else self.write_permitted route project_id relative_path content expected_preimage_sha256 authorized

/-- A governed file write where `capability` is what
`validate_and_consume_capability` answers when a privileged write asks for it. -/
def fs_write (project_id relative_path : String) (content : Bytes)
    (expected_preimage_sha256 : Option String) (capability : Bool) (extra : List String) :
    Jvc Bytes WriteReply :=
  self.fs_write_with (pure capability) (pure (.REQUIRES_CONFIRMATION project_id relative_path))
    project_id relative_path content expected_preimage_sha256 extra

/-- The critical section of a governed rollback. -/
def rollback_locked (project_id : String) (target : Path) (canonical_rel : String)
    (expected_postimage_sha256 : String) : Jvc Bytes RollbackResult := do
  let corrupt ← self.recovery_store.corrupt_receipt_files
  raiseIf (!corrupt.isEmpty) (.RecoveryRequiredError
    s!"corrupt recovery journal blocks rollback of {canonical_rel}: repair or remove {first corrupt} and re-run recovery first")
  self.recovery_store.rollback project_id target expected_postimage_sha256

/-- Durably rollback target file using the recovery store. -/
def fs_rollback (project_id relative_path expected_postimage_sha256 : String) :
    Jvc Bytes RollbackResult := do
  let route ← self.resolve_project project_id
  let permitted ← Prog.ofExcept
    (assert_permitted_path route.root relative_path "FS_ROLLBACK" false)
  self.assert_outside_host_stores permitted.1
  with_lock (target_lock permitted.1)
    (self.rollback_locked project_id permitted.1 permitted.2 expected_postimage_sha256)

end GovernedExecutor

end jvc
