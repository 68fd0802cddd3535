import Mathlib.Tactic.Common

namespace jvc

/-- The exceptions the modelled functions raise or catch, with their texts. -/
inductive Err
  | RecoveryError (message : String)
  | RecoveryRequiredError (message : String)
  | ValueError (message : String)
  | PermissionError (message : String)
  | LockTimeoutError (message : String)
  | OSError (message : String)
  | JSONDecodeError
  | UnicodeDecodeError
  | UnicodeEncodeError
  | TypeError (message : String)
  | KeyError (key : String)
  | AttributeError (message : String)
  | RuntimeError (message : String)
  | RecursionError
  | OverflowError (message : String)
  | TimeoutExpired
  deriving DecidableEq, Repr

namespace Err

def isOSError : Err → Bool
  | .OSError _ => true
  | _ => false

def isJSONDecodeError : Err → Bool
  | .JSONDecodeError => true
  | _ => false

/-- `RecoveryRequiredError` is a subclass of `RecoveryError`. -/
def isRecoveryError : Err → Bool
  | .RecoveryError _ | .RecoveryRequiredError _ => true
  | _ => false

def isRecoveryRequired : Err → Bool
  | .RecoveryRequiredError _ => true
  | _ => false

def isLockTimeout : Err → Bool
  | .LockTimeoutError _ => true
  | _ => false

/-- What `_new_receipt_id` raises after its last attempt. -/
def allocation_error : Err := .RecoveryError "could not allocate a collision-free receipt ID"

end Err

export Err (allocation_error)

/-- A value of a parsed JSON field. Arrays, objects and floats are seen by the
recovery code only through their truth value, their hashability and `str()`. -/
inductive Val
  | null
  | bool (b : Bool)
  | int (n : Int)
  | str (s : String)
  | other (truthy hashable : Bool) (text : String)
  deriving DecidableEq, Repr

namespace Val

def truthy : Val → Bool
  | .null => false
  | .bool b => b
  | .int n => n != 0
  | .str s => s != ""
  | .other t _ _ => t

def hashable : Val → Bool
  | .other _ h _ => h
  | _ => true

/-- Python's `str(v)`. -/
def text : Val → String
  | .null => "None"
  | .bool true => "True"
  | .bool false => "False"
  | .int n => toString n
  | .str s => s
  | .other _ _ t => t

/-- `int(v) if isinstance(v, int) else -1`, where a Python bool is an int. -/
def seqNumber : Val → Int
  | .int n => n
  | .bool b => if b then 1 else 0
  | _ => -1

end Val

/-- `data.get(key)`: a missing key reads as `None`. -/
def get (field : Option Val) : Val := field.getD .null

namespace recovery

inductive TxState
  | PREPARED
  | APPLIED
  | VERIFIED
  | RECOVERED_UNAPPLIED
  | RECOVERY_REQUIRED
  | ROLLED_BACK
  | SUPERSEDED
  deriving DecidableEq, Repr

namespace TxState

def value : TxState → String
  | .PREPARED => "PREPARED"
  | .APPLIED => "APPLIED"
  | .VERIFIED => "VERIFIED"
  | .RECOVERED_UNAPPLIED => "RECOVERED_UNAPPLIED"
  | .RECOVERY_REQUIRED => "RECOVERY_REQUIRED"
  | .ROLLED_BACK => "ROLLED_BACK"
  | .SUPERSEDED => "SUPERSEDED"

/-- `KNOWN_STATES`. -/
def known : List TxState :=
  [.PREPARED, .APPLIED, .VERIFIED, .RECOVERED_UNAPPLIED, .RECOVERY_REQUIRED, .ROLLED_BACK,
    .SUPERSEDED]

def ofValue (s : String) : Option TxState := known.find? fun t => t.value == s

@[simp] theorem ofValue_value (t : TxState) : ofValue t.value = some t := by
  cases t <;> decide

theorem ofValue_eq_some {s : String} {t : TxState} (h : ofValue s = some t) : t.value = s := by
  have hfound := List.find?_some h
  simpa using hfound

theorem value_injective : Function.Injective value := by
  intro a b h
  have hb := ofValue_value b
  rw [← h, ofValue_value] at hb
  exact Option.some.inj hb

@[simp] theorem value_inj {a b : TxState} : a.value = b.value ↔ a = b := value_injective.eq_iff

/-- `TERMINAL_STATES`: safe to prune after retention, safe to ignore. -/
def terminal : TxState → Bool
  | .VERIFIED | .RECOVERED_UNAPPLIED | .ROLLED_BACK | .SUPERSEDED => true
  | _ => false

/-- `INCOMPLETE_STATES`: reconciled under the resource lock on recovery. -/
def incomplete : TxState → Bool
  | .PREPARED | .APPLIED => true
  | _ => false

/-- `BLOCKING_STATES`: block fresh mutation of the affected resource. -/
def blocking : TxState → Bool
  | .RECOVERY_REQUIRED => true
  | _ => false

end TxState

inductive Operation
  | FS_WRITE
  | ROLLBACK
  deriving DecidableEq, Repr

namespace Operation

def value : Operation → String
  | .FS_WRITE => "FS_WRITE"
  | .ROLLBACK => "ROLLBACK"

def ofValue (s : String) : Option Operation :=
  if s = "FS_WRITE" then some .FS_WRITE else if s = "ROLLBACK" then some .ROLLBACK else none

@[simp] theorem ofValue_value (o : Operation) : ofValue o.value = some o := by
  cases o <;> decide

theorem ofValue_eq_some {s : String} {o : Operation} (h : ofValue s = some o) : o.value = s := by
  unfold ofValue at h
  split at h
  · rename_i hs
    cases h
    exact hs.symm
  · split at h
    · rename_i hs
      cases h
      exact hs.symm
    · cases h

end Operation

/-- The receipt fields that `validate_receipt` does not look at, and the
remaining keys of the object, which no code reads. A value that is not the state may
nest too deep for `json.dumps`. -/
structure Details where
  prev_receipt_id : Option Val := none
  preimage_sha256 : Option Val := none
  postimage_sha256 : Option Val := none
  backup_file : Option Val := none
  seq : Option Val := none
  rollback_of : Option Val := none
  expected_postimage_sha256 : Option Val := none
  restored_sha256 : Option Val := none
  rest : List (String × Val) := []
  deep : Bool := false
  deriving DecidableEq, Repr

/-- A JSON object read from the journal, with any value under any key. -/
structure Dict extends Details where
  receipt_id : Option Val := none
  project_id : Option Val := none
  path : Option Val := none
  original_operation : Option Val := none
  preimage_exists : Option Val := none
  tx_state : Option Val := none
  deriving DecidableEq, Repr

/-- What `json.loads` returns: an object, or a JSON value that is not one. -/
inductive Document
  | obj (data : Dict)
  | other (value : Val)
  deriving DecidableEq, Repr

/-- A receipt that passed `validate_receipt`: the checked fields have their
types, and the identifying texts are non-empty. -/
structure Receipt extends Details where
  receipt_id : String
  project_id : String
  path : String
  original_operation : Operation
  preimage_exists : Bool
  tx_state : TxState
  receipt_id_ne : receipt_id ≠ ""
  project_id_ne : project_id ≠ ""
  path_ne : path ≠ ""
  deriving DecidableEq

/-- The object a receipt was read from, and is written back as. -/
def Receipt.dict (r : Receipt) : Dict :=
  { r.toDetails with
    receipt_id := some (.str r.receipt_id)
    project_id := some (.str r.project_id)
    path := some (.str r.path)
    original_operation := some (.str r.original_operation.value)
    preimage_exists := some (.bool r.preimage_exists)
    tx_state := some (.str r.tx_state.value) }

/-- `isinstance(data.get(key), str) and data[key]`, or the error naming the key. -/
def requireStr (key : String) (field : Option Val) : Except Err {s : String // s ≠ ""} :=
  match get field with
  | .str s => if h : s = "" then .error (.RecoveryError s!"receipt missing/invalid '{key}'")
      else .ok ⟨s, h⟩
  | _ => .error (.RecoveryError s!"receipt missing/invalid '{key}'")

/-- `tx_state in KNOWN_STATES`: set membership hashes the value first. -/
def requireState (field : Option Val) : Except Err TxState :=
  match get field with
  | .str s => match TxState.ofValue s with
    | some t => .ok t
    | none => .error (.RecoveryError s!"receipt missing/unknown tx_state: '{s}'")
  | .other _ false _ => .error (.TypeError "unhashable type")
  | v => .error (.RecoveryError s!"receipt missing/unknown tx_state: {v.text}")

def requireBool (field : Option Val) : Except Err Bool :=
  match get field with
  | .bool b => .ok b
  | _ => .error (.RecoveryError "receipt missing/invalid 'preimage_exists'")

def requireOperation (text : String) : Except Err Operation :=
  match Operation.ofValue text with
  | some o => .ok o
  | none => .error (.RecoveryError s!"unknown original_operation: '{text}'")

/-- Validate receipt schema; fail closed on anything unexpected. -/
def validate_receipt : Document → Except Err Receipt
  | .other _ => .error (.RecoveryError "receipt must be a JSON object")
  | .obj data => do
    let receipt_id ← requireStr "receipt_id" data.receipt_id
    let project_id ← requireStr "project_id" data.project_id
    let path ← requireStr "path" data.path
    let operation ← requireStr "original_operation" data.original_operation
    let original_operation ← requireOperation operation.val
    let preimage_exists ← requireBool data.preimage_exists
    let tx_state ← requireState data.tx_state
    return { data.toDetails with
      receipt_id := receipt_id.val, project_id := project_id.val, path := path.val
      original_operation, preimage_exists, tx_state
      receipt_id_ne := receipt_id.property, project_id_ne := project_id.property
      path_ne := path.property }

theorem requireStr_str {s : String} (key : String) (h : s ≠ "") :
    requireStr key (some (.str s)) = .ok ⟨s, h⟩ := by
  simp [requireStr, get, h]

theorem requireStr_eq_ok {key : String} {field : Option Val} {s : {s : String // s ≠ ""}}
    (h : requireStr key field = .ok s) : field = some (.str s.val) := by
  unfold requireStr at h
  cases field with
  | none => simp [get] at h
  | some v =>
    cases v with
    | str text =>
      simp only [get, Option.getD_some] at h
      split at h
      · cases h
      · cases h
        rfl
    | _ => simp [get] at h

theorem requireState_eq_ok {field : Option Val} {t : TxState} (h : requireState field = .ok t) :
    field = some (.str t.value) := by
  unfold requireState at h
  cases field with
  | none => simp [get] at h
  | some v =>
    cases v with
    | str text =>
      simp only [get, Option.getD_some] at h
      split at h
      · rename_i found hfound
        cases h
        rw [TxState.ofValue_eq_some hfound]
      · cases h
    | other truthy hashable text => cases hashable <;> simp [get] at h
    | _ => simp [get] at h

theorem requireBool_eq_ok {field : Option Val} {b : Bool} (h : requireBool field = .ok b) :
    field = some (.bool b) := by
  unfold requireBool at h
  cases field with
  | none => simp [get] at h
  | some v =>
    cases v with
    | bool value =>
      simp only [get, Option.getD_some] at h
      cases h
      rfl
    | _ => simp [get] at h

theorem requireOperation_eq_ok {text : String} {o : Operation} (h : requireOperation text = .ok o) :
    o.value = text := by
  unfold requireOperation at h
  split at h
  · rename_i found hfound
    cases h
    exact Operation.ofValue_eq_some hfound
  · cases h

@[simp] theorem requireState_value (t : TxState) : requireState (some (.str t.value)) = .ok t := by
  simp [requireState, get]

@[simp] theorem requireOperation_value (o : Operation) : requireOperation o.value = .ok o := by
  simp [requireOperation]

theorem Operation.value_ne_empty (o : Operation) : o.value ≠ "" := by
  cases o <;> decide

/-- A receipt survives being written and validated again. -/
@[simp] theorem validate_receipt_dict (r : Receipt) : validate_receipt (.obj r.dict) = .ok r := by
  have hid : requireStr "receipt_id" r.dict.receipt_id = .ok ⟨r.receipt_id, r.receipt_id_ne⟩ :=
    requireStr_str _ _
  have hproject : requireStr "project_id" r.dict.project_id = .ok ⟨r.project_id, r.project_id_ne⟩ :=
    requireStr_str _ _
  have hpath : requireStr "path" r.dict.path = .ok ⟨r.path, r.path_ne⟩ := requireStr_str _ _
  have hoperation : requireStr "original_operation" r.dict.original_operation =
      .ok ⟨r.original_operation.value, r.original_operation.value_ne_empty⟩ := requireStr_str _ _
  have hexists : requireBool r.dict.preimage_exists = .ok r.preimage_exists := rfl
  have hstate : requireState r.dict.tx_state = .ok r.tx_state := requireState_value _
  simp only [validate_receipt, hid, hproject, hpath, hoperation, hexists, hstate, bind, Except.bind,
    requireOperation_value, pure, Except.pure]
  rfl

theorem bind_eq_ok {α β : Type} {x : Except Err α} {f : α → Except Err β} {b : β} :
    (x >>= f) = .ok b ↔ ∃ a, x = .ok a ∧ f a = .ok b := by
  cases x <;> simp [bind, Except.bind]

theorem bind_eq_error {α β : Type} {x : Except Err α} {f : α → Except Err β} {e : Err} :
    (x >>= f) = .error e ↔ x = .error e ∨ ∃ a, x = .ok a ∧ f a = .error e := by
  cases x <;> simp [bind, Except.bind]

/-- Validation only accepts what is the written form of its result. -/
theorem validate_receipt_eq_ok {doc : Document} {r : Receipt} (h : validate_receipt doc = .ok r) :
    doc = .obj r.dict := by
  cases doc with
  | other v => cases h
  | obj data =>
    unfold validate_receipt at h
    obtain ⟨receipt_id, hid, h⟩ := bind_eq_ok.mp h
    obtain ⟨project_id, hproject, h⟩ := bind_eq_ok.mp h
    obtain ⟨path, hpath, h⟩ := bind_eq_ok.mp h
    obtain ⟨operation, hoperation, h⟩ := bind_eq_ok.mp h
    obtain ⟨original_operation, hknown, h⟩ := bind_eq_ok.mp h
    obtain ⟨preimage_exists, hexists, h⟩ := bind_eq_ok.mp h
    obtain ⟨tx_state, hstate, h⟩ := bind_eq_ok.mp h
    injection h with h
    subst h
    have hid := requireStr_eq_ok hid
    have hproject := requireStr_eq_ok hproject
    have hpath := requireStr_eq_ok hpath
    have hoperation := requireStr_eq_ok hoperation
    have hexists := requireBool_eq_ok hexists
    have hstate := requireState_eq_ok hstate
    rw [← requireOperation_eq_ok hknown] at hoperation
    cases data
    simp only [Receipt.dict] at *
    subst hid hproject hpath hoperation hexists hstate
    rfl

theorem requireStr_error {key : String} {field : Option Val} {e : Err}
    (h : requireStr key field = .error e) : e.isRecoveryError = true := by
  unfold requireStr at h
  split at h
  · split at h
    · cases h
      rfl
    · cases h
  · cases h
    rfl

theorem requireOperation_error {text : String} {e : Err} (h : requireOperation text = .error e) :
    e.isRecoveryError = true := by
  unfold requireOperation at h
  split at h
  · cases h
  · cases h
    rfl

theorem requireBool_error {field : Option Val} {e : Err} (h : requireBool field = .error e) :
    e.isRecoveryError = true := by
  unfold requireBool at h
  split at h
  · cases h
  · cases h
    rfl

/-- Only a value that cannot be hashed is not refused with a `RecoveryError`. -/
theorem requireState_error {field : Option Val} {e : Err} (h : requireState field = .error e) :
    e.isRecoveryError = true ∨
      e = .TypeError "unhashable type" ∧ (get field).hashable = false := by
  unfold requireState at h
  split at h
  · split at h
    · cases h
    · cases h
      exact .inl rfl
  · rename_i hvalue
    cases h
    exact .inr ⟨rfl, by rw [hvalue]; rfl⟩
  · cases h
    exact .inl rfl

theorem validate_receipt_error {doc : Document} {e : Err} (h : validate_receipt doc = .error e) :
    e.isRecoveryError = true ∨
      e = .TypeError "unhashable type" ∧
        ∃ data, doc = .obj data ∧ (get data.tx_state).hashable = false := by
  cases doc with
  | other v =>
    cases h
    exact .inl rfl
  | obj data =>
    unfold validate_receipt at h
    rcases bind_eq_error.mp h with herror | ⟨_, _, h⟩
    · exact .inl (requireStr_error herror)
    rcases bind_eq_error.mp h with herror | ⟨_, _, h⟩
    · exact .inl (requireStr_error herror)
    rcases bind_eq_error.mp h with herror | ⟨_, _, h⟩
    · exact .inl (requireStr_error herror)
    rcases bind_eq_error.mp h with herror | ⟨_, _, h⟩
    · exact .inl (requireStr_error herror)
    rcases bind_eq_error.mp h with herror | ⟨_, _, h⟩
    · exact .inl (requireOperation_error herror)
    rcases bind_eq_error.mp h with herror | ⟨_, _, h⟩
    · exact .inl (requireBool_error herror)
    rcases bind_eq_error.mp h with herror | ⟨_, _, h⟩
    · rcases requireState_error herror with hrecovery | ⟨he, hhash⟩
      · exact .inl hrecovery
      · exact .inr ⟨he, data, rfl, hhash⟩
    · cases h

end recovery

end jvc
