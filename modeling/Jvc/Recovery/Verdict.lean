import Jvc.Recovery.View

open program program.Prog

namespace jvc.recovery

section Attempts

variable {Bytes α : Type} {i : Pid} {w w' : World Bytes} {p : Path} {caught : Err → Bool}

theorem run_attempt_ok {body : Jvc Bytes α} {a : α}
    (h : body.run (machine Bytes) i w = (.ok a, w')) :
    (attempt body caught).run (machine Bytes) i w = (.ok (some a), w') := by
  refine run_handle_ok (machine Bytes) i ?_
  rw [map_eq_pure_bind]
  exact run_seq (machine Bytes) i h

theorem run_attempt_error {body : Jvc Bytes α} {e : Err}
    (h : body.run (machine Bytes) i w = (.error e, w')) :
    (attempt body caught).run (machine Bytes) i w =
      (if caught e then .ok none else .error e, w') := by
  have hmap : (some <$> body).run (machine Bytes) i w = (.error e, w') := by
    rw [map_eq_pure_bind]
    exact run_seq_error (machine Bytes) i h
  have hhandle : (attempt body caught).run (machine Bytes) i w =
      (if caught e then pure none else throw e : Jvc Bytes (Option α)).run (machine Bytes) i w' :=
    run_handle_error (machine Bytes) i hmap
  rw [hhandle]
  cases caught e <;> rfl

/-- The program raises an exception that is no lock timeout. -/
def Raises (body : Jvc Bytes α) (i : Pid) (w : World Bytes) : Prop :=
  ∃ e w', body.run (machine Bytes) i w = (.error e, w') ∧ e.isLockTimeout = false

theorem Raises.seq {β : Type} {body : Jvc Bytes α} {f : α → Jvc Bytes β} (h : Raises body i w) :
    Raises (body >>= f) i w := by
  obtain ⟨e, w', hrun, he⟩ := h
  exact ⟨e, w', run_seq_error (machine Bytes) i hrun, he⟩

theorem Raises.after {β : Type} {body : Jvc Bytes α} {f : α → Jvc Bytes β} {a : α}
    (hrun : body.run (machine Bytes) i w = (.ok a, w')) (h : Raises (f a) i w') :
    Raises (body >>= f) i w := by
  obtain ⟨e, w'', hrest, he⟩ := h
  exact ⟨e, w'', (run_seq (machine Bytes) i hrun).trans hrest, he⟩

theorem Raises.attempt {body : Jvc Bytes α} (h : Raises body i w) :
    Raises (attempt body Err.isLockTimeout) i w := by
  obtain ⟨e, w', hrun, he⟩ := h
  refine ⟨e, w', ?_, he⟩
  rw [run_attempt_error hrun, he]
  rfl

theorem run_is_file : (is_file p).run (machine Bytes) i w = (.ok (w.lookup p).isSome, w) := rfl

/-- The file is not there, and its name is too long to ask for. -/
def refused (w : World Bytes) (p : Path) (text : String) : Bool :=
  !(w.lookup p).isSome && too_long text

theorem run_stat {text : String} : (stat p text).run (machine Bytes) i w =
    (if refused w p text then .error (name_too_long text) else .ok (w.lookup p).isSome, w) := by
  refine (run_seq (machine Bytes) i run_is_file).trans ?_
  unfold refused
  cases !(w.lookup p).isSome && too_long text <;> rfl

theorem run_stat_ok {text : String} (h : refused w p text = false) :
    (stat p text).run (machine Bytes) i w = (.ok (w.lookup p).isSome, w) := by
  rw [run_stat, h]
  rfl

theorem refused_of_some {data : Bytes} {text : String} (h : w.lookup p = some data) :
    refused w p text = false := by
  rw [refused, h]
  rfl

theorem run_read_bytes_some {data : Bytes} (h : w.lookup p = some data) :
    (read_bytes p).run (machine Bytes) i w = (.ok data, w) := by
  have hstep : (machine Bytes).step i (.read_bytes p) w = (w.lookup p, w) := rfl
  simp only [read_bytes, run_act, hstep, h, run_ret]

theorem run_read_bytes_none (h : w.lookup p = none) :
    ∃ e, e.isOSError = true ∧ (read_bytes p).run (machine Bytes) i w = (.error e, w) := by
  refine ⟨.OSError s!"[Errno 2] No such file or directory: '{p}'", rfl, ?_⟩
  have hstep : (machine Bytes).step i (.read_bytes p) w = (w.lookup p, w) := rfl
  simp only [read_bytes, run_act, hstep, h, run_fail]

end Attempts

variable {Bytes : Type} [Text] [Host Bytes] {store : RecoveryStore} {i : Pid} {w : World Bytes}
  {p : Path}

/-- What a receipt file shows the scans. -/
inductive Shape
  | unreadable
  | foreign
  | invalid (data : Dict)
  | valid (r : Receipt)
  | raises (e : Err)

namespace Shape

def ofDocument : Document → Shape
  | .other _ => .foreign
  | .obj data =>
    match validate_receipt (.obj data) with
    | .ok r => .valid r
    | .error e => if e.isRecoveryError then .invalid data else .raises e

/-- Reading, decoding, parsing and validating one file. -/
def of (content : Option Bytes) : Shape :=
  match content with
  | none => .unreadable
  | some bytes =>
    match Host.loads bytes with
    | .error e => if recovery.unreadable e then .unreadable else .raises e
    | .ok doc => ofDocument doc

/-- No exception leaves the scan. -/
def Harmless (s : Shape) : Prop := ∀ e, s ≠ .raises e

/-- The name under which `recover` reports the file. -/
def label (p : Path) : Shape → String
  | .valid r => r.receipt_id
  | .invalid data =>
    match data.receipt_id with
    | some v => v.text
    | none => p.name
  | _ => p.name

end Shape

section Shapes

variable {content : Option Bytes}

theorem Shape.of_receipt (r : Receipt) : Shape.of (some (Host.dumps r.dict : Bytes)) = .valid r := by
  simp [Shape.of, Shape.ofDocument]

theorem Shape.of_eq_valid {r : Receipt} (h : Shape.of content = .valid r) :
    ∃ data, content = some data ∧ Host.loads data = .ok (.obj r.dict) := by
  cases content with
  | none => cases h
  | some data =>
    cases hload : Host.loads data with
    | error e =>
      simp only [Shape.of, hload] at h
      split at h <;> cases h
    | ok doc =>
      simp only [Shape.of, hload] at h
      cases doc with
      | other v => cases h
      | obj raw =>
        simp only [Shape.ofDocument] at h
        split at h
        · rename_i found hfound
          cases h
          have hraw := validate_receipt_eq_ok hfound
          cases hraw
          exact ⟨data, rfl, hload⟩
        · split at h <;> cases h

theorem Shape.of_eq_invalid {raw : Dict} (h : Shape.of content = .invalid raw) :
    ∃ data e, content = some data ∧ Host.loads data = .ok (.obj raw) ∧
      validate_receipt (.obj raw) = .error e ∧ e.isRecoveryError = true := by
  cases content with
  | none => cases h
  | some data =>
    cases hload : Host.loads data with
    | error e =>
      simp only [Shape.of, hload] at h
      split at h <;> cases h
    | ok doc =>
      simp only [Shape.of, hload] at h
      cases doc with
      | other v => cases h
      | obj raw' =>
        simp only [Shape.ofDocument] at h
        split at h
        · cases h
        · rename_i e he
          split at h
          · rename_i hrecovery
            cases h
            exact ⟨data, e, rfl, hload, he, hrecovery⟩
          · cases h

end Shapes

section Reading

/-- What a file shows when it is read as JSON. -/
theorem run_read_json : ∃ r, (read_json p : Jvc Bytes Document).run (machine Bytes) i w = (r, w) ∧
    match r with
    | .ok doc => Shape.of (w.lookup p) = Shape.ofDocument doc
    | .error e => (e.isRecoveryError = false ∧ e.isLockTimeout = false) ∧
      Shape.of (w.lookup p) = if unreadable e then .unreadable else .raises e := by
  cases hp : w.lookup p with
  | none =>
    obtain ⟨e, he, hrun⟩ := run_read_bytes_none (i := i) hp
    refine ⟨.error e, run_seq_error (machine Bytes) i hrun, ?_, ?_⟩
    · cases e <;> simp_all [Err.isOSError, Err.isRecoveryError, Err.isLockTimeout]
    · simp [Shape.of, unreadable, he]
  | some data =>
    refine ⟨Host.loads data, ?_, ?_⟩
    · refine (run_seq (machine Bytes) i (run_read_bytes_some hp)).trans ?_
      cases Host.loads data <;> rfl
    · cases hload : Host.loads data with
      | ok doc => simp [Shape.of, hload]
      | error e => exact ⟨Host.loads_error data e hload, by simp [Shape.of, hload]⟩

/-- What a scan gets when it reads and validates a file of the given shape. -/
def Shape.Reads : Shape → Except Err Receipt → Prop
  | .valid r, result => result = .ok r
  | .raises e, result => result = .error e ∧ journalError e = false
  | _, result => ∃ e, result = .error e ∧ journalError e = true

omit [Text] [Host Bytes] in
theorem reads_document {doc : Document} : (Shape.ofDocument doc).Reads (validate_receipt doc) := by
  cases hvalid : validate_receipt doc with
  | ok r =>
    rw [validate_receipt_eq_ok hvalid]
    simp [Shape.ofDocument, Shape.Reads]
  | error e =>
    cases doc with
    | other v =>
      cases hvalid
      exact ⟨_, rfl, rfl⟩
    | obj data =>
      simp only [Shape.ofDocument, hvalid]
      rcases validate_receipt_error hvalid with hrecovery | ⟨rfl, _⟩
      · rw [if_pos hrecovery]
        exact ⟨e, rfl, by simp [journalError, hrecovery]⟩
      · exact ⟨rfl, rfl⟩

theorem Shape.raises_plain {content : Option Bytes} {e : Err} (h : Shape.of content = .raises e) :
    e.isLockTimeout = false := by
  cases content with
  | none => cases h
  | some data =>
    cases hload : Host.loads data with
    | error e' =>
      simp only [Shape.of, hload] at h
      split at h
      · cases h
      · cases h
        exact (Host.loads_error data e hload).2
    | ok doc =>
      simp only [Shape.of, hload] at h
      cases doc with
      | other v => cases h
      | obj object =>
        simp only [Shape.ofDocument] at h
        split at h
        · cases h
        · rename_i e' hinvalid
          split at h
          · cases h
          · rename_i hno
            cases h
            rcases validate_receipt_error hinvalid with hrecovery | ⟨rfl, _⟩
            · exact absurd hrecovery hno
            · rfl

omit [Text] in
theorem reads_error {e : Err} (he : e.isRecoveryError = false) :
    (if unreadable e then Shape.unreadable else .raises e).Reads (.error e) := by
  split
  · rename_i hcaught
    refine ⟨e, rfl, ?_⟩
    simp only [unreadable, Bool.or_eq_true] at hcaught
    simp [journalError, hcaught]
  · rename_i hcaught
    refine ⟨rfl, ?_⟩
    simp only [unreadable, Bool.or_eq_true, not_or, Bool.not_eq_true] at hcaught
    simp [journalError, hcaught, he]

theorem run_load_validated : ∃ r, (RecoveryStore.load_validated p : Jvc Bytes Receipt).run
    (machine Bytes) i w = (r, w) ∧ (Shape.of (w.lookup p)).Reads r := by
  obtain ⟨r, hrun, hshape⟩ := run_read_json (i := i) (w := w) (p := p)
  cases r with
  | error e =>
    refine ⟨.error e, run_seq_error (machine Bytes) i hrun, ?_⟩
    rw [hshape.2]
    exact reads_error hshape.1.1
  | ok doc =>
    refine ⟨validate_receipt doc, ?_, ?_⟩
    · refine (run_seq (machine Bytes) i hrun).trans ?_
      cases validate_receipt doc <;> rfl
    · rw [hshape]
      exact reads_document

theorem run_read_validated : ∃ r, (RecoveryStore.read_validated p : Jvc Bytes Receipt).run
    (machine Bytes) i w = (r, w) ∧ (Shape.of (w.lookup p)).Reads r ∧
      ∀ e, r = .error e → journalError e = true → e.isRecoveryError = true := by
  obtain ⟨r, hrun, hshape⟩ := run_read_json (i := i) (w := w) (p := p)
  cases r with
  | error e =>
    obtain ⟨hplain, hof⟩ := hshape
    have hhandle := run_handle_error (machine Bytes) i (h := fun e =>
      if unreadable e then throw (.RecoveryError s!"receipt unreadable: {p.name}") else throw e) hrun
    cases hcaught : unreadable e with
    | true =>
      rw [hcaught] at hhandle hof
      refine ⟨.error (.RecoveryError s!"receipt unreadable: {p.name}"),
        run_seq_error (machine Bytes) i hhandle, ?_, fun e' he _ => ?_⟩
      · rw [hof]
        exact ⟨_, rfl, rfl⟩
      · rw [← Except.error.inj he]
        rfl
    | false =>
      have hreads := reads_error hplain.1
      rw [hcaught] at hhandle hof hreads
      refine ⟨.error e, run_seq_error (machine Bytes) i hhandle, ?_, fun e' he hjournal => ?_⟩
      · rw [hof]
        exact hreads
      · rw [← Except.error.inj he, hreads.2] at hjournal
        cases hjournal
  | ok doc =>
    refine ⟨validate_receipt doc, ?_, ?_, fun e he hjournal => ?_⟩
    · refine (run_seq (machine Bytes) i (run_handle_ok (machine Bytes) i hrun)).trans ?_
      cases validate_receipt doc <;> rfl
    · rw [hshape]
      exact reads_document
    · rcases validate_receipt_error he with h | ⟨rfl, _⟩
      · exact h
      · cases hjournal

/-- The receipt of a file, `none` where the scans pass over it. -/
def Shape.found : Shape → Except Err (Option Receipt)
  | .valid r => .ok (some r)
  | .raises e => .error e
  | _ => .ok none

omit [Text] [Host Bytes] in
theorem run_attempt_reads {body : Jvc Bytes Receipt} {r : Except Err Receipt} {s : Shape}
    (hrun : body.run (machine Bytes) i w = (r, w)) (hreads : s.Reads r) :
    (attempt body journalError).run (machine Bytes) i w = (s.found, w) := by
  cases s with
  | valid x =>
    cases hreads
    exact run_attempt_ok hrun
  | raises e =>
    obtain ⟨rfl, hjournal⟩ := hreads
    rw [run_attempt_error hrun, hjournal]
    rfl
  | unreadable | foreign | invalid =>
    obtain ⟨e, rfl, hjournal⟩ := hreads
    rw [run_attempt_error hrun, hjournal]
    rfl

theorem run_attempt_load :
    (attempt (RecoveryStore.load_validated p : Jvc Bytes Receipt) journalError).run (machine Bytes) i w =
      ((Shape.of (w.lookup p)).found, w) := by
  obtain ⟨r, hrun, hreads⟩ := run_load_validated (i := i) (w := w) (p := p)
  exact run_attempt_reads hrun hreads

end Reading

/-- The digest of the file that a receipt names, `none` where it is absent. -/
def digest (w : World Bytes) (text : String) : Option String :=
  (w.lookup (located Bytes text)).map sha256_bytes

/-- The target of a receipt cannot be observed. -/
def unseen (w : World Bytes) (r : Receipt) : Bool := refused w (located Bytes r.path) r.path

/-- The backup a receipt relies on is there and intact. -/
def backupHolds (w : World Bytes) (r : Receipt) : Bool :=
  !r.preimage_exists || ((get r.backup_file).truthy && (get r.preimage_sha256).truthy &&
    match digest w (get r.backup_file).text with
    | some found => get r.preimage_sha256 == .str found
    | none => false)

/-- What recovery does with a receipt. -/
inductive Verdict
  | keep
  | mark (state : TxState)
  | finalize
  deriving DecidableEq

/-- The decision on a receipt, as a function of the files it reads. -/
def verdict (w : World Bytes) (r : Receipt) : Verdict :=
  let current := digest w r.path
  match r.original_operation, r.tx_state with
  | .FS_WRITE, .PREPARED =>
    .mark (if !unseen w r && backupHolds w r && ((!r.preimage_exists && !current.isSome) ||
      (r.preimage_exists && digestEq current (get r.preimage_sha256)))
        then .RECOVERED_UNAPPLIED else .RECOVERY_REQUIRED)
  | .FS_WRITE, .APPLIED =>
    .mark (if !unseen w r && backupHolds w r && ((get r.postimage_sha256).truthy &&
      digestEq current (get r.postimage_sha256)) then .VERIFIED else .RECOVERY_REQUIRED)
  | .FS_WRITE, .VERIFIED => if backupHolds w r then .keep else .mark .RECOVERY_REQUIRED
  | .ROLLBACK, .PREPARED =>
    .mark (if !unseen w r && digestEq current (get r.expected_postimage_sha256)
      then .RECOVERED_UNAPPLIED else .RECOVERY_REQUIRED)
  | .ROLLBACK, .APPLIED =>
    if !unseen w r && (get r.restored_sha256).truthy &&
      (digestEq current (get r.restored_sha256) ||
        (get r.restored_sha256 == .str "__ABSENT__" && !current.isSome))
    then .finalize else .mark .RECOVERY_REQUIRED
  | .ROLLBACK, .VERIFIED => .finalize
  | _, _ => .keep

/-- The state a receipt is left in. -/
def Verdict.state (v : Verdict) (r : Receipt) : TxState :=
  match v with
  | .keep => r.tx_state
  | .mark state => state
  | .finalize => .VERIFIED

/-- How a scan reports a receipt it leaves in the given state. -/
def outcome : TxState → Outcome
  | .VERIFIED => .verified
  | .RECOVERED_UNAPPLIED | .ROLLED_BACK | .SUPERSEDED => .recovered
  | _ => .required

/-- The receipt is written back in another state. -/
def rewrite (i : Pid) (w : World Bytes) (p : Path) (r : Receipt) (state : TxState) : World Bytes :=
  w.write i p (Host.dumps { r with tx_state := state }.dict) none

/-- The source of a finished rollback becomes ROLLED_BACK. -/
def closeSource (store : RecoveryStore) (i : Pid) (w : World Bytes) (source_id : String) :
    World Bytes :=
  if source_id = "" then w
  else match Shape.of (w.lookup (store.source_path source_id)) with
    | .valid source => rewrite i w (store.source_path source_id) source .ROLLED_BACK
    | _ => w

/-- What one decision leaves behind. -/
def settle (store : RecoveryStore) (i : Pid) (w : World Bytes) (p : Path) (r : Receipt) :
    World Bytes :=
  match verdict w r with
  | .keep => w
  | .mark state => rewrite i w p r state
  | .finalize => closeSource store i (rewrite i w p r .VERIFIED) (textOf r.rollback_of)

/-- An object that failed validation, marked in place. -/
def marked (data : Dict) : Dict :=
  { data with tx_state := some (.str TxState.RECOVERY_REQUIRED.value) }

/-- A marked object is still invalid, or a receipt in RECOVERY_REQUIRED. -/
theorem Shape.of_marked (object : Dict) :
    Shape.of (some (Host.dumps (marked object) : Bytes)) = .invalid (marked object) ∨
      ∃ r : Receipt, Shape.of (some (Host.dumps (marked object) : Bytes)) = .valid r ∧
        r.tx_state = .RECOVERY_REQUIRED := by
  simp only [Shape.of, Host.loads_dumps, Shape.ofDocument]
  cases hvalid : validate_receipt (.obj (marked object)) with
  | ok r =>
    refine .inr ⟨r, rfl, ?_⟩
    have hdict := Document.obj.inj (validate_receipt_eq_ok hvalid)
    have hstate : (marked object).tx_state = r.dict.tx_state := by rw [hdict]
    simpa [marked, Receipt.dict] using hstate.symm
  | error e =>
    left
    rcases validate_receipt_error hvalid with hrecovery | ⟨_, data, hdata, hhash⟩
    · simp only [hrecovery, if_true]
    · cases hdata
      cases hhash

/-- What the scan of one file leaves behind. -/
def scanned (store : RecoveryStore) (i : Pid) (w : World Bytes) (p : Path) : World Bytes :=
  match Shape.of (w.lookup p) with
  | .valid r => settle store i w p r
  | .invalid data => w.write i p (Host.dumps (marked data)) none
  | _ => w

section Deciding

variable {r : Receipt}

theorem run_sha256_file_some {data : Bytes} (h : w.lookup p = some data) :
    (sha256_file p).run (machine Bytes) i w = (.ok (sha256_bytes data), w) :=
  run_seq (machine Bytes) i (run_read_bytes_some h)

theorem run_backup_ok :
    (RecoveryStore.backup_ok r : Jvc Bytes Bool).run (machine Bytes) i w =
      (.ok (backupHolds w r), w) := by
  simp only [RecoveryStore.backup_ok, backupHolds]
  cases hexists : r.preimage_exists with
  | false => rfl
  | true =>
    cases hbackup : (get r.backup_file).truthy with
    | false => rfl
    | true =>
      cases hexpected : (get r.preimage_sha256).truthy with
      | false => rfl
      | true =>
        simp only [Bool.not_true, Bool.false_or, Bool.true_and, Bool.or_self, Bool.false_eq_true,
          if_false]
        generalize (get r.backup_file).text = text
        cases hfile : w.lookup (located Bytes text) with
        | none =>
          have hdigest : digest w text = none := by rw [digest, hfile]; rfl
          rw [hdigest]
          cases hlong : refused w (located Bytes text) text with
          | true =>
            have hstat : (stat (located Bytes text) text).run (machine Bytes) i w = _ := run_stat
            rw [hlong, if_pos rfl] at hstat
            exact (run_seq (machine Bytes) i (run_attempt_error
              (run_seq_error (machine Bytes) i hstat))).trans rfl
          | false =>
            refine (run_seq (machine Bytes) i (run_attempt_ok
              ((run_seq (machine Bytes) i (run_stat_ok hlong)).trans ?_))).trans rfl
            rw [hfile]
            rfl
        | some data =>
          have hdigest : digest w text = some (sha256_bytes data) := by rw [digest, hfile]; rfl
          rw [hdigest]
          refine (run_seq (machine Bytes) i (run_attempt_ok
            ((run_seq (machine Bytes) i (run_stat_ok (refused_of_some hfile))).trans ?_))).trans rfl
          rw [hfile]
          exact run_seq (machine Bytes) i (run_sha256_file_some hfile)

/-- What a reconciliation sees of the target, `none` where that fails. -/
theorem run_observe :
    (attempt (RecoveryStore.observe r.path : Jvc Bytes _) Err.isOSError).run (machine Bytes) i w =
      (.ok (if unseen w r then none else some ((digest w r.path).isSome, digest w r.path)), w) := by
  unfold unseen
  generalize r.path = text
  cases hlong : refused w (located Bytes text) text with
  | true =>
    have hstat : (stat (located Bytes text) text).run (machine Bytes) i w = _ := run_stat
    rw [hlong, if_pos rfl] at hstat
    exact run_attempt_error (run_seq_error (machine Bytes) i hstat)
  | false =>
    refine run_attempt_ok ((run_seq (machine Bytes) i (run_stat_ok hlong)).trans ?_)
    cases hfile : w.lookup (located Bytes text) with
    | none =>
      rw [digest, hfile]
      rfl
    | some data =>
      rw [digest, hfile]
      exact run_seq (machine Bytes) i (run_sha256_file_some hfile)

theorem run_write_json {data : Dict} (h : data.deep = false) :
    (atomic_write_json p data : Jvc Bytes Unit).run (machine Bytes) i w =
      (.ok (), w.write i p (Host.dumps data) none) := by
  rw [atomic_write_json, h]
  rfl

theorem raises_write_json {data : Dict} (h : data.deep = true) :
    Raises (atomic_write_json p data : Jvc Bytes Unit) i w := by
  refine ⟨.RecursionError, w, ?_, rfl⟩
  rw [atomic_write_json, h]
  rfl

theorem run_mark {state : TxState} {outcome : Outcome} (h : r.deep = false) :
    (RecoveryStore.mark p r state outcome : Jvc Bytes Outcome).run (machine Bytes) i w =
      (.ok outcome, rewrite i w p r state) := run_seq (machine Bytes) i (run_write_json h)

theorem raises_mark {state : TxState} {outcome : Outcome} (h : r.deep = true) :
    Raises (RecoveryStore.mark p r state outcome : Jvc Bytes Outcome) i w :=
  (raises_write_json h).seq

/-- Nothing stops recovery when it closes the source of a finished rollback: the name
can be asked for, the file digested, and the receipt written back. -/
def Closable (store : RecoveryStore) (w : World Bytes) (source_id : String) : Prop :=
  source_id ≠ "" → refused w (store.source_path source_id) (store.source_text source_id) = false ∧
    (Shape.of (w.lookup (store.source_path source_id))).Harmless ∧
      ∀ source, Shape.of (w.lookup (store.source_path source_id)) = .valid source →
        source.deep = false

theorem run_finalize {data : Dict} {source_id : String}
    (hdata : { data with tx_state := some (.str TxState.VERIFIED.value) } =
      { r with tx_state := .VERIFIED : Receipt }.dict) (hdeep : r.deep = false)
    (hsource : Closable store (rewrite i w p r .VERIFIED) source_id) :
    (store.finalize_rollback p data source_id).run (machine Bytes) i w =
      (.ok (), closeSource store i (rewrite i w p r .VERIFIED) source_id) := by
  have hwrite : (atomic_write_json p
      { data with tx_state := some (.str TxState.VERIFIED.value) } : Jvc Bytes Unit).run
      (machine Bytes) i w =
        (.ok (), rewrite i w p r .VERIFIED) := by
    rw [hdata]
    exact run_write_json hdeep
  refine (run_seq (machine Bytes) i hwrite).trans ?_
  generalize rewrite i w p r .VERIFIED = w₁ at hsource ⊢
  by_cases hempty : source_id = ""
  · simp only [hempty, closeSource, if_true]
    rfl
  · obtain ⟨hlong, hharmless, hflat⟩ := hsource hempty
    have hguard : (source_id != "") = true := by simpa using hempty
    simp only [hguard, if_true, closeSource, hempty, if_false]
    refine (run_seq (machine Bytes) i (run_stat_ok hlong)).trans ?_
    cases hfile : w₁.lookup (store.source_path source_id) with
    | none => rfl
    | some content =>
      simp only [Option.isSome_some, if_true]
      have hload := run_attempt_load (i := i) (w := w₁) (p := store.source_path source_id)
      rw [hfile] at hload hharmless hflat
      cases hshape : Shape.of (some content) with
      | raises e => exact absurd hshape (hharmless e)
      | valid source =>
        rw [hshape] at hload
        exact (run_seq (machine Bytes) i hload).trans (run_write_json (hflat source hshape))
      | unreadable | foreign | invalid =>
        rw [hshape] at hload
        exact run_seq (machine Bytes) i hload

theorem raises_finalize {data : Dict} {source_id : String}
    (hdata : { data with tx_state := some (.str TxState.VERIFIED.value) } =
      { r with tx_state := .VERIFIED : Receipt }.dict)
    (hstop : ¬ (r.deep = false ∧ Closable store (rewrite i w p r .VERIFIED) source_id)) :
    Raises (store.finalize_rollback p data source_id) i w := by
  cases hdeep : r.deep with
  | true =>
    refine Raises.seq ?_
    rw [hdata]
    exact raises_write_json hdeep
  | false =>
    have hwrite : (atomic_write_json p
        { data with tx_state := some (.str TxState.VERIFIED.value) } : Jvc Bytes Unit).run
        (machine Bytes) i w = (.ok (), rewrite i w p r .VERIFIED) := by
      rw [hdata]
      exact run_write_json hdeep
    refine Raises.after hwrite ?_
    have hopen : ¬ Closable store (rewrite i w p r .VERIFIED) source_id := fun h =>
      hstop ⟨hdeep, h⟩
    generalize rewrite i w p r .VERIFIED = w₁ at hopen ⊢
    obtain ⟨hempty, hopen⟩ := Classical.not_imp.mp hopen
    have hguard : (source_id != "") = true := by simpa using hempty
    simp only [hguard, if_true]
    cases hlong : refused w₁ (store.source_path source_id) (store.source_text source_id) with
    | true =>
      refine Raises.seq ⟨name_too_long (store.source_text source_id), w₁, ?_, rfl⟩
      rw [run_stat, if_pos hlong]
    | false =>
      refine Raises.after (run_stat_ok hlong) ?_
      have hload := run_attempt_load (i := i) (w := w₁) (p := store.source_path source_id)
      cases hshape : Shape.of (w₁.lookup (store.source_path source_id)) with
      | unreadable | foreign | invalid =>
        rw [hshape] at hopen
        refine absurd ⟨hlong, fun e he => ?_, fun source hsource => ?_⟩ hopen
        · cases he
        · cases hsource
      | raises e =>
        rw [hshape] at hload
        have hsome : (w₁.lookup (store.source_path source_id)).isSome = true := by
          cases hfile : w₁.lookup (store.source_path source_id) with
          | none =>
            rw [hfile] at hshape
            cases hshape
          | some content => rfl
        rw [hsome, if_pos rfl]
        exact Raises.seq ⟨e, w₁, hload, Shape.raises_plain hshape⟩
      | valid source =>
        rw [hshape] at hload hopen
        have hdeep' : source.deep = true := by
          by_contra hno
          refine hopen ⟨hlong, fun e he => ?_, fun source' hsource' => ?_⟩
          · cases he
          · cases hsource'
            simpa using hno
        obtain ⟨content, hfile, _⟩ := Shape.of_eq_valid hshape
        rw [hfile, Option.isSome_some, if_pos rfl]
        exact Raises.after hload (raises_write_json hdeep')

/-- Nothing stops a decision: a receipt that has to be written back can be, and so can
the source of a rollback that is finished. -/
structure Writable (store : RecoveryStore) (i : Pid) (w : World Bytes) (p : Path) (r : Receipt) :
    Prop where
  flat : verdict w r ≠ .keep → r.deep = false
  source : verdict w r = .finalize →
    Closable store (rewrite i w p r .VERIFIED) (textOf r.rollback_of)

section Cases

variable {R : Except Err Outcome × World Bytes → Prop}

/-- A pending write is marked as its verdict says. -/
theorem reconcile_write_cases (hop : r.original_operation = .FS_WRITE)
    (hr : r.tx_state.incomplete = true)
    (hmark : ∀ state, verdict w r = .mark state →
      R ((RecoveryStore.mark p r state (outcome state) : Jvc Bytes Outcome).run (machine Bytes) i w)) :
    R ((store.reconcile_one p r r.tx_state).run (machine Bytes) i w) := by
  simp only [RecoveryStore.reconcile_one, hop]
  rw [run_seq (machine Bytes) i run_backup_ok]
  simp only [verdict, hop] at hmark
  cases hs : r.tx_state <;> simp only [hs] at hr <;> try cases hr
  all_goals
    simp only [hs] at hmark
    cases hbackup : backupHolds w r with
    | false =>
      simp only [hbackup, Bool.and_false, Bool.false_and] at hmark
      exact hmark _ rfl
    | true =>
      simp only [Bool.not_true, Bool.false_eq_true, if_false]
      rw [run_seq (machine Bytes) i run_observe]
      cases hunseen : unseen w r with
      | true =>
        simp only [hunseen, Bool.not_true, Bool.false_and] at hmark
        exact hmark _ rfl
      | false =>
        simp only [hunseen, hbackup, Bool.not_false, Bool.true_and] at hmark
        simp only [Bool.false_eq_true, if_false, RecoveryStore.settle_write]
        split
        · rename_i hcond
          rw [if_pos hcond] at hmark
          exact hmark _ rfl
        · rename_i hcond
          rw [if_neg hcond] at hmark
          exact hmark _ rfl

/-- A pending rollback is marked or finished as its verdict says. -/
theorem reconcile_rollback_cases (hop : r.original_operation = .ROLLBACK)
    (hr : r.tx_state.incomplete = true)
    (hmark : ∀ state, verdict w r = .mark state →
      R ((RecoveryStore.mark p r state (outcome state) : Jvc Bytes Outcome).run (machine Bytes) i w))
    (hfinal : verdict w r = .finalize → R ((do
      store.finalize_rollback p r.dict (textOf r.rollback_of)
      pure .verified : Jvc Bytes Outcome).run (machine Bytes) i w)) :
    R ((store.reconcile_one p r r.tx_state).run (machine Bytes) i w) := by
  simp only [RecoveryStore.reconcile_one, RecoveryStore.reconcile_rollback, hop]
  rw [run_seq (machine Bytes) i run_observe]
  simp only [verdict, hop] at hmark hfinal
  cases hs : r.tx_state <;> simp only [hs] at hr <;> try cases hr
  all_goals
    simp only [hs] at hmark hfinal
    cases hunseen : unseen w r with
    | true =>
      simp only [hunseen, Bool.not_true, Bool.false_and, Bool.false_eq_true, if_false] at hmark
      exact hmark _ rfl
    | false =>
      simp only [hunseen, Bool.not_false, Bool.true_and] at hmark hfinal
      simp only [Bool.false_eq_true, if_false]
      split
      · rename_i hcond
        rw [if_pos hcond] at hmark hfinal
        first
          | exact hfinal rfl
          | exact hmark _ rfl
      · rename_i hcond
        rw [if_neg hcond] at hmark
        exact hmark _ rfl

/-- One decision under the lock follows the verdict on the receipt. -/
theorem decide_locked_cases (hshape : Shape.of (w.lookup p) = .valid r)
    (hkeep : verdict w r = .keep → R (.ok (outcome r.tx_state), w))
    (hmark : ∀ state, verdict w r = .mark state →
      R ((RecoveryStore.mark p r state (outcome state) : Jvc Bytes Outcome).run (machine Bytes) i w))
    (hfinal : verdict w r = .finalize → R ((do
      store.finalize_rollback p r.dict (textOf r.rollback_of)
      pure .verified : Jvc Bytes Outcome).run (machine Bytes) i w)) :
    R ((store.decide_locked p).run (machine Bytes) i w) := by
  obtain ⟨result, hrun, hreads, _⟩ := run_read_validated (i := i) (w := w) (p := p)
  rw [hshape] at hreads
  cases hreads
  have hread : (store.decide_locked p).run (machine Bytes) i w = _ :=
    run_seq (machine Bytes) i (run_attempt_ok hrun)
  rw [hread]
  cases hs : r.tx_state with
  | PREPARED | APPLIED =>
    simp only [hs]
    cases hop : r.original_operation with
    | FS_WRITE =>
      have hdecide : R ((store.reconcile_one p r r.tx_state).run (machine Bytes) i w) :=
        reconcile_write_cases hop (by rw [hs]; rfl) hmark
      rwa [hs] at hdecide
    | ROLLBACK =>
      have hdecide : R ((store.reconcile_one p r r.tx_state).run (machine Bytes) i w) :=
        reconcile_rollback_cases hop (by rw [hs]; rfl) hmark hfinal
      rwa [hs] at hdecide
  | VERIFIED =>
    simp only [hs, RecoveryStore.audit_verified]
    cases hop : r.original_operation with
    | FS_WRITE =>
      simp only [verdict, hop, hs] at hkeep hmark
      simp only
      rw [run_seq (machine Bytes) i run_backup_ok]
      cases hbackup : backupHolds w r with
      | true =>
        rw [hbackup, if_pos rfl] at hkeep
        exact hkeep rfl
      | false =>
        simp only [hbackup, Bool.false_eq_true, if_false] at hmark
        exact hmark _ rfl
    | ROLLBACK => exact hfinal (by simp only [verdict, hop, hs])
  | RECOVERED_UNAPPLIED | ROLLED_BACK | SUPERSEDED | RECOVERY_REQUIRED =>
    have hverdict : verdict w r = .keep := by
      cases hop : r.original_operation <;> simp [verdict, hop, hs]
    have hdone := hkeep hverdict
    rw [hs] at hdone
    simp only [hs]
    exact hdone

end Cases

/-- One decision under the lock leaves the receipt as its verdict says. -/
theorem run_decide_locked (hshape : Shape.of (w.lookup p) = .valid r)
    (h : Writable store i w p r) :
    (store.decide_locked p).run (machine Bytes) i w =
      (.ok (outcome ((verdict w r).state r)), settle store i w p r) := by
  refine decide_locked_cases (R := fun result => result =
    (.ok (outcome ((verdict w r).state r)), settle store i w p r)) hshape (fun hkeep => ?_)
    (fun state hmark => ?_) fun hfinal => ?_
  · rw [settle, hkeep]
    rfl
  · rw [settle, hmark]
    have hne : verdict w r ≠ .keep := by
      rw [hmark]
      exact Verdict.noConfusion
    exact run_mark (h.flat hne)
  · rw [settle, hfinal]
    have hne : verdict w r ≠ .keep := by
      rw [hfinal]
      exact Verdict.noConfusion
    exact run_seq (machine Bytes) i (run_finalize rfl (h.flat hne) (h.source hfinal))

theorem raises_decide_locked (hshape : Shape.of (w.lookup p) = .valid r)
    (h : ¬ Writable store i w p r) : Raises (store.decide_locked p) i w := by
  refine decide_locked_cases (R := fun result => ∃ e w', result = (.error e, w') ∧
    e.isLockTimeout = false) hshape (fun hkeep => ?_) (fun state hmark => ?_) fun hfinal => ?_
  · have hclear : Writable store i w p r := by
      refine ⟨fun hne => absurd hkeep hne, fun hfinal => ?_⟩
      rw [hkeep] at hfinal
      cases hfinal
    exact absurd hclear h
  · cases hdeep : r.deep with
    | true => exact raises_mark hdeep
    | false =>
      have hclear : Writable store i w p r := by
        refine ⟨fun _ => hdeep, fun hfinal => ?_⟩
        rw [hmark] at hfinal
        cases hfinal
      exact absurd hclear h
  · have hstop : Raises (store.finalize_rollback p r.dict (textOf r.rollback_of)) i w :=
      raises_finalize (r := r) rfl fun hboth => h ⟨fun _ => hboth.1, fun _ => hboth.2⟩
    exact hstop.seq

end Deciding

end jvc.recovery
