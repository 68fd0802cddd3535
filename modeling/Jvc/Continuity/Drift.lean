import Jvc.Continuity.Runs

open program Prog

namespace jvc.continuity

variable {ι Bytes Payload α β : Type} [DecidableEq ι] {i : ι} {s s' : Store ι Bytes Payload}

/-- A program of process `i` that nothing interrupts. -/
abbrev alone (i : ι) (p : Continuity Bytes Payload α) (s : Store ι Bytes Payload) :
    Except Err α × Store ι Bytes Payload := p.run (machine ι Bytes Payload) i s

section Steps

theorem alone_acquire (hlock : s.lock = none) (f : Bool → Continuity Bytes Payload β) :
    alone i (acquire >>= f) s = alone i (f true) { s with lock := some i } := by
  have hstep : step i .acquire s = (true, { s with lock := some i }) := if_pos hlock
  have hrun : alone i (acquire >>= f) s =
      alone i (f (step i .acquire s).1) (step i .acquire s).2 := rfl
  rw [hrun, hstep]

theorem alone_is_initialized (f : Bool → Continuity Bytes Payload β) :
    alone i (is_initialized >>= f) s = alone i (f s.state.isSome) s := rfl

theorem alone_read_state (f : Option ContinuityState → Continuity Bytes Payload β) :
    alone i (read_state >>= f) s = alone i (f s.state) s := rfl

theorem alone_decision_exists (id : String) (f : Bool → Continuity Bytes Payload β) :
    alone i (decision_exists id >>= f) s = alone i (f (s.decisions id).isSome) s := rfl

theorem alone_handoff_is_file (f : Bool → Continuity Bytes Payload β) :
    alone i (handoff_is_file >>= f) s =
      alone i (f s.handoff.isSome) (step i .handoff_is_file s).2 := rfl

theorem alone_utc_now (f : String → Continuity Bytes Payload β) :
    alone i (utc_now >>= f) s = alone i (f (s.times s.ticks)) (step i .utc_now s).2 := rfl

theorem alone_secrets_token (f : String → Continuity Bytes Payload β) :
    alone i (secrets_token >>= f) s =
      alone i (f (s.tokens s.ticks)) (step i .secrets_token s).2 := rfl

theorem alone_write_checkpoint (id : String) (data : Checkpoint Payload)
    (f : Unit → Continuity Bytes Payload β) :
    alone i (write_checkpoint id data >>= f) s =
      alone i (f ()) (step i (.write_checkpoint id data) s).2 := rfl

theorem alone_write_decision (id : String) (data : Decision Payload)
    (f : Unit → Continuity Bytes Payload β) :
    alone i (write_decision id data >>= f) s =
      alone i (f ()) (step i (.write_decision id data) s).2 := rfl

theorem alone_write_state (kind : Kind) (st : ContinuityState)
    (f : Unit → Continuity Bytes Payload β) :
    alone i (write_state kind st >>= f) s =
      alone i (f ()) (step i (.write_state kind st) s).2 := rfl

theorem alone_raiseIf (c : Prop) [Decidable c] (err : Err) (f : Unit → Continuity Bytes Payload β) :
    alone i (raiseIf c err >>= f) s = if c then (.error err, s) else alone i (f ()) s := by
  unfold raiseIf
  split
  · rfl
  · rfl

theorem alone_load_state (f : ContinuityState → Continuity Bytes Payload β) :
    alone i (load_state >>= f) s = match s.state with
      | some st => alone i (f st) s
      | none => (.error (.ContinuityError "continuity is not initialized"), s) := by
  unfold load_state
  rw [bind_assoc, alone_is_initialized, bind_assoc, alone_raiseIf, bind_assoc, alone_read_state]
  cases s.state with
  | none => rfl
  | some st => rfl

/-- A check of the revision raises or goes on, by whether a named revision differs. -/
theorem alone_check_revision (conflict : String) (expected : Option Nat) (observed : Nat)
    (f : Unit → Continuity Bytes Payload β) :
    (∃ err, (¬ ∀ r, expected = some r → observed = r) ∧
      alone i (check_revision conflict expected observed >>= f) s = (.error err, s)) ∨
    ((∀ r, expected = some r → observed = r) ∧
      alone i (check_revision conflict expected observed >>= f) s = alone i (f ()) s) := by
  cases expected with
  | none => exact Or.inr ⟨by simp, rfl⟩
  | some r =>
    simp only [Option.some.injEq, forall_eq']
    rw [check_revision, alone_raiseIf]
    by_cases h : observed = r
    · exact Or.inr ⟨h, if_neg (not_not.mpr h)⟩
    · exact Or.inl ⟨_, h, if_pos h⟩

variable [Digest Bytes]

theorem alone_sha256_handoff (f : String → Continuity Bytes Payload β) :
    alone i (sha256_handoff >>= f) s = match s.handoff with
      | some data => alone i (f (sha256_bytes data)) (step i .read_handoff s).2
      | none => (.error (.OSError "[Errno 2] No such file or directory: 'HANDOFF.md'"),
          (step i .read_handoff s).2) := by
  have hstep : alone i (sha256_handoff >>= f) s =
      alone i (expect (.OSError "[Errno 2] No such file or directory: 'HANDOFF.md'") s.handoff >>=
        fun data => f (sha256_bytes data)) (step i .read_handoff s).2 := by
    unfold sha256_handoff
    simp only [bind_assoc, pure_bind]
    rfl
  rw [hstep]
  cases s.handoff with
  | none => rfl
  | some data => rfl

end Steps

variable [Text] [Digest Bytes] (serializable : Payload → Bool)

/-- The state and arguments with which a critical section goes through. -/
def Accepts (s : Store ι Bytes Payload) : Call Payload → Prop
  | .init _ _ _ => s.state = none
  | .checkpoint expected payload revision => ∃ st data, s.state = some st ∧
      (∀ r, revision = some r → st.metadata_revision = r) ∧ s.handoff = some data ∧
      sha256_bytes data = canonicalHash expected ∧ serializable payload = true
  | .reconcile_handoff expected observed _ revision => ∃ st data, s.state = some st ∧
      (∀ r, revision = some r → st.metadata_revision = r) ∧ s.handoff = some data ∧
      sha256_bytes data = canonicalHash observed ∧
      ∀ recorded, st.handoff_sha256 = some recorded →
        recorded = "" ∨ recorded = canonicalHash expected
  | .record_decision decision_id revision payload => ∃ st, decisionId decision_id = true ∧
      s.state = some st ∧ st.metadata_revision = revision ∧ s.decisions decision_id = none ∧
      serializable payload = true

/-- The hash that the state file records. -/
def Store.recorded (s : Store ι Bytes Payload) : Option String :=
  s.state.bind ContinuityState.handoff_sha256

/-- The hash of HANDOFF.md. -/
def Store.handoff_hash (s : Store ι Bytes Payload) : Option String := s.handoff.map sha256_bytes

/-- The hash that a successful call leaves recorded. -/
def recordedBy (s : Store ι Bytes Payload) : Call Payload → Option String
  | .init _ _ _ => s.handoff_hash
  | .checkpoint _ _ _ => s.handoff_hash
  | .reconcile_handoff _ _ _ _ => s.handoff_hash
  | .record_decision _ _ _ => s.recorded

/-- How a critical section ends: it goes through, or raises and leaves the state file. -/
def Ends (call : Call Payload) (s : Store ι Bytes Payload)
    (out : Except Err Passed × Store ι Bytes Payload) : Prop :=
  out.2.lock = s.lock ∧ out.2.handoff = s.handoff ∧
    ((Accepts serializable s call ∧ (∃ passed, out.1 = .ok passed) ∧
        out.2.recorded = recordedBy s call) ∨
      (¬ Accepts serializable s call ∧ (∃ err, out.1 = .error err) ∧ out.2.state = s.state))

variable {serializable}

omit [DecidableEq ι] in
theorem Ends.refused {t : Store ι Bytes Payload} {call : Call Payload} {err : Err}
    (hno : ¬ Accepts serializable s call) (hlock : t.lock = s.lock) (hhandoff : t.handoff = s.handoff)
    (hstate : t.state = s.state) : Ends serializable call s (.error err, t) :=
  ⟨hlock, hhandoff, Or.inr ⟨hno, ⟨_, rfl⟩, hstate⟩⟩

omit [DecidableEq ι] in
theorem Ends.passed {t : Store ι Bytes Payload} {call : Call Payload} {passed : Passed}
    (hyes : Accepts serializable s call) (hlock : t.lock = s.lock) (hhandoff : t.handoff = s.handoff)
    (hrecorded : t.recorded = recordedBy s call) : Ends serializable call s (.ok passed, t) :=
  ⟨hlock, hhandoff, Or.inl ⟨hyes, ⟨_, rfl⟩, hrecorded⟩⟩

theorem ends_init (root : Path) (project_id persistence privacy : String) :
    Ends serializable (.init project_id persistence privacy) s
      (alone i (init_locked root project_id persistence privacy) s) := by
  unfold init_locked
  rw [alone_is_initialized, alone_raiseIf]
  by_cases hstate : s.state = none
  · have hyes : Accepts serializable s (.init project_id persistence privacy) := hstate
    rw [if_neg (by simp [hstate]), alone_handoff_is_file]
    cases hhandoff : s.handoff with
    | none =>
      refine Ends.passed hyes rfl rfl ?_
      rw [recordedBy, Store.handoff_hash, hhandoff]
      rfl
    | some data =>
      have hsha : ∀ f : Option String → Continuity Bytes Payload Passed,
          alone i ((some <$> sha256_handoff) >>= f) (step i .handoff_is_file s).2 =
            alone i (f (some (sha256_bytes data)))
              (step i .read_handoff (step i .handoff_is_file s).2).2 := by
        intro f
        rw [map_eq_pure_bind, bind_assoc, alone_sha256_handoff]
        simp only [step, hhandoff]
        rfl
      rw [Option.isSome_some, if_pos rfl, hsha]
      refine Ends.passed hyes rfl rfl ?_
      rw [recordedBy, Store.handoff_hash, hhandoff]
      rfl
  · have hno : ¬ Accepts serializable s (.init project_id persistence privacy) := hstate
    rw [if_pos (by simpa [Option.isSome_iff_ne_none] using hstate)]
    exact Ends.refused hno rfl rfl rfl

/-- A checkpoint whose checks have passed. -/
theorem ends_publish {t : Store ι Bytes Payload} {st : ContinuityState} {data : Bytes}
    {expected_handoff_sha256 : String} {payload : Payload} {expected_metadata_revision : Option Nat}
    (hstate : s.state = some st)
    (hrev : ∀ r, expected_metadata_revision = some r → st.metadata_revision = r)
    (hhandoff : s.handoff = some data)
    (hsha : sha256_bytes data = canonicalHash expected_handoff_sha256)
    (hlock : t.lock = s.lock) (hhandoff' : t.handoff = s.handoff) (hstate' : t.state = s.state) :
    Ends serializable (.checkpoint expected_handoff_sha256 payload expected_metadata_revision) s
      (alone i (do
        let now ← utc_now
        let token ← secrets_token
        let created_at ← utc_now
        dumps serializable payload
        write_checkpoint (checkpointId (st.metadata_revision + 1) now token)
          { checkpoint_id := checkpointId (st.metadata_revision + 1) now token
            project_id := st.project_id
            metadata_revision := st.metadata_revision + 1
            previous_revision := st.metadata_revision
            handoff_sha256 := sha256_bytes data
            created_at
            payload }
        let updated_at ← utc_now
        write_state .checkpoint
          { st with
            metadata_revision := st.metadata_revision + 1
            handoff_sha256 := some (sha256_bytes data)
            updated_at }
        return .checkpoint (checkpointId (st.metadata_revision + 1) now token)
          (st.metadata_revision + 1)) t) := by
  rw [alone_utc_now, alone_secrets_token, alone_utc_now, dumps, alone_raiseIf]
  by_cases hpayload : serializable payload = true
  · rw [if_neg (by simp [hpayload]), alone_write_checkpoint, alone_utc_now, alone_write_state]
    refine Ends.passed ⟨st, data, hstate, hrev, hhandoff, hsha, hpayload⟩ hlock hhandoff' ?_
    rw [recordedBy, Store.handoff_hash, hhandoff]
    rfl
  · rw [if_pos (by simpa using hpayload)]
    refine Ends.refused ?_ hlock hhandoff' hstate'
    rintro ⟨st', data', -, -, -, -, hyes⟩
    exact hpayload hyes

theorem ends_checkpoint (expected_handoff_sha256 : String) (payload : Payload)
    (expected_metadata_revision : Option Nat) :
    Ends serializable (.checkpoint expected_handoff_sha256 payload expected_metadata_revision) s
      (alone i (checkpoint_locked serializable expected_handoff_sha256 payload
        expected_metadata_revision) s) := by
  unfold checkpoint_locked
  rw [alone_load_state]
  cases hstate : s.state with
  | none =>
    refine Ends.refused ?_ rfl rfl rfl
    rintro ⟨st, data, hst, -⟩
    rw [hstate] at hst
    cases hst
  | some st =>
    dsimp only
    rcases alone_check_revision (i := i) (s := s) "metadata revision conflict"
      expected_metadata_revision st.metadata_revision _ with ⟨err, hrev, hrun⟩ | ⟨hrev, hrun⟩
    · rw [hrun]
      refine Ends.refused ?_ rfl rfl rfl
      rintro ⟨st', data, hst, hrev', -⟩
      rw [hstate] at hst
      cases hst
      exact hrev hrev'
    rw [hrun, alone_handoff_is_file, alone_raiseIf, alone_sha256_handoff]
    cases hhandoff : s.handoff with
    | none =>
      refine Ends.refused ?_ rfl rfl rfl
      rintro ⟨st', data, -, -, hdata, -⟩
      rw [hhandoff] at hdata
      cases hdata
    | some data =>
      have hseen : (step i .handoff_is_file s).2.handoff = some data := hhandoff
      rw [if_neg (by simp), hseen]
      dsimp only
      rw [alone_raiseIf]
      by_cases hsha : sha256_bytes data = canonicalHash expected_handoff_sha256
      · rw [if_neg (not_not.mpr hsha)]
        exact ends_publish hstate hrev hhandoff hsha rfl rfl rfl
      · rw [if_pos hsha]
        refine Ends.refused ?_ rfl rfl rfl
        rintro ⟨st', data', -, -, hdata, hyes, -⟩
        rw [hhandoff] at hdata
        cases hdata
        exact hsha hyes

theorem ends_reconcile (expected_handoff_sha256 observed_handoff_sha256 : String)
    (payload : Payload) (expected_metadata_revision : Option Nat) :
    Ends serializable (.reconcile_handoff expected_handoff_sha256 observed_handoff_sha256 payload
      expected_metadata_revision) s
      (alone i (reconcile_locked expected_handoff_sha256 observed_handoff_sha256
        expected_metadata_revision) s) := by
  unfold reconcile_locked
  rw [alone_load_state]
  cases hstate : s.state with
  | none =>
    refine Ends.refused ?_ rfl rfl rfl
    rintro ⟨st, data, hst, -⟩
    rw [hstate] at hst
    cases hst
  | some st =>
    dsimp only
    rcases alone_check_revision (i := i) (s := s) "metadata revision conflict"
      expected_metadata_revision st.metadata_revision _ with ⟨err, hrev, hrun⟩ | ⟨hrev, hrun⟩
    · rw [hrun]
      refine Ends.refused ?_ rfl rfl rfl
      rintro ⟨st', data, hst, hrev', -⟩
      rw [hstate] at hst
      cases hst
      exact hrev hrev'
    rw [hrun, alone_handoff_is_file, alone_raiseIf, alone_sha256_handoff]
    cases hhandoff : s.handoff with
    | none =>
      refine Ends.refused ?_ rfl rfl rfl
      rintro ⟨st', data, -, -, hdata, -⟩
      rw [hhandoff] at hdata
      cases hdata
    | some data =>
      have hseen : (step i .handoff_is_file s).2.handoff = some data := hhandoff
      rw [if_neg (by simp), hseen]
      dsimp only
      rw [alone_raiseIf]
      by_cases hsha : sha256_bytes data = canonicalHash observed_handoff_sha256
      · rw [if_neg (not_not.mpr hsha)]
        cases hrecorded : st.handoff_sha256 with
        | none =>
          refine Ends.passed ⟨st, data, hstate, hrev, hhandoff, hsha, ?_⟩ rfl rfl ?_
          · intro recorded hr
            rw [hrecorded] at hr
            cases hr
          · rw [recordedBy, Store.handoff_hash, hhandoff]
            rfl
        | some recorded =>
          rw [check_recorded, alone_raiseIf]
          by_cases hnamed : recorded ≠ "" ∧ recorded ≠ canonicalHash expected_handoff_sha256
          · rw [if_pos hnamed]
            refine Ends.refused ?_ rfl rfl rfl
            rintro ⟨st', data', hst, -, -, -, hyes⟩
            rw [hstate] at hst
            cases hst
            rcases hyes recorded hrecorded with hr | hr
            · exact hnamed.1 hr
            · exact hnamed.2 hr
          · rw [if_neg hnamed]
            refine Ends.passed ⟨st, data, hstate, hrev, hhandoff, hsha, ?_⟩ rfl rfl ?_
            · intro recorded' hr
              rw [hrecorded] at hr
              cases hr
              by_contra hno
              exact hnamed (not_or.mp hno)
            · rw [recordedBy, Store.handoff_hash, hhandoff]
              rfl
      · rw [if_pos hsha]
        refine Ends.refused ?_ rfl rfl rfl
        rintro ⟨st', data', -, -, hdata, hyes, -⟩
        rw [hhandoff] at hdata
        cases hdata
        exact hsha hyes

theorem ends_record_decision (decision_id : String) (expected_metadata_revision : Nat)
    (payload : Payload) :
    Ends serializable (.record_decision decision_id expected_metadata_revision payload) s
      (alone i (record_decision_locked serializable decision_id expected_metadata_revision payload)
        s) := by
  unfold record_decision_locked
  rw [alone_raiseIf]
  by_cases hid : decisionId decision_id = true
  · rw [if_neg (by simp [hid]), alone_load_state]
    cases hstate : s.state with
    | none =>
      refine Ends.refused ?_ rfl rfl rfl
      rintro ⟨st, -, hst, -⟩
      rw [hstate] at hst
      cases hst
    | some st =>
      dsimp only
      rcases alone_check_revision (i := i) (s := s) "revision conflict"
        (some expected_metadata_revision) st.metadata_revision _ with ⟨err, hrev, hrun⟩ | ⟨hrev, hrun⟩
      · rw [hrun]
        refine Ends.refused ?_ rfl rfl rfl
        rintro ⟨st', -, hst, hrev', -⟩
        rw [hstate] at hst
        cases hst
        exact hrev fun r hr => hrev'.trans (Option.some.inj hr)
      rw [hrun, alone_decision_exists, alone_raiseIf]
      by_cases habsent : s.decisions decision_id = none
      · rw [if_neg (by simp [habsent]), alone_utc_now, dumps, alone_raiseIf]
        by_cases hpayload : serializable payload = true
        · rw [if_neg (by simp [hpayload]), alone_write_decision, alone_utc_now, alone_write_state]
          refine Ends.passed ⟨st, hid, hstate, hrev _ rfl, habsent, hpayload⟩ rfl rfl ?_
          have hrecorded : s.recorded = st.handoff_sha256 := by rw [Store.recorded, hstate]; rfl
          rw [recordedBy, hrecorded]
          rfl
        · rw [if_pos (by simpa using hpayload)]
          refine Ends.refused ?_ rfl rfl rfl
          rintro ⟨st', -, -, -, -, hyes⟩
          exact hpayload hyes
      · rw [if_pos (by simpa [Option.isSome_iff_ne_none] using habsent)]
        refine Ends.refused ?_ rfl rfl rfl
        rintro ⟨st', -, -, -, hyes, -⟩
        exact habsent hyes
  · rw [if_pos (by simpa using hid)]
    refine Ends.refused ?_ rfl rfl rfl
    rintro ⟨st', hyes, -⟩
    exact hid hyes

/-- The critical section of every call. -/
theorem ends_locked (root : Path) (call : Call Payload) :
    Ends serializable call s (alone i (call.locked serializable root) s) := by
  cases call with
  | init project_id persistence privacy => exact ends_init root project_id persistence privacy
  | checkpoint expected payload revision => exact ends_checkpoint expected payload revision
  | reconcile_handoff expected observed payload revision =>
    exact ends_reconcile expected observed payload revision
  | record_decision decision_id revision payload =>
    exact ends_record_decision decision_id revision payload

variable (serializable) in
/-- A call ends as its critical section does, with the lock free again. -/
theorem ends_program (root : Path) (call : Call Payload) (hlock : s.lock = none) :
    (alone i (call.program serializable root) s).2.lock = none ∧
      ((Accepts serializable s call ∧
          (∃ passed, (alone i (call.program serializable root) s).1 = .ok passed) ∧
          (alone i (call.program serializable root) s).2.recorded = recordedBy s call) ∨
        (¬ Accepts serializable s call ∧
          (∃ err, (alone i (call.program serializable root) s).1 = .error err) ∧
          (alone i (call.program serializable root) s).2.state = s.state)) := by
  have hends : Ends serializable call { s with lock := some i }
      (alone i (call.locked serializable root) { s with lock := some i }) := ends_locked root call
  have hrun : alone i (call.program serializable root) s =
      ((alone i (call.locked serializable root) { s with lock := some i }).1,
        { (alone i (call.locked serializable root) { s with lock := some i }).2 with
          lock := none }) := by
    have hinner : alone i (call.program serializable root) s =
        alone i ((call.locked serializable root).ensuring release) { s with lock := some i } := by
      unfold Call.program with_revision_lock
      rw [alone_acquire hlock]
      rfl
    rw [hinner, alone, run_ensuring]
    cases (run (machine ι Bytes Payload) i (call.locked serializable root)
      { s with lock := some i }).1 with
    | ok passed => rfl
    | error err => rfl
  rw [hrun]
  refine ⟨rfl, ?_⟩
  obtain ⟨-, -, ⟨hyes, hpassed, hrecorded⟩ | ⟨hno, herr, hstate⟩⟩ := hends
  · refine Or.inl ⟨?_, hpassed, ?_⟩
    · cases call <;> exact hyes
    · cases call <;> exact hrecorded
  · refine Or.inr ⟨fun hyes => hno ?_, herr, hstate⟩
    cases call <;> exact hyes

/-- A call of some process, or an edit of HANDOFF.md. -/
inductive Event (ι Bytes Payload : Type)
  | call (i : ι) (call : Call Payload)
  | edit (handoff : Option Bytes)

variable (serializable) (root : Path)

/-- The store after an event. -/
def Store.next (s : Store ι Bytes Payload) : Event ι Bytes Payload → Store ι Bytes Payload
  | .call i call => (alone i (call.program serializable root) s).2
  | .edit handoff => { s with handoff }

/-- The law of handoff drift for one event. -/
structure Lawful (s : Store ι Bytes Payload) (i : ι) (call : Call Payload) : Prop where
  frozen : ∀ h, s.recorded = some h → s.handoff_hash ≠ some h →
    call.kind = .checkpoint ∨ call.kind = .decision →
    (∃ err, (alone i (call.program serializable root) s).1 = .error err) ∧
      (s.next serializable root (.call i call)).revision = s.revision
  adopted : s.state ≠ none →
    (s.next serializable root (.call i call)).recorded ≠ s.recorded →
    ∃ expected observed payload revision,
      call = .reconcile_handoff expected observed payload revision ∧
      s.recorded = some (canonicalHash expected) ∧ s.handoff_hash = some (canonicalHash observed)

/-- The condition on a call under which it obeys the law: a checkpoint that goes
through finds its handoff recorded, a decision that goes through finds no drift,
and a reconciliation that goes through finds the handoff it names recorded. -/
def Heeds (s : Store ι Bytes Payload) (call : Call Payload) : Prop :=
  Accepts serializable s call → match call with
    | .init _ _ _ => True
    | .checkpoint _ _ _ => s.recorded = s.handoff_hash
    | .reconcile_handoff expected _ _ _ =>
      s.recorded = s.handoff_hash ∨ s.recorded = some (canonicalHash expected)
    | .record_decision _ _ _ => ∀ h, s.recorded = some h → s.handoff_hash = some h

variable {serializable} {root} {call : Call Payload}

omit [DecidableEq ι] [Text] [Digest Bytes] in
theorem revision_congr {t : Store ι Bytes Payload} (h : t.state = s.state) :
    t.revision = s.revision := by rw [Store.revision, h, Store.revision]

omit [DecidableEq ι] [Text] [Digest Bytes] in
theorem recorded_congr {t : Store ι Bytes Payload} (h : t.state = s.state) :
    t.recorded = s.recorded := by rw [Store.recorded, h, Store.recorded]

theorem Lawful.heeds (hlock : s.lock = none) (h : Lawful serializable root s i call) :
    Heeds serializable s call := by
  intro hyes
  obtain ⟨-, ⟨-, ⟨passed, hpassed⟩, hrecorded⟩ | ⟨hno, -, -⟩⟩ :=
    ends_program serializable (i := i) root call hlock
  swap
  · exact absurd hyes hno
  cases call with
  | init project_id persistence privacy => trivial
  | checkpoint expected payload revision =>
    obtain ⟨st, data, hstate, -⟩ := hyes
    by_contra hne
    obtain ⟨_, _, _, _, hcall, -⟩ := h.adopted (by simp [hstate]) fun heq =>
      hne (heq.symm.trans hrecorded)
    cases hcall
  | reconcile_handoff expected observed payload revision =>
    obtain ⟨st, data, hstate, -⟩ := hyes
    by_cases heq : s.recorded = s.handoff_hash
    · exact Or.inl heq
    · obtain ⟨_, _, _, _, hcall, hnamed, -⟩ := h.adopted (by simp [hstate]) fun hsame =>
        heq (hsame.symm.trans hrecorded)
      cases hcall
      exact Or.inr hnamed
  | record_decision decision_id revision payload =>
    intro hash hhash
    by_contra hdrift
    obtain ⟨⟨err, herr⟩, -⟩ := h.frozen hash hhash hdrift (Or.inr rfl)
    rw [hpassed] at herr
    cases herr

theorem Heeds.lawful (hlock : s.lock = none) (h : Heeds serializable s call) :
    Lawful serializable root s i call := by
  obtain ⟨-, ⟨hyes, -, hrecorded⟩ | ⟨-, herr, hstate⟩⟩ :=
    ends_program serializable (i := i) root call hlock
  · have hheeds := h hyes
    refine ⟨fun hash hhash hdrift hkind => ?_, fun hinit hchanged => ?_⟩
    · cases call with
      | init project_id persistence privacy => rcases hkind with hkind | hkind <;> cases hkind
      | checkpoint expected payload revision => exact absurd (hheeds.symm.trans hhash) hdrift
      | reconcile_handoff expected observed payload revision =>
        rcases hkind with hkind | hkind <;> cases hkind
      | record_decision decision_id revision payload => exact absurd (hheeds hash hhash) hdrift
    · cases call with
      | init project_id persistence privacy => exact absurd hyes hinit
      | checkpoint expected payload revision =>
        exact absurd (hrecorded.trans hheeds.symm) hchanged
      | reconcile_handoff expected observed payload revision =>
        obtain ⟨st, data, -, -, hhandoff, hsha, -⟩ := hyes
        refine ⟨expected, observed, payload, revision, rfl, ?_, ?_⟩
        · exact hheeds.resolve_left fun heq => hchanged (hrecorded.trans heq.symm)
        · rw [Store.handoff_hash, hhandoff, Option.map_some, hsha]
      | record_decision decision_id revision payload => exact absurd hrecorded hchanged
  · exact ⟨fun _ _ _ _ => ⟨herr, revision_congr hstate⟩,
      fun _ hchanged => absurd (recorded_congr hstate) hchanged⟩

variable (serializable) (root)

/-- The store after a run of events. -/
def Store.after (s : Store ι Bytes Payload) (events : List (Event ι Bytes Payload)) :
    Store ι Bytes Payload :=
  events.foldl (Store.next serializable root) s

variable {serializable} {root}

/-- Between two events nobody holds the lock. -/
theorem after_lock (hlock : s.lock = none) (events : List (Event ι Bytes Payload)) :
    (s.after serializable root events).lock = none := by
  induction events generalizing s with
  | nil => exact hlock
  | cons event rest ih =>
    rw [Store.after, List.foldl_cons]
    refine ih ?_
    cases event with
    | call j call => exact (ends_program serializable root call hlock).1
    | edit handoff => exact hlock

/-- In a run of calls and edits, every call obeys the law of handoff drift exactly
when every call meets the condition. -/
theorem drift_reconciled_iff (hlock : s.lock = none) (events : List (Event ι Bytes Payload)) :
    (∀ before i call after, events = before ++ .call i call :: after →
      Lawful serializable root (s.after serializable root before) i call) ↔
    (∀ before i call after, events = before ++ .call i call :: after →
      Heeds serializable (s.after serializable root before) call) := by
  constructor
  · intro h before i call after heq
    exact (h before i call after heq).heeds (after_lock hlock before)
  · intro h before i call after heq
    exact (h before i call after heq).lawful (after_lock hlock before)

section Samples

omit [DecidableEq ι] [Text] [Digest Bytes]

/-- The handoff is edited behind the back of a new project, then the call is made. -/
def driftEvents (call : Call Unit) : List (Event Bool String Unit) :=
  [.call false (.init "app" "git" "standard"), .edit (some "a"), .call true call]

theorem drift_reconciled_iff_reconcile :
    (∀ before i call after,
      driftEvents (.reconcile_handoff
        "E3B0C44298FC1C149AFBF4C8996FB92427AE41E4649B934CA495991B7852B855"
        "CA978112CA1BBDCAFAC231B39A23DC4DA786EFF8147C4E72B9807785AFEE48BB" () none) =
        before ++ .call i call :: after →
      @Lawful Bool String Unit _ asciiText sampleDigest (fun _ => true) "/srv/app"
        (@Store.after Bool String Unit _ asciiText sampleDigest (fun _ => true) "/srv/app" newStore
          before) i call) ↔
    (∀ before i call after,
      driftEvents (.reconcile_handoff
        "E3B0C44298FC1C149AFBF4C8996FB92427AE41E4649B934CA495991B7852B855"
        "CA978112CA1BBDCAFAC231B39A23DC4DA786EFF8147C4E72B9807785AFEE48BB" () none) =
        before ++ .call i call :: after →
      @Heeds Bool String Unit asciiText sampleDigest (fun _ => true)
        (@Store.after Bool String Unit _ asciiText sampleDigest (fun _ => true) "/srv/app" newStore
          before) call) :=
  @drift_reconciled_iff Bool String Unit _ newStore asciiText sampleDigest (fun _ => true)
    "/srv/app" rfl _

/-- A checkpoint that names the new hash adopts it without any reconciliation. -/
theorem checkpoint_adopts_drift :
    ¬ ∀ before i call after,
      driftEvents (.checkpoint
        "CA978112CA1BBDCAFAC231B39A23DC4DA786EFF8147C4E72B9807785AFEE48BB" () none) =
        before ++ .call i call :: after →
      @Lawful Bool String Unit _ asciiText sampleDigest (fun _ => true) "/srv/app"
        (@Store.after Bool String Unit _ asciiText sampleDigest (fun _ => true) "/srv/app" newStore
          before) i call := by
  intro h
  have hlaw := h [.call false (.init "app" "git" "standard"), .edit (some "a")] true _ [] rfl
  revert hlaw
  generalize hs : @Store.after Bool String Unit _ asciiText sampleDigest (fun _ => true) "/srv/app"
    newStore [.call false (.init "app" "git" "standard"), .edit (some "a")] = s
  intro hlaw
  have hlock : s.lock = none := by
    rw [← hs]
    decide +kernel
  have hstate : s.state.isSome = true := by
    rw [← hs]
    decide +kernel
  have hhandoff : s.handoff = some "a" := by
    rw [← hs]
    decide +kernel
  have hrecorded : s.recorded ≠ @Store.handoff_hash Bool String Unit sampleDigest s := by
    rw [← hs]
    decide +kernel
  obtain ⟨st, hst⟩ := Option.isSome_iff_exists.mp hstate
  refine hrecorded (@Lawful.heeds Bool String Unit _ true s asciiText sampleDigest (fun _ => true)
    "/srv/app" _ hlock hlaw ⟨st, "a", hst, by simp, hhandoff, ?_, rfl⟩)
  decide +kernel

end Samples

end jvc.continuity
