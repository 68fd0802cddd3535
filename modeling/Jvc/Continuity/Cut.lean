import Jvc.Continuity.Drift

open program Prog

namespace jvc.continuity

variable {ι Bytes Payload α β : Type} [DecidableEq ι] {i : ι} {s t u : Store ι Bytes Payload}

/-- All that calls read of each other is the same in both. -/
structure Alike (s t : Store ι Bytes Payload) : Prop where
  state : t.state = s.state
  handoff : t.handoff = s.handoff
  checkpoints : t.checkpoints = s.checkpoints
  decisions : t.decisions = s.decisions
  changes : t.changes = s.changes

/-- The kinds of calls that write a file before the state file. -/
def Kind.publishes : Kind → Bool
  | .checkpoint => true
  | .decision => true
  | .init => false
  | .reconcile => false

/-- A file of revision `s.revision + 1` that was added to those of `s`. -/
structure Added (i : ι) (s : Store ι Bytes Payload) (file : FileName) (t : Store ι Bytes Payload) :
    Prop where
  started : s.state.isSome = true
  artifact : ∀ f, t.artifact f = if f = file then some (s.revision + 1) else s.artifact f
  other : file ≠ .state

/-- The moments of a call of process `i` that began in `s`. -/
inductive Phase (i : ι) (kind : Kind) (s : Store ι Bytes Payload) : Store ι Bytes Payload → Prop
  | before {t : Store ι Bytes Payload} (h : Alike s t) : Phase i kind s t
  | between {t : Store ι Bytes Payload} {file : FileName} (hkind : kind.publishes = true)
      (h : Added i s file t) (hstate : t.state = s.state)
      (hchanges : t.changes = (i, file) :: s.changes) : Phase i kind s t
  | after {t : Store ι Bytes Payload} {file : FileName} (hkind : kind.publishes = true)
      (h : Added i s file t) (hrevision : t.revision = s.revision + 1)
      (hchanges : t.changes = (i, .state) :: (i, file) :: s.changes) : Phase i kind s t
  | replaced {t : Store ι Bytes Payload} (hkind : kind.publishes = false)
      (hartifact : t.artifact = s.artifact) (hrevision : t.revision = s.revision + 1)
      (hchanges : t.changes = (i, .state) :: s.changes) : Phase i kind s t

/-- The state that a call leaves that is cut off, or fails, after `n` steps: its lock is
released, by itself or by the host. -/
def stopped [Text] [Digest Bytes] (serializable : Payload → Bool) (root : Path) (i : ι)
    (call : Call Payload) (n : Nat) (s : Store ι Bytes Payload) : Store ι Bytes Payload :=
  { (call.program serializable root).cut (machine ι Bytes Payload) i n s with lock := none }

/-- The call has replaced the file that it adds, and not yet the state file. -/
def Gap [Text] [Digest Bytes] (serializable : Payload → Bool) (root : Path) (i : ι)
    (call : Call Payload) (n : Nat) (s : Store ι Bytes Payload) : Prop :=
  ∃ file, file ≠ .state ∧
    ((call.program serializable root).cut (machine ι Bytes Payload) i n s).changes =
      (i, file) :: s.changes

section Steps

/-- A program that nothing interrupts, each of whose states is a moment of the call. -/
abbrev timely (i : ι) (kind : Kind) (s : Store ι Bytes Payload) (p : Continuity Bytes Payload α)
    (Q : Except Err α → Store ι Bytes Payload → Prop) (t : Store ι Bytes Payload) : Prop :=
  wp (machine ι Bytes Payload) i Eq (fun _ b => Phase i kind s b) p Q t

variable {kind : Kind}

omit [DecidableEq ι] in
theorem Alike.refl (s : Store ι Bytes Payload) : Alike s s := ⟨rfl, rfl, rfl, rfl, rfl⟩

omit [DecidableEq ι] in
theorem Alike.trans (h : Alike s t) (h' : Alike t u) : Alike s u :=
  ⟨h'.state.trans h.state, h'.handoff.trans h.handoff, h'.checkpoints.trans h.checkpoints,
    h'.decisions.trans h.decisions, h'.changes.trans h.changes⟩

omit [DecidableEq ι] in
theorem Alike.revision (h : Alike s t) : t.revision = s.revision := by
  rw [Store.revision, h.state, Store.revision]

omit [DecidableEq ι] in
theorem Alike.artifact (h : Alike s t) : t.artifact = s.artifact := by
  funext file
  cases file with
  | state => rfl
  | checkpoint name => rw [Store.artifact, h.checkpoints, Store.artifact]
  | decision name => rw [Store.artifact, h.decisions, Store.artifact]

omit [DecidableEq ι] in
/-- What changes nothing keeps the moment. -/
theorem Phase.alike (h : Phase i kind s t) (ht : Alike t u) : Phase i kind s u := by
  cases h with
  | before h => exact .before (h.trans ht)
  | between hkind h hstate hchanges =>
    exact .between hkind ⟨h.started, fun f => by rw [ht.artifact, h.artifact], h.other⟩
      (ht.state.trans hstate) (ht.changes.trans hchanges)
  | after hkind h hrevision hchanges =>
    exact .after hkind ⟨h.started, fun f => by rw [ht.artifact, h.artifact], h.other⟩
      (ht.revision.trans hrevision) (ht.changes.trans hchanges)
  | replaced hkind hartifact hrevision hchanges =>
    exact .replaced hkind (ht.artifact.trans hartifact) (ht.revision.trans hrevision)
      (ht.changes.trans hchanges)

/-- The operations that change nothing that other calls read. -/
def Quiet : Op Payload → Prop
  | .write_checkpoint _ _ | .write_decision _ _ | .write_state _ _ => False
  | _ => True

theorem quiet_step (op : Op Payload) (hop : Quiet op) (s : Store ι Bytes Payload) :
    Alike s (step i op s).2 := by
  cases op with
  | acquire =>
    rw [step]
    split
    · exact ⟨rfl, rfl, rfl, rfl, rfl⟩
    · exact Alike.refl s
  | write_checkpoint id data => exact absurd hop not_false
  | write_decision id data => exact absurd hop not_false
  | write_state kind st => exact absurd hop not_false
  | _ => exact ⟨rfl, rfl, rfl, rfl, rfl⟩

/-- The program goes through moments of the call only, and ends in one. -/
abbrev Timely (i : ι) (kind : Kind) (s : Store ι Bytes Payload) (p : Continuity Bytes Payload α)
    (t : Store ι Bytes Payload) : Prop := timely i kind s p (fun _ u => Phase i kind s u) t

theorem timely_quiet (op : Op Payload) {k : op.Res Bytes → Continuity Bytes Payload α}
    (hop : Quiet op) (hphase : Phase i kind s t)
    (hk : Timely i kind s (k (step i op t).1) (step i op t).2) : Timely i kind s (.act op k) t := by
  rintro _ rfl
  exact ⟨.inr (hphase.alike (quiet_step op hop t)), hk⟩

variable {f : β → Continuity Bytes Payload α}

theorem timely_raiseIf {c : Prop} [Decidable c] {err : Err} {f : Unit → Continuity Bytes Payload α}
    (hphase : Phase i kind s t) (hf : ¬ c → Timely i kind s (f ()) t) :
    Timely i kind s (raiseIf c err >>= f) t := by
  by_cases hc : c
  · rw [raiseIf, if_pos hc]
    exact hphase
  · rw [raiseIf, if_neg hc]
    exact hf hc

theorem timely_load_state {f : ContinuityState → Continuity Bytes Payload α} (h : Alike s t)
    (hf : ∀ st, s.state = some st → Timely i kind s (f st) t) :
    Timely i kind s (load_state >>= f) t := by
  rw [load_state, bind_assoc]
  refine timely_quiet .is_initialized trivial (.before h) ?_
  change Timely i kind s ((raiseIf (t.state.isSome = false) _ >>= _) >>= f) t
  rw [bind_assoc]
  refine timely_raiseIf (.before h) fun hsome => ?_
  rw [bind_assoc]
  refine timely_quiet .read_state trivial (.before h) ?_
  change Timely i kind s (expect _ t.state >>= f) t
  cases hstate : t.state with
  | none =>
    rw [hstate] at hsome
    exact absurd rfl hsome
  | some st => exact hf st (h.state.symm.trans hstate)

theorem timely_check_revision {conflict : String} {expected : Option Nat} {observed : Nat}
    {f : Unit → Continuity Bytes Payload α} (hphase : Phase i kind s t)
    (hf : Timely i kind s (f ()) t) :
    Timely i kind s (check_revision conflict expected observed >>= f) t := by
  cases expected with
  | none => exact hf
  | some revision => exact timely_raiseIf hphase fun _ => hf

theorem timely_sha256_handoff [Digest Bytes] {f : String → Continuity Bytes Payload α}
    (h : Alike s t) (hf : ∀ sha u, Alike s u → Timely i kind s (f sha) u) :
    Timely i kind s (sha256_handoff >>= f) t := by
  have hread := h.trans (quiet_step (i := i) .read_handoff trivial t)
  rw [sha256_handoff, bind_assoc]
  refine timely_quiet .read_handoff trivial (.before h) ?_
  change Timely i kind s ((expect _ t.handoff >>= _) >>= f) (step i .read_handoff t).2
  rw [bind_assoc]
  cases t.handoff with
  | none => exact .before hread
  | some data => exact hf _ _ hread

/-- The clock and the random source. -/
theorem timely_tick (op : Op Payload) {k : op.Res Bytes → Continuity Bytes Payload α} (hop : Quiet op)
    (h : Alike s t) (hk : ∀ answer u, Alike s u → Timely i kind s (k answer) u) :
    Timely i kind s (.act op k) t :=
  timely_quiet op hop (.before h) (hk _ _ (h.trans (quiet_step op hop t)))

/-- From the replacement of the added file on: the clock, and the state file. -/
theorem timely_publish {file : FileName} {state' : String → ContinuityState} {passed : Passed}
    (hkind : kind.publishes = true) (hadded : Added i s file t) (hstate : t.state = s.state)
    (hchanges : t.changes = (i, file) :: s.changes)
    (hrev : ∀ now, (state' now).metadata_revision = s.revision + 1) :
    Timely i kind s (do
      let updated_at ← utc_now
      write_state kind (state' updated_at)
      return passed) t := by
  refine timely_quiet .utc_now trivial (.between hkind hadded hstate hchanges) ?_
  have hafter : Phase i kind s
      (step i (.write_state kind (state' (t.times t.ticks))) (step i .utc_now t).2).2 := by
    refine .after hkind ⟨hadded.started, hadded.artifact, hadded.other⟩ (hrev _) ?_
    change (i, FileName.state) :: t.changes = _
    rw [hchanges]
  rintro _ rfl
  exact ⟨.inr hafter, hafter⟩

end Steps

section Sections

variable [Text] [Digest Bytes] (serializable : Payload → Bool)

omit [DecidableEq ι] [Digest Bytes] [Text] in
theorem revision_of_state {st : ContinuityState} (h : s.state = some st) :
    s.revision = st.metadata_revision := by
  rw [Store.revision, h]
  rfl

omit [Digest Bytes] [Text] in
theorem added_checkpoint {st : ContinuityState} (hst : s.state = some st) (h : Alike s t) (name : String)
    {data : Checkpoint Payload} (hdata : data.metadata_revision = s.revision + 1) :
    Added i s (.checkpoint name) (step i (.write_checkpoint name data) t).2 := by
  refine ⟨by rw [hst]; rfl, fun f => ?_, fun heq => by cases heq⟩
  rw [← h.artifact]
  cases f with
  | state => rfl
  | decision other => rfl
  | checkpoint other =>
    change (Function.update t.checkpoints name (some data) other).map Checkpoint.metadata_revision = _
    by_cases hname : other = name
    · subst hname
      rw [Function.update_self, if_pos rfl, Option.map_some, hdata]
    · rw [Function.update_of_ne hname, if_neg fun heq => hname (FileName.checkpoint.inj heq)]
      rfl

omit [Digest Bytes] [Text] in
theorem added_decision {st : ContinuityState} (hst : s.state = some st) (h : Alike s t) (name : String)
    {data : Decision Payload} (hdata : data.metadata_revision = s.revision + 1) :
    Added i s (.decision name) (step i (.write_decision name data) t).2 := by
  refine ⟨by rw [hst]; rfl, fun f => ?_, fun heq => by cases heq⟩
  rw [← h.artifact]
  cases f with
  | state => rfl
  | checkpoint other => rfl
  | decision other =>
    change (Function.update t.decisions name (some data) other).map Decision.metadata_revision = _
    by_cases hname : other = name
    · subst hname
      rw [Function.update_self, if_pos rfl, Option.map_some, hdata]
    · rw [Function.update_of_ne hname, if_neg fun heq => hname (FileName.decision.inj heq)]
      rfl

omit [Digest Bytes] [Text] in
/-- The replacement of an added file, and what comes after it. -/
theorem timely_add {kind : Kind} (op : Op Payload) {file : FileName} {k : op.Res Bytes → Continuity Bytes Payload Passed}
    (hkind : kind.publishes = true) (h : Alike s t) (hadded : Added i s file (step i op t).2)
    (hstate : (step i op t).2.state = t.state) (hchanges : (step i op t).2.changes = (i, file) :: t.changes)
    (hk : ∀ u, Added i s file u → u.state = s.state → u.changes = (i, file) :: s.changes →
      Timely i kind s (k (step i op t).1) u) : Timely i kind s (.act op k) t := by
  rintro _ rfl
  have hstate' := hstate.trans h.state
  rw [h.changes] at hchanges
  exact ⟨.inr (.between hkind hadded hstate' hchanges), hk _ hadded hstate' hchanges⟩

theorem timely_checkpoint (expected_handoff_sha256 : String) (payload : Payload)
    (expected_metadata_revision : Option Nat) (h : Alike s t) :
    Timely i .checkpoint s (checkpoint_locked serializable expected_handoff_sha256 payload
      expected_metadata_revision : Continuity Bytes Payload Passed) t := by
  refine timely_load_state h fun st hst => timely_check_revision (.before h) ?_
  refine timely_tick .handoff_is_file trivial h fun (present : Bool) t₁ h₁ => ?_
  refine timely_raiseIf (.before h₁) fun _ => timely_sha256_handoff h₁ fun sha t₂ h₂ => ?_
  refine timely_raiseIf (.before h₂) fun _ => ?_
  refine timely_tick .utc_now trivial h₂ fun now t₃ h₃ => ?_
  refine timely_tick .secrets_token trivial h₃ fun token t₄ h₄ => ?_
  refine timely_tick .utc_now trivial h₄ fun created_at t₅ h₅ => ?_
  refine timely_raiseIf (.before h₅) fun _ => ?_
  have hrev := revision_of_state hst
  refine timely_add (.write_checkpoint _ _) rfl h₅
    (added_checkpoint hst h₅ _ (by rw [hrev])) rfl rfl fun u hadded hstate hchanges => ?_
  exact timely_publish rfl hadded hstate hchanges fun _ => by rw [hrev]

omit [Digest Bytes] in
theorem timely_record_decision (decision_id : String) (expected_metadata_revision : Nat)
    (payload : Payload) (h : Alike s t) :
    Timely i .decision s (record_decision_locked serializable decision_id
      expected_metadata_revision payload : Continuity Bytes Payload Passed) t := by
  refine timely_raiseIf (.before h) fun _ => ?_
  refine timely_load_state h fun st hst => timely_check_revision (.before h) ?_
  refine timely_tick (.decision_exists decision_id) trivial h fun (present : Bool) t₁ h₁ => ?_
  refine timely_raiseIf (.before h₁) fun _ => ?_
  refine timely_tick .utc_now trivial h₁ fun recorded_at t₂ h₂ => ?_
  refine timely_raiseIf (.before h₂) fun _ => ?_
  have hrev := revision_of_state hst
  refine timely_add (.write_decision _ _) rfl h₂
    (added_decision hst h₂ _ (by rw [hrev])) rfl rfl fun u hadded hstate hchanges => ?_
  exact timely_publish rfl hadded hstate hchanges fun _ => by rw [hrev]

omit [Digest Bytes] [Text] in
/-- The replacement of the state file alone. -/
theorem timely_replace {kind : Kind} {st : ContinuityState} {passed : Passed}
    (hkind : kind.publishes = false) (h : Alike s t) (hrev : st.metadata_revision = s.revision + 1) :
    Timely i kind s (do
      write_state kind st
      return passed) t := by
  have hafter : Phase i kind s (step i (.write_state kind st) t).2 := by
    refine .replaced hkind h.artifact hrev ?_
    change (i, FileName.state) :: t.changes = _
    rw [h.changes]
  rintro _ rfl
  exact ⟨.inr hafter, hafter⟩

theorem timely_reconcile (expected_handoff_sha256 observed_handoff_sha256 : String)
    (expected_metadata_revision : Option Nat) (h : Alike s t) :
    Timely i .reconcile s (reconcile_locked expected_handoff_sha256 observed_handoff_sha256
      expected_metadata_revision : Continuity Bytes Payload Passed) t := by
  refine timely_load_state h fun st hst => timely_check_revision (.before h) ?_
  refine timely_tick .handoff_is_file trivial h fun (present : Bool) t₁ h₁ => ?_
  refine timely_raiseIf (.before h₁) fun _ => timely_sha256_handoff h₁ fun sha t₂ h₂ => ?_
  refine timely_raiseIf (.before h₂) fun _ => ?_
  have hrest : Timely i .reconcile s (do
      let updated_at ← utc_now
      write_state .reconcile { st with
        metadata_revision := st.metadata_revision + 1, handoff_sha256 := some sha, updated_at }
      return Passed.reconciled (st.metadata_revision + 1) sha) t₂ := by
    refine timely_tick .utc_now trivial h₂ fun updated_at t₃ h₃ => ?_
    exact timely_replace rfl h₃ (by rw [revision_of_state hst])
  cases hrecorded : st.handoff_sha256 with
  | none => exact hrest
  | some recorded => exact timely_raiseIf (.before h₂) fun _ => hrest

omit [Text] in
theorem timely_handoff_sha {kind : Kind} {present : Bool}
    {f : Option String → Continuity Bytes Payload α} (h : Alike s t)
    (hf : ∀ sha u, Alike s u → Timely i kind s (f sha) u) :
    Timely i kind s (if present then (some <$> sha256_handoff) >>= f else pure none >>= f) t := by
  cases present with
  | false => exact hf none t h
  | true =>
    rw [if_pos rfl, bind_map_left]
    exact timely_sha256_handoff h fun sha u hu => hf (some sha) u hu

omit [Text] in
theorem timely_init (root : Path) (project_id persistence privacy : String) (h : Alike s t) :
    Timely i .init s (init_locked root project_id persistence privacy :
      Continuity Bytes Payload Passed) t := by
  refine timely_quiet .is_initialized trivial (.before h) ?_
  refine timely_raiseIf (c := t.state.isSome = true) (.before h) fun hnone => ?_
  have hstate : s.state = none := by
    rw [← h.state]
    cases hst : t.state with
    | none => rfl
    | some st =>
      rw [hst] at hnone
      exact absurd rfl hnone
  have hrev : s.revision = 0 := by
    rw [Store.revision, hstate]
    rfl
  refine timely_tick .handoff_is_file trivial h fun (present : Bool) t₁ h₁ => ?_
  have hrest : ∀ sha u, Alike s u → Timely i .init s (do
      let created_at ← utc_now
      let updated_at ← utc_now
      write_state .init
        { schema_version := SCHEMA_VERSION
          project_id
          metadata_revision := 1
          persistence
          privacy
          active_workstream := none
          handoff_sha256 := sha
          created_at
          updated_at }
      return Passed.init project_id 1) u := by
    intro sha u hu
    refine timely_tick .utc_now trivial hu fun created_at t₂ h₂ => ?_
    refine timely_tick .utc_now trivial h₂ fun updated_at t₃ h₃ => ?_
    exact timely_replace rfl h₃ (by rw [hrev])
  exact timely_handoff_sha h₁ hrest

/-- The critical section of every call goes through moments of the call only. -/
theorem timely_locked (root : Path) (call : Call Payload) (h : Alike s t) :
    Timely i call.kind s (call.locked serializable root) t := by
  cases call with
  | init project_id persistence privacy => exact timely_init root project_id persistence privacy h
  | checkpoint expected payload revision => exact timely_checkpoint serializable expected payload revision h
  | reconcile_handoff expected observed payload revision =>
    exact timely_reconcile expected observed revision h
  | record_decision decision_id revision payload =>
    exact timely_record_decision serializable decision_id revision payload h

theorem timely_program (root : Path) (call : Call Payload) :
    Timely i call.kind s (call.program serializable root) s := by
  refine timely_tick .acquire trivial (Alike.refl s) fun (acquired : Bool) t h => ?_
  cases acquired with
  | false => exact .before h
  | true =>
    refine wp_ensuring.mpr (wp_post (timely_locked serializable root call h) fun r u hu => ?_)
    rintro _ rfl
    have hreleased := hu.alike (quiet_step (i := i) .release trivial u)
    exact ⟨.inr hreleased, hreleased⟩

/-- Wherever a call is cut off, it is at one of its moments. -/
theorem phase_cut (root : Path) (call : Call Payload) (n : Nat) : Phase i call.kind s
    ((call.program serializable root).cut (machine ι Bytes Payload) i n s) :=
  cut_invariant (I := fun u => Phase i call.kind s u) (fun _ => rfl)
    (timely_program serializable root call) (fun _ _ _ h => h) (.before (Alike.refl s)) n

end Sections

section Stopping

variable [Text] [Digest Bytes] (serializable : Payload → Bool) (root : Path)

/-- Either nothing was done, or a file was added and the state file is at its revision. -/
def Atomic (s u : Store ι Bytes Payload) : Prop :=
  (u.artifact = s.artifact ∧ u.state = s.state) ∨
    ∃ file, u.artifact file = some u.revision ∧ u.revision = s.revision + 1

/-- What a call leaves that was cut off: all or nothing, no two files of one revision, and
where nothing was done a call that can go through when it is made again. -/
structure AllOrNothing (s u : Store ι Bytes Payload) (i : ι) (call : Call Payload) : Prop where
  atomic : Atomic s u
  distinct : ∀ file file' r, u.artifact file = some r → u.artifact file' = some r → file = file'
  repeatable : u.state = s.state → Accepts serializable s call →
    ∃ passed, (alone i (call.program serializable root) u).1 = .ok passed

/-- The states reached by calls and edits of the handoff, one after the other, where no call
is stopped in its gap. -/
inductive Reached : Store ι Bytes Payload → Prop
  | start {s : Store ι Bytes Payload} (h : Fresh s) : Reached s
  | edit {s : Store ι Bytes Payload} (h : Reached s) (handoff : Option Bytes) :
      Reached { s with handoff }
  | stopped {s : Store ι Bytes Payload} (h : Reached s) (i : ι) (call : Call Payload) (n : Nat)
      (hgap : ¬ Gap serializable root i call n s) : Reached (stopped serializable root i call n s)

/-- Between two calls, no file is ahead of the state file. -/
structure Settled (s : Store ι Bytes Payload) : Prop where
  lock : s.lock = none
  files : Files s s.revision
  started : s.state.isSome = true → 1 ≤ s.revision

omit [DecidableEq ι] [Text] [Digest Bytes] in
theorem Files.congr_artifact {top : Nat} (h : Files s top) (hart : u.artifact = s.artifact) :
    Files u top := ⟨hart ▸ h.bounds, hart ▸ h.distinct⟩

omit [DecidableEq ι] [Text] [Digest Bytes] in
theorem Files.mono {top top' : Nat} (h : Files s top) (hle : top ≤ top') : Files s top' :=
  ⟨fun file r hr => ⟨(h.bounds file r hr).1, (h.bounds file r hr).2.trans hle⟩, h.distinct⟩

omit [DecidableEq ι] [Text] [Digest Bytes] in
theorem Added.files {file : FileName} (h : Added i s file u) (hs : Settled s) :
    Files u (s.revision + 1) := by
  have hstarted := hs.started h.started
  have hbelow : ∀ f r, f ≠ file → u.artifact f = some r → s.artifact f = some r ∧ r ≤ s.revision := by
    intro f r hne hr
    rw [h.artifact, if_neg hne] at hr
    exact ⟨hr, (hs.files.bounds f r hr).2⟩
  have hnew : ∀ r, u.artifact file = some r → r = s.revision + 1 := by
    intro r hr
    rw [h.artifact, if_pos rfl] at hr
    exact (Option.some.inj hr).symm
  constructor
  · intro f r hr
    by_cases hf : f = file
    · subst hf
      have heq := hnew r hr
      omega
    · obtain ⟨hold, hle⟩ := hbelow f r hf hr
      have hlow := (hs.files.bounds f r hold).1
      omega
  · intro f f' r hr hr'
    by_cases hf : f = file
    · by_cases hf' : f' = file
      · rw [hf, hf']
      · subst hf
        have heq := hnew r hr
        have hle := (hbelow f' r hf' hr').2
        omega
    · by_cases hf' : f' = file
      · subst hf'
        have heq := hnew r hr'
        have hle := (hbelow f r hf hr).2
        omega
      · exact hs.files.distinct f f' r (hbelow f r hf hr).1 (hbelow f' r hf' hr').1

variable {serializable root} {call : Call Payload} {n : Nat}

theorem stopped_alike : Alike ((call.program serializable root).cut (machine ι Bytes Payload) i n s)
    (stopped serializable root i call n s) := ⟨rfl, rfl, rfl, rfl, rfl⟩

theorem stopped_phase (serializable : Payload → Bool) (root : Path) (i : ι) (call : Call Payload)
    (n : Nat) (s : Store ι Bytes Payload) : Phase i call.kind s (stopped serializable root i call n s) :=
  (phase_cut serializable root call n).alike stopped_alike

/-- A call that is in its gap has left a file ahead of the state file. -/
theorem added_of_gap (h : Gap serializable root i call n s) : ∃ file,
    Added i s file (stopped serializable root i call n s) ∧
      (stopped serializable root i call n s).state = s.state := by
  obtain ⟨file, hfile, hchanges⟩ := h
  have hlog : (stopped serializable root i call n s).changes = (i, file) :: s.changes := hchanges
  have hlength := congrArg List.length hlog
  rw [List.length_cons] at hlength
  cases stopped_phase serializable root i call n s with
  | before h =>
    rw [h.changes] at hlength
    omega
  | between hkind hadded hstate hchanges => exact ⟨_, hadded, hstate⟩
  | after hkind hadded hrevision hchanges =>
    rw [hchanges, List.length_cons, List.length_cons] at hlength
    omega
  | replaced hkind hartifact hrevision hchanges =>
    rw [hchanges, List.cons.injEq, Prod.mk.injEq] at hlog
    exact absurd hlog.1.2.symm hfile

theorem settled_stopped (hs : Settled s) (hgap : ¬ Gap serializable root i call n s) :
    Settled (stopped serializable root i call n s) := by
  cases stopped_phase serializable root i call n s with
  | before h =>
    refine ⟨rfl, ?_, fun hsome => ?_⟩
    · rw [h.revision]
      exact hs.files.congr_artifact h.artifact
    · rw [h.revision]
      rw [h.state] at hsome
      exact hs.started hsome
  | between hkind hadded hstate hchanges => exact absurd ⟨_, hadded.other, hchanges⟩ hgap
  | after hkind hadded hrevision hchanges =>
    refine ⟨rfl, ?_, fun _ => ?_⟩
    · rw [hrevision]
      exact hadded.files hs
    · omega
  | replaced hkind hartifact hrevision hchanges =>
    refine ⟨rfl, ?_, fun _ => ?_⟩
    · rw [hrevision]
      exact (hs.files.congr_artifact hartifact).mono (Nat.le_succ _)
    · omega

theorem Reached.settled (h : Reached serializable root s) : Settled s := by
  induction h with
  | start h =>
    refine ⟨h.lock, h.inv.settled h.lock, fun hsome => ?_⟩
    rw [h.state] at hsome
    cases hsome
  | edit h handoff ih => exact ⟨ih.lock, ⟨ih.files.bounds, ih.files.distinct⟩, ih.started⟩
  | stopped h i call n hgap ih => exact settled_stopped ih hgap

omit [DecidableEq ι] in
theorem Alike.accepts (h : Alike s t) (haccepts : Accepts serializable s call) :
    Accepts serializable t call := by
  cases call with
  | init project_id persistence privacy => exact h.state.trans haccepts
  | checkpoint expected payload revision =>
    obtain ⟨st, data, hst, hrevision, hdata, hrest⟩ := haccepts
    exact ⟨st, data, h.state.trans hst, hrevision, h.handoff.trans hdata, hrest⟩
  | reconcile_handoff expected observed payload revision =>
    obtain ⟨st, data, hst, hrevision, hdata, hrest⟩ := haccepts
    exact ⟨st, data, h.state.trans hst, hrevision, h.handoff.trans hdata, hrest⟩
  | record_decision decision_id revision payload =>
    obtain ⟨st, hid, hst, hrevision, hnone, hpayload⟩ := haccepts
    exact ⟨st, hid, h.state.trans hst, hrevision, by rw [h.decisions, hnone], hpayload⟩

/-- A checkpoint or decision that is stopped after any step, in a settled project, is
all-or-nothing exactly where it is not stopped in its gap. A project is settled while no call
was stopped in its gap. -/
theorem stopped_all_or_nothing_iff (hkind : call.kind.publishes = true) (i : ι) (n : Nat) :
    (Reached serializable root s → Settled s) ∧
      (Settled s → (AllOrNothing serializable root s (stopped serializable root i call n s) i call ↔
        ¬ Gap serializable root i call n s)) := by
  refine ⟨fun h => h.settled, fun hs => ⟨?_, ?_⟩⟩
  · intro hall hgap
    obtain ⟨file, hadded, hstate⟩ := added_of_gap hgap
    have hrev : (stopped serializable root i call n s).revision = s.revision := by
      rw [Store.revision, hstate, Store.revision]
    obtain ⟨hartifact, -⟩ | ⟨_, -, hrevision⟩ := hall.atomic
    · have hnew := hadded.artifact file
      rw [if_pos rfl, hartifact] at hnew
      have hle := (hs.files.bounds file _ hnew).2
      omega
    · omega
  · intro hgap
    have hsettled := settled_stopped hs hgap
    cases stopped_phase serializable root i call n s with
    | before h =>
      refine ⟨.inl ⟨h.artifact, h.state⟩, hsettled.files.distinct, fun _ haccepts => ?_⟩
      obtain ⟨-, ⟨-, hpassed, -⟩ | ⟨hno, -⟩⟩ :=
        ends_program (i := i) serializable root call hsettled.lock
      · exact hpassed
      · exact absurd (h.accepts haccepts) hno
    | between hkind hadded hstate hchanges => exact absurd ⟨_, hadded.other, hchanges⟩ hgap
    | @after file _ hadded hrevision hchanges =>
      refine ⟨.inr ⟨file, ?_, hrevision⟩, hsettled.files.distinct, fun hstate => ?_⟩
      · rw [hadded.artifact, if_pos rfl, hrevision]
      · rw [Store.revision, hstate, ← Store.revision] at hrevision
        omega
    | replaced hkind' hartifact hrevision hchanges =>
      rw [hkind] at hkind'
      cases hkind'

end Stopping

section Samples

attribute [local instance] asciiText sampleDigest

/-- The new project after its first call. -/
def initialized : Store Bool String Unit :=
  stopped (fun _ => true) "/srv/app" false (.init "app" "git" "standard") 9 newStore

/-- A decision of that project. -/
abbrev firstDecision : Call Unit := .record_decision "d1" 1 ()

/-- Its call after `n` steps. -/
def deciding (n : Nat) : Store Bool String Unit :=
  stopped (fun _ => true) "/srv/app" true firstDecision n initialized

theorem initialized_reached : Reached (fun _ => true) "/srv/app" initialized := by
  refine .stopped (.start ⟨rfl, rfl, fun _ => rfl, fun _ => rfl, rfl, rfl⟩) false
    (.init "app" "git" "standard") 9 fun hgap => ?_
  obtain ⟨file, hadded, -⟩ := added_of_gap hgap
  cases hadded.started

/-- A decision that is stopped before its file is written can be repeated, and one that is
stopped after its state file is replaced has done all of its work. -/
theorem decision_complete :
    AllOrNothing (fun _ => true) "/srv/app" initialized (deciding 5) true firstDecision ∧
      AllOrNothing (fun _ => true) "/srv/app" initialized (deciding 8) true firstDecision := by
  have hnever : ∀ n, (deciding n).changes.length ≠ initialized.changes.length + 1 →
      AllOrNothing (fun _ => true) "/srv/app" initialized (deciding n) true firstDecision := by
    intro n hlength
    have hkind : firstDecision.kind.publishes = true := rfl
    apply ((stopped_all_or_nothing_iff hkind true n).2 initialized_reached.settled).mpr
    rintro ⟨file, -, hchanges⟩
    exact hlength ((congrArg List.length hchanges).trans List.length_cons)
  exact ⟨hnever 5 (by decide +kernel), hnever 8 (by decide +kernel)⟩

/-- A decision that is stopped before that has left its file, and can never be recorded. -/
theorem decision_cut_off :
    ¬ AllOrNothing (fun _ => true) "/srv/app" initialized (deciding 7) true firstDecision ∧
      (alone true (firstDecision.program (fun _ => true) "/srv/app") (deciding 7)).1 =
        .error (.ContinuityError "decision already exists: d1") := by
  refine ⟨fun hall => ?_, by decide +kernel⟩
  have hnew : (deciding 7).artifact (.decision "d1") = some 2 := by decide +kernel
  have hold : initialized.artifact (.decision "d1") = none := by decide +kernel
  have hrevision : (deciding 7).revision = initialized.revision := by decide +kernel
  obtain ⟨hartifact, -⟩ | ⟨_, -, hadvanced⟩ := hall.atomic
  · rw [hartifact, hold] at hnew
    cases hnew
  · omega

end Samples

end jvc.continuity
