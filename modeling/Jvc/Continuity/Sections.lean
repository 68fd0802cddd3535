import Jvc.Continuity.Calls

open program Prog

namespace jvc.continuity

variable {ι Bytes Payload : Type} [DecidableEq ι] [Digest Bytes] {i : ι}
variable {state : Option ContinuityState} {decisions : String → Option (Decision Payload)}
variable {seen : Option Bytes} {s : Store ι Bytes Payload}

theorem guarded_raiseIf {c : Prop} [Decidable c] {err : Err}
    {Q : Except Err Unit → Store ι Bytes Payload → Prop} (herr : c → Q (.error err) s)
    (hok : ¬ c → Q (.ok ()) s) : guarded i (raiseIf c err) Q s := by
  unfold raiseIf
  by_cases hc : c
  · rw [if_pos hc]
    exact herr hc
  · rw [if_neg hc]
    exact hok hc

theorem guarded_utc_now {P : Store ι Bytes Payload → Prop}
    {Q : Except Err String → Store ι Bytes Payload → Prop}
    (hP : ∀ t t', P t → Rely i t t' → P t') (htick : ∀ t, P t → P { t with ticks := t.ticks + 1 })
    (h : P s) (hQ : ∀ t answer, P t → Q (.ok answer) t) : guarded i utc_now Q s :=
  guarded_tick (fun _ => rfl) hP htick h hQ

theorem guarded_secrets_token {P : Store ι Bytes Payload → Prop}
    {Q : Except Err String → Store ι Bytes Payload → Prop}
    (hP : ∀ t t', P t → Rely i t t' → P t') (htick : ∀ t, P t → P { t with ticks := t.ticks + 1 })
    (h : P s) (hQ : ∀ t answer, P t → Q (.ok answer) t) : guarded i secrets_token Q s :=
  guarded_tick (fun _ => rfl) hP htick h hQ

/-- What a critical section leaves behind, on every way out. -/
def Over (i : ι) (call : Call Payload) (r : Except Err Passed) (s : Store ι Bytes Payload) : Prop :=
  Finished i s ∧ Concluded i call r s

omit [DecidableEq ι] in
/-- Whoever raises before writing has changed nothing. -/
theorem Holding.over (h : Holding i state decisions seen s) (call : Call Payload) (err : Err) :
    Over i call (.error err) s :=
  ⟨⟨h.lock, h.settled⟩, h.fresh, h.unchanged⟩

theorem guarded_load_state {Q : Except Err ContinuityState → Store ι Bytes Payload → Prop}
    (h : Holding i state decisions seen s)
    (herr : ∀ t err, Holding i state decisions seen t → Q (.error err) t)
    (hok : ∀ t st, state = some st → Holding i state decisions seen t → Q (.ok st) t) :
    guarded i load_state Q s := by
  unfold load_state
  refine wp_seq.mpr (guarded_is_initialized h fun t ht => ?_)
  refine wp_seq.mpr (guarded_raiseIf (fun _ => herr t _ ht) fun _ => ?_)
  refine wp_seq.mpr (guarded_read_state ht fun u hu => ?_)
  cases hstate : state with
  | none => exact herr u _ (hstate ▸ hu)
  | some st => exact hok u st hstate hu

theorem guarded_check_revision {conflict : String} {expected : Option Nat} {observed : Nat}
    {Q : Except Err Unit → Store ι Bytes Payload → Prop} (herr : ∀ err, Q (.error err) s)
    (hok : (∀ r, expected = some r → observed = r) → Q (.ok ()) s) :
    guarded i (check_revision conflict expected observed) Q s := by
  cases expected with
  | none => exact hok (by simp)
  | some r =>
    refine guarded_raiseIf (fun _ => herr _) fun heq => hok fun r' hr' => ?_
    cases hr'
    exact not_not.mp heq

theorem guarded_sha256_handoff {Q : Except Err String → Store ι Bytes Payload → Prop}
    (h : Holding i state decisions seen s)
    (herr : ∀ t err, (∃ seen', Holding i state decisions seen' t) → Q (.error err) t)
    (hok : ∀ t data, Holding i state decisions (some data) t → Q (.ok (sha256_bytes data)) t) :
    guarded i sha256_handoff Q s := by
  unfold sha256_handoff
  refine wp_seq.mpr (guarded_read_handoff h fun t handoff ht => ?_)
  cases handoff with
  | none => exact herr t _ ⟨_, ht⟩
  | some data => exact hok t data ht

variable (serializable : Payload → Bool)

theorem guarded_dumps {payload : Payload} {Q : Except Err Unit → Store ι Bytes Payload → Prop}
    (herr : ∀ err, Q (.error err) s) (hok : Q (.ok ()) s) :
    guarded i (dumps serializable payload) Q s :=
  guarded_raiseIf (fun _ => herr _) fun _ => hok

theorem guarded_write_checkpoint {st : ContinuityState} {checkpoint_id : String}
    {data : Checkpoint Payload} {Q : Except Err Unit → Store ι Bytes Payload → Prop}
    (h : Holding i (some st) decisions seen s)
    (hdata : data.metadata_revision = st.metadata_revision + 1)
    (hQ : ∀ t, Ready i (some st) seen t → Q (.ok ()) t) :
    guarded i (write_checkpoint checkpoint_id data) Q s := by
  intro t ht
  have hfile : FileName.checkpoint checkpoint_id ≠ .state := by simp
  have hpublish : Guarantee i t (step i (.write_checkpoint checkpoint_id data) t).2 ∧
      Ready i (some st) seen (step i (.write_checkpoint checkpoint_id data) t).2 :=
    (h.rely ht).publish hfile (fun f => by
      cases f with
      | state => rfl
      | decision name => rfl
      | checkpoint name =>
        by_cases hn : name = checkpoint_id
        · subst hn
          simp [step, Store.artifact, hdata]
        · simp [step, Store.artifact, hn])
    rfl rfl rfl rfl rfl (fun _ _ => id)
  exact ⟨Or.inr hpublish.1, hQ _ hpublish.2⟩

theorem guarded_write_decision {st : ContinuityState} {decision_id : String}
    {data : Decision Payload} {Q : Except Err Unit → Store ι Bytes Payload → Prop}
    (h : Holding i (some st) decisions seen s) (hnew : decisions decision_id = none)
    (hdata : data.metadata_revision = st.metadata_revision + 1)
    (hQ : ∀ t, Ready i (some st) seen t → Q (.ok ()) t) :
    guarded i (write_decision decision_id data) Q s := by
  intro t ht
  have hhold := h.rely ht
  have hfile : FileName.decision decision_id ≠ .state := by simp
  have hpublish : Guarantee i t (step i (.write_decision decision_id data) t).2 ∧
      Ready i (some st) seen (step i (.write_decision decision_id data) t).2 :=
    hhold.publish hfile (fun f => by
      cases f with
      | state => rfl
      | checkpoint name => rfl
      | decision name =>
        by_cases hn : name = decision_id
        · subst hn
          simp [step, Store.artifact, hdata]
        · simp [step, Store.artifact, hn])
    rfl rfl rfl rfl rfl (fun name d hd => by
      have hne : name ≠ decision_id := by
        rintro rfl
        rw [hhold.decisions, hnew] at hd
        cases hd
      exact (Function.update_of_ne hne _ _).trans hd)
  exact ⟨Or.inr hpublish.1, hQ _ hpublish.2⟩

theorem guarded_init {root : Path} {project_id persistence privacy : String}
    (h : Holding i state decisions seen s) :
    guarded i (init_locked root project_id persistence privacy)
      (Over i (.init project_id persistence privacy)) s := by
  unfold init_locked
  refine wp_seq.mpr (guarded_is_initialized h fun t ht => ?_)
  refine wp_seq.mpr (guarded_raiseIf (fun _ => ht.over _ _) fun hnone => ?_)
  have hstate : state = none := by simpa using hnone
  subst hstate
  refine wp_seq.mpr (guarded_handoff_is_file ht fun u present hu => ?_)
  have hrest : ∀ v handoff_sha (data : Option Bytes), Holding i none decisions data v →
      handoff_sha = data.map sha256_bytes →
      guarded i (do
        let created_at ← utc_now
        let updated_at ← utc_now
        write_state .init
          { schema_version := SCHEMA_VERSION
            project_id
            metadata_revision := 1
            persistence
            privacy
            active_workstream := none
            handoff_sha256 := handoff_sha
            created_at
            updated_at }
        return .init project_id 1) (Over i (.init project_id persistence privacy)) v := by
    intro v handoff_sha data hv hsha
    refine wp_seq.mpr (guarded_utc_now (fun _ _ => Holding.rely) (fun _ => Holding.tick) hv
      fun w _ hw => ?_)
    refine wp_seq.mpr (guarded_utc_now (fun _ _ => Holding.rely) (fun _ => Holding.tick) hw
      fun x _ hx => ?_)
    refine wp_seq.mpr (guarded_write_state hx.ready rfl (by simp) (by simpa using hsha)
      fun y hy hentry => ⟨hy, ?_⟩)
    obtain ⟨m, hm, hby, hkind, hrev⟩ := hentry
    exact ⟨m, hm, hby, hkind, hrev, fun r hr => by cases hr⟩
  cases present with
  | false => exact wp_seq.mpr (hrest u none none hu rfl)
  | true =>
    refine wp_seq.mpr (wp_map.mpr (guarded_sha256_handoff hu ?_ fun v data hv => ?_))
    · rintro v err ⟨seen', hv⟩
      exact hv.over _ _
    · exact hrest v _ (some data) hv rfl

variable [Text]

theorem guarded_checkpoint {expected_handoff_sha256 : String} {payload : Payload}
    {expected_metadata_revision : Option Nat} (h : Holding i state decisions seen s) :
    guarded i
      (checkpoint_locked serializable expected_handoff_sha256 payload expected_metadata_revision)
      (Over i (.checkpoint expected_handoff_sha256 payload expected_metadata_revision)) s := by
  unfold checkpoint_locked
  refine wp_seq.mpr (guarded_load_state h (fun t err ht => ht.over _ _) fun t st hst ht => ?_)
  subst hst
  refine wp_seq.mpr (guarded_check_revision (fun _ => ht.over _ _) fun hnamed => ?_)
  refine wp_seq.mpr (guarded_handoff_is_file ht fun u present hu => ?_)
  refine wp_seq.mpr (guarded_raiseIf (fun _ => hu.over _ _) fun _ => ?_)
  refine wp_seq.mpr (guarded_sha256_handoff hu ?_ fun v data hv => ?_)
  · rintro v err ⟨seen', hv⟩
    exact hv.over _ _
  refine wp_seq.mpr (guarded_raiseIf (fun _ => hv.over _ _) fun _ => ?_)
  refine wp_seq.mpr (guarded_utc_now (fun _ _ => Holding.rely) (fun _ => Holding.tick) hv
    fun w _ hw => ?_)
  refine wp_seq.mpr (guarded_secrets_token (fun _ _ => Holding.rely) (fun _ => Holding.tick) hw
    fun x _ hx => ?_)
  refine wp_seq.mpr (guarded_utc_now (fun _ _ => Holding.rely) (fun _ => Holding.tick) hx
    fun y _ hy => ?_)
  refine wp_seq.mpr (guarded_dumps serializable (fun _ => hy.over _ _) ?_)
  refine wp_seq.mpr (guarded_write_checkpoint hy rfl fun z hz => ?_)
  refine wp_seq.mpr (guarded_utc_now (fun _ _ => Ready.rely) (fun _ => Ready.tick) hz
    fun a _ ha => ?_)
  refine wp_seq.mpr (guarded_write_state ha rfl (by simp) (by simp) fun b hb hentry => ⟨hb, ?_⟩)
  obtain ⟨m, hm, hby, hkind, hrev⟩ := hentry
  refine ⟨m, hm, hby, hkind, hrev, fun r hr => ?_⟩
  exact congrArg (· + 1) (hnamed r hr)

theorem guarded_reconcile {expected_handoff_sha256 observed_handoff_sha256 : String}
    {payload : Payload} {expected_metadata_revision : Option Nat}
    (h : Holding i state decisions seen s) :
    guarded i
      (reconcile_locked expected_handoff_sha256 observed_handoff_sha256 expected_metadata_revision)
      (Over i (.reconcile_handoff expected_handoff_sha256 observed_handoff_sha256 payload
        expected_metadata_revision)) s := by
  unfold reconcile_locked
  refine wp_seq.mpr (guarded_load_state h (fun t err ht => ht.over _ _) fun t st hst ht => ?_)
  subst hst
  refine wp_seq.mpr (guarded_check_revision (fun _ => ht.over _ _) fun hnamed => ?_)
  refine wp_seq.mpr (guarded_handoff_is_file ht fun u present hu => ?_)
  refine wp_seq.mpr (guarded_raiseIf (fun _ => hu.over _ _) fun _ => ?_)
  refine wp_seq.mpr (guarded_sha256_handoff hu ?_ fun v data hv => ?_)
  · rintro v err ⟨seen', hv⟩
    exact hv.over _ _
  refine wp_seq.mpr (guarded_raiseIf (fun _ => hv.over _ _) fun _ => ?_)
  have hrest : guarded i (do
      let updated_at ← utc_now
      write_state .reconcile
        { st with
          metadata_revision := st.metadata_revision + 1
          handoff_sha256 := some (sha256_bytes data)
          updated_at }
      return .reconciled (st.metadata_revision + 1) (sha256_bytes data))
      (Over i (.reconcile_handoff expected_handoff_sha256 observed_handoff_sha256 payload
        expected_metadata_revision)) v := by
    refine wp_seq.mpr (guarded_utc_now (fun _ _ => Holding.rely) (fun _ => Holding.tick) hv
      fun w _ hw => ?_)
    refine wp_seq.mpr (guarded_write_state hw.ready rfl (by simp) (by simp)
      fun x hx hentry => ⟨hx, ?_⟩)
    obtain ⟨m, hm, hby, hkind, hrev⟩ := hentry
    refine ⟨m, hm, hby, hkind, hrev, fun r hr => ?_⟩
    exact congrArg (· + 1) (hnamed r hr)
  cases hrecorded : st.handoff_sha256 with
  | none => exact wp_seq.mpr hrest
  | some recorded =>
    exact wp_seq.mpr (guarded_raiseIf (fun _ => hv.over _ _) fun _ => hrest)

theorem guarded_record_decision {decision_id : String} {expected_metadata_revision : Nat}
    {payload : Payload} (h : Holding i state decisions seen s) :
    guarded i (record_decision_locked serializable decision_id expected_metadata_revision payload)
      (Over i (.record_decision decision_id expected_metadata_revision payload)) s := by
  unfold record_decision_locked
  refine wp_seq.mpr (guarded_raiseIf (fun _ => h.over _ _) fun _ => ?_)
  refine wp_seq.mpr (guarded_load_state h (fun t err ht => ht.over _ _) fun t st hst ht => ?_)
  subst hst
  refine wp_seq.mpr (guarded_check_revision (fun _ => ht.over _ _) fun hnamed => ?_)
  refine wp_seq.mpr (guarded_decision_exists ht fun u hu => ?_)
  refine wp_seq.mpr (guarded_raiseIf (fun _ => hu.over _ _) fun habsent => ?_)
  have hnew : decisions decision_id = none := by simpa using habsent
  refine wp_seq.mpr (guarded_utc_now (fun _ _ => Holding.rely) (fun _ => Holding.tick) hu
    fun v _ hv => ?_)
  refine wp_seq.mpr (guarded_dumps serializable (fun _ => hv.over _ _) ?_)
  refine wp_seq.mpr (guarded_write_decision hv hnew rfl fun w hw => ?_)
  refine wp_seq.mpr (guarded_utc_now (fun _ _ => Ready.rely) (fun _ => Ready.tick) hw
    fun x _ hx => ?_)
  refine wp_seq.mpr (guarded_write_state hx rfl (by simp) (by simp) fun y hy hentry => ⟨hy, ?_⟩)
  obtain ⟨m, hm, hby, hkind, hrev⟩ := hentry
  refine ⟨m, hm, hby, hkind, hrev, fun r hr => ?_⟩
  exact congrArg (· + 1) (hnamed r hr)

/-- The critical section of every call. -/
theorem guarded_locked (root : Path) (call : Call Payload) (h : Holding i state decisions seen s) :
    guarded i (call.locked serializable root) (Over i call) s := by
  cases call with
  | init project_id persistence privacy => exact guarded_init h
  | checkpoint expected payload revision => exact guarded_checkpoint serializable h
  | reconcile_handoff expected observed payload revision => exact guarded_reconcile h
  | record_decision decision_id revision payload => exact guarded_record_decision serializable h

end jvc.continuity
