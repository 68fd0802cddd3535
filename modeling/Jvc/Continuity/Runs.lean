import Jvc.Continuity.Sections

open program Prog

namespace jvc.continuity

variable {ι Bytes Payload : Type} [DecidableEq ι] [Text] [Digest Bytes] {i : ι}
variable {s s' : Store ι Bytes Payload} {call : Call Payload}

omit [DecidableEq ι] [Text] in
theorem Concluded.rely {r : Except Err Passed} (h : Concluded i call r s) (hR : Rely i s s') :
    Concluded i call r s' := by
  cases r with
  | ok passed =>
    obtain ⟨m, hm, hrest⟩ := h
    exact ⟨m, hR.1.history hm, hrest⟩
  | error err =>
    obtain ⟨hfresh, hunchanged⟩ := h
    exact ⟨fun m hm hby => hfresh m (hR.2.mine m hm hby) hby,
      fun file hf => hunchanged file (hR.2.changed file hf)⟩

omit [DecidableEq ι] [Text] in
theorem Finished.rely (h : Finished i s) (hR : Rely i s s') : Finished i s' := by
  obtain ⟨hl, hst, hc, hd, -, -⟩ := hR.2.held h.lock
  have hrev : s'.revision = s.revision := by rw [Store.revision, hst, Store.revision]
  exact ⟨hl.trans h.lock, hrev ▸ h.settled.congr hc hd⟩

omit [DecidableEq ι] [Text] in
/-- Nothing is ahead of the state file while nobody is in a critical section. -/
theorem Inv.settled (h : Inv s) (hlock : s.lock = none) : Files s s.revision := by
  refine ⟨fun file r hr => ?_, h.files.distinct⟩
  obtain ⟨htwo, hle⟩ := h.files.bounds file r hr
  refine ⟨htwo, ?_⟩
  by_contra hlt
  obtain rfl : r = s.revision + 1 := by omega
  obtain ⟨j, hj, -⟩ := h.ahead file hr
  rw [hlock] at hj
  cases hj

omit [Text] in
theorem guarded_release {Q : Except Err Unit → Store ι Bytes Payload → Prop} {r : Except Err Passed}
    (h : Over i call r s) (hQ : ∀ t, Concluded i call r t → Q (.ok ()) t) :
    guarded i release Q s := by
  intro t ht
  have hover : Over i call r t := ⟨h.1.rely ht, h.2.rely ht⟩
  have hG : Guarantee i t { t with lock := none } := by
    refine ⟨⟨fun hinv => ⟨⟨hinv.ledger.revisions, hinv.ledger.authors, hinv.ledger.first,
      hinv.ledger.started, hinv.ledger.observed⟩, ⟨hinv.files.bounds, hinv.files.distinct⟩,
      fun file hf => ?_⟩, List.Subset.refl _, fun _ _ => id⟩, fun j hj => ?_⟩
    · have hle := (hover.1.settled.bounds file _ hf).2
      exact absurd hle (Nat.not_succ_le_self t.revision)
    · refine ⟨fun hl => ?_, fun _ hm _ => hm, fun _ => id, rfl⟩
      rw [hover.1.lock, Option.some.injEq] at hl
      exact absurd hl.symm hj
  refine ⟨Or.inr hG, hQ _ ?_⟩
  cases r with
  | ok passed => exact hover.2
  | error err => exact hover.2

variable (serializable : Payload → Bool) (root : Path)

/-- A call among any others: it succeeds with one entry of the history, or
leaves every file alone. -/
theorem guarded_program (hinv : Inv s) (hfresh : ∀ m ∈ s.history, m.by_process ≠ i)
    (hunchanged : ∀ file, (i, file) ∉ s.changes) :
    guarded i (call.program serializable root) (Concluded i call) s := by
  unfold Call.program with_revision_lock
  refine wp_seq.mpr ?_
  intro t ht
  have hinv' := ht.1.inv hinv
  have hfresh' : ∀ m ∈ t.history, m.by_process ≠ i :=
    fun m hm hby => hfresh m (ht.2.mine m hm hby) hby
  have hunchanged' : ∀ file, (i, file) ∉ t.changes :=
    fun file hf => hunchanged file (ht.2.changed file hf)
  by_cases hlock : t.lock = none
  · have hstep : (machine ι Bytes Payload).step i .acquire t = (true, { t with lock := some i }) :=
      if_pos hlock
    have hG : Guarantee i t { t with lock := some i } := by
      refine ⟨⟨fun h => ⟨⟨h.ledger.revisions, h.ledger.authors, h.ledger.first, h.ledger.started,
        h.ledger.observed⟩, ⟨h.files.bounds, h.files.distinct⟩, fun file hf => ?_⟩,
        List.Subset.refl _, fun _ _ => id⟩, fun j hj => ?_⟩
      · obtain ⟨j, hj, -⟩ := h.ahead file hf
        rw [hlock] at hj
        cases hj
      · refine ⟨fun hl => ?_, fun _ hm _ => hm, fun _ => id, rfl⟩
        rw [hlock] at hl
        cases hl
    rw [hstep]
    have hsettled := hinv'.settled hlock
    have hhold : Holding i t.state t.decisions (t.seen i) { t with lock := some i } :=
      ⟨rfl, hG.1.inv hinv', ⟨hsettled.bounds, hsettled.distinct⟩, rfl, rfl, rfl, hfresh',
        hunchanged'⟩
    refine ⟨Or.inr hG, ?_⟩
    change guarded i ((call.locked serializable root).ensuring release) (Concluded i call) _
    refine wp_ensuring.mpr (wp_post (guarded_locked serializable root call hhold) fun r u hu => ?_)
    exact guarded_release hu fun v hv => hv
  · have hstep : (machine ι Bytes Payload).step i .acquire t = (false, t) := if_neg hlock
    rw [hstep]
    exact ⟨Or.inl rfl, hfresh', hunchanged'⟩

/-- A project whose continuity directory does not exist yet. -/
structure Fresh (s : Store ι Bytes Payload) : Prop where
  lock : s.lock = none
  state : s.state = none
  checkpoints : ∀ name, s.checkpoints name = none
  decisions : ∀ name, s.decisions name = none
  changes : s.changes = []
  history : s.history = []

omit [DecidableEq ι] [Text] in
theorem Fresh.inv (h : Fresh s) : Inv s := by
  have hrev : s.revision = 0 := by rw [Store.revision, h.state]; rfl
  have hart : ∀ file r, s.artifact file ≠ some r := by
    intro file r
    cases file with
    | state => simp [Store.artifact]
    | checkpoint name => simp [Store.artifact, h.checkpoints]
    | decision name => simp [Store.artifact, h.decisions]
  refine ⟨⟨?_, ?_, ?_, ?_, ?_⟩, ⟨fun file r hr => absurd hr (hart file r),
    fun file _ r hr => absurd hr (hart file r)⟩, fun file hr => absurd hr (hart file _)⟩
  · rw [h.history, hrev]
    rfl
  · rw [h.history]
    exact List.nodup_nil
  · simp [h.history]
  · simp [h.state]
  · simp [h.state]

/-- Every process makes one call. -/
def crowd (calls : ι → Call Payload) (s : Store ι Bytes Payload) :
    Crowd ι (Op Payload) (Op.Res Bytes) Err Passed (Store ι Bytes Payload) :=
  ⟨fun i => (calls i).program serializable root, s⟩

omit [DecidableEq ι] [Text] in
theorem compatible (calls : ι → Call Payload) :
    Crowd.Compatible (@Edit ι Bytes Payload) Rely Guarantee fun i => Concluded i (calls i) where
  refl := Rely.refl
  trans _ _ _ _ := Rely.trans
  stable _ _ _ _ := Concluded.rely
  others _ _ hne _ _ hG := ⟨hG.1, hG.2 _ hne.symm⟩
  env _ _ _ := Edit.rely

/-- What holds of every interleaving of calls and edits of the handoff. -/
structure Linearizable (calls : ι → Call Payload)
    (c : Crowd ι (Op Payload) (Op.Res Bytes) Err Passed (Store ι Bytes Payload)) : Prop where
  one_init : ∀ i j p q, c.prog i = .ret p → c.prog j = .ret q →
    (calls i).kind = .init → (calls j).kind = .init → i = j
  /-- The replacements of the state file carry the revisions 1, 2, … in order, each
  from another process. -/
  advances : c.state.history.map Mutation.revision = countdown c.state.revision ∧
    (c.state.history.map Mutation.by_process).Nodup
  /-- A successful call is one of them, one up from the revision it names. -/
  succeeded : ∀ i p, c.prog i = .ret p → ∃ m ∈ c.state.history, m.by_process = i ∧
    m.kind = (calls i).kind ∧ m.revision = p.revision ∧
    ∀ r, (calls i).expected_revision = some r → p.revision = r + 1
  one_winner : ∀ i j p q r, c.prog i = .ret p → c.prog j = .ret q →
    (calls i).expected_revision = some r → (calls j).expected_revision = some r → i = j
  distinct : ∀ file file' r, c.state.artifact file = some r → c.state.artifact file' = some r →
    file = file'
  bounds : ∀ file r, c.state.artifact file = some r → 2 ≤ r ∧
    (r ≤ c.state.revision ∨
      r = c.state.revision + 1 ∧ ∃ i, c.state.lock = some i ∧ (i, file) ∈ c.state.changes)
  permanent : ∀ d, Crowd.Run (machine ι Bytes Payload) Edit c d → ∀ name decision,
    c.state.decisions name = some decision → d.state.decisions name = some decision
  observed : ∀ st, c.state.state = some st → st.handoff_sha256 = c.state.observed
  refused : ∀ i err, c.prog i = .fail err → ∀ file, (i, file) ∉ c.state.changes

omit [DecidableEq ι] [Text] in
/-- Two entries of the history with one revision are one entry. -/
theorem Ledger.unique (h : Ledger s) {m m' : Mutation ι Bytes} (hm : m ∈ s.history)
    (hm' : m' ∈ s.history) (hrev : m.revision = m'.revision) : m = m' := by
  have hnodup : (s.history.map Mutation.revision).Nodup := by
    rw [h.revisions]
    exact countdown_nodup _
  exact List.inj_on_of_nodup_map hnodup hm hm' hrev

/-- The calls of any number of processes on one project take effect one after
the other, with edits of the handoff anywhere in between. -/
theorem linearizable (calls : ι → Call Payload) (hs : Fresh s)
    {c : Crowd ι (Op Payload) (Op.Res Bytes) Err Passed (Store ι Bytes Payload)}
    (hrun : Crowd.Run (machine ι Bytes Payload) Edit (crowd serializable root calls s) c) :
    Linearizable calls c := by
  have hcompat : Crowd.Compatible (@Edit ι Bytes Payload) Rely Guarantee
      fun i => Concluded i (calls i) := compatible calls
  have hstart : Crowd.Verified (machine ι Bytes Payload) Rely Guarantee
      (fun i => Concluded i (calls i)) (crowd serializable root calls s) := fun i =>
    guarded_program serializable root hs.inv (by simp [crowd, hs.history])
      (by simp [crowd, hs.changes])
  have hverified := hstart.run hcompat hrun
  have hinv : Inv c.state := Crowd.Run.invariant hcompat (fun _ _ _ h hG => hG.1.inv h)
    (fun _ _ h hE => hE.common.inv h) hstart hs.inv hrun
  have hdone : ∀ i p, c.prog i = .ret p → ∃ m ∈ c.state.history, m.by_process = i ∧
      m.kind = (calls i).kind ∧ m.revision = p.revision ∧
      ∀ r, (calls i).expected_revision = some r → p.revision = r + 1 :=
    fun i p hp => hverified.returned hp
  refine {
    one_init := ?_
    advances := ⟨hinv.ledger.revisions, hinv.ledger.authors⟩
    succeeded := hdone
    one_winner := ?_
    distinct := hinv.files.distinct
    bounds := ?_
    permanent := ?_
    observed := hinv.ledger.observed
    refused := fun i err hfail => (hverified.failed hfail).2 }
  · intro i j p q hp hq hi hj
    obtain ⟨m, hm, rfl, hkind, -⟩ := hdone i p hp
    obtain ⟨m', hm', rfl, hkind', -⟩ := hdone j q hq
    have hone := (hinv.ledger.first m hm).mp (hkind.trans hi)
    have hone' := (hinv.ledger.first m' hm').mp (hkind'.trans hj)
    rw [hinv.ledger.unique hm hm' (hone.trans hone'.symm)]
  · intro i j p q r hp hq hi hj
    obtain ⟨m, hm, rfl, -, hrev, hnamed⟩ := hdone i p hp
    obtain ⟨m', hm', rfl, -, hrev', hnamed'⟩ := hdone j q hq
    have heq : m.revision = m'.revision := by
      rw [hrev, hrev', hnamed r hi, hnamed' r hj]
    rw [hinv.ledger.unique hm hm' heq]
  · intro file r hr
    obtain ⟨htwo, hle⟩ := hinv.files.bounds file r hr
    refine ⟨htwo, ?_⟩
    rcases Nat.lt_or_ge c.state.revision r with hlt | hge
    · obtain rfl : r = c.state.revision + 1 := by omega
      exact Or.inr ⟨rfl, hinv.ahead file hr⟩
    · exact Or.inl hge
  · intro d hd name decision hdec
    exact Crowd.Run.invariant hcompat (I := fun t => t.decisions name = some decision)
      (fun _ _ _ h hG => hG.1.decisions name decision h)
      (fun _ _ h hE => hE.common.decisions name decision h) hverified hdec hd

section Samples

omit [DecidableEq ι] [Text] [Digest Bytes]

/-- The digests of the two contents of the samples. -/
@[reducible] def sampleDigest : Digest String where
  sha256_bytes content :=
    if content = "" then "E3B0C44298FC1C149AFBF4C8996FB92427AE41E4649B934CA495991B7852B855"
    else "CA978112CA1BBDCAFAC231B39A23DC4DA786EFF8147C4E72B9807785AFEE48BB"
  sha256_ne_empty content := by split <;> decide

/-- A new project with an empty handoff. -/
def newStore : Store Bool String Unit where
  lock := none
  state := none
  handoff := some ""
  checkpoints _ := none
  decisions _ := none
  times _ := "2026-01-01T00:00:00Z"
  tokens _ := "4f9a2b1c"
  ticks := 0
  seen _ := none
  changes := []
  history := []

/-- One process initializes, the other writes a checkpoint. -/
def initAndCheckpoint : Bool → Call Unit
  | false => .init "app" "git" "standard"
  | true =>
    .checkpoint "E3B0C44298FC1C149AFBF4C8996FB92427AE41E4649B934CA495991B7852B855" () (some 1)

abbrev SampleCrowd : Type :=
  Crowd Bool (Op Unit) (Op.Res String) Err Passed (Store Bool String Unit)

/-- The first process has finished, the second one has made `n` steps. -/
def checkpointing (n : Nat) : SampleCrowd :=
  let start := @crowd Bool String Unit asciiText sampleDigest (fun _ => true) "/srv/app"
    initAndCheckpoint newStore
  let first := (start.prog false).after (machine Bool String Unit) false 9 start.state
  let second := (start.prog true).after (machine Bool String Unit) true n first.2
  ⟨Function.update (Function.update start.prog false first.1) true second.1, second.2⟩

theorem checkpointing_run (n : Nat) :
    Crowd.Run (machine Bool String Unit) Edit
      (@crowd Bool String Unit asciiText sampleDigest (fun _ => true) "/srv/app"
        initAndCheckpoint newStore) (checkpointing n) :=
  (Crowd.run_after _ false 9).trans (Crowd.run_after _ true n)

theorem linearizable_checkpointing :
    @Linearizable Bool String Unit _ sampleDigest initAndCheckpoint (checkpointing 9) :=
  @linearizable Bool String Unit _ asciiText sampleDigest newStore (fun _ => true) "/srv/app"
    initAndCheckpoint ⟨rfl, rfl, fun _ => rfl, fun _ => rfl, rfl, rfl⟩ _ (checkpointing_run 9)

/-- Between its two replacements a call has written a checkpoint of revision 2
while the state file still says 1. -/
theorem checkpoint_ahead_of_state :
    ∃ c : SampleCrowd, Crowd.Run (machine Bool String Unit) Edit
      (@crowd Bool String Unit asciiText sampleDigest (fun _ => true) "/srv/app"
        initAndCheckpoint newStore) c ∧
      ¬ ∀ file r, c.state.artifact file = some r → 2 ≤ r ∧ r ≤ c.state.revision := by
  refine ⟨checkpointing 9, checkpointing_run 9, fun h => ?_⟩
  have hahead : (checkpointing 9).state.artifact
      (.checkpoint "checkpoint-000002-2026-01-01T000000Z-4f9a2b1c") = some 2 := by
    decide +kernel
  have hrevision : (checkpointing 9).state.revision = 1 := by decide +kernel
  have hle := (h _ 2 hahead).2
  omega

end Samples

end jvc.continuity
