import Jvc.Lib.Interleaving
import Jvc.Continuity.Ledger

open program

namespace jvc.continuity

variable {ι Bytes Payload : Type} [DecidableEq ι] [Digest Bytes] {i : ι}

/-- A program of process `i` among the calls of others and edits of the handoff. -/
abbrev guarded {α : Type} (i : ι) (p : Continuity Bytes Payload α)
    (Q : Except Err α → Store ι Bytes Payload → Prop) (s : Store ι Bytes Payload) : Prop :=
  Prog.wp (machine ι Bytes Payload) i (Rely i) (Guarantee i) p Q s

/-- Process `i` is in its critical section and has written nothing yet: no file
is ahead of the state file. The parameters are what it knows. -/
structure Holding (i : ι) (state : Option ContinuityState)
    (decisions : String → Option (Decision Payload)) (seen : Option Bytes)
    (s : Store ι Bytes Payload) : Prop where
  lock : s.lock = some i
  inv : Inv s
  settled : Files s s.revision
  state : s.state = state
  decisions : s.decisions = decisions
  seen : s.seen i = seen
  fresh : ∀ m ∈ s.history, m.by_process ≠ i
  unchanged : ∀ file, (i, file) ∉ s.changes

/-- Process `i` is in its critical section and about to replace the state file. -/
structure Ready (i : ι) (state : Option ContinuityState) (seen : Option Bytes)
    (s : Store ι Bytes Payload) : Prop where
  lock : s.lock = some i
  inv : Inv s
  state : s.state = state
  seen : s.seen i = seen
  fresh : ∀ m ∈ s.history, m.by_process ≠ i

variable {state : Option ContinuityState} {decisions : String → Option (Decision Payload)}
variable {seen : Option Bytes} {s s' : Store ι Bytes Payload}

omit [DecidableEq ι] [Digest Bytes] in
theorem Files.congr {top : Nat} (h : Files s top) (hc : s'.checkpoints = s.checkpoints)
    (hd : s'.decisions = s.decisions) : Files s' top := by
  have hart : s'.artifact = s.artifact := by
    funext file
    cases file <;> simp only [Store.artifact, hc, hd]
  exact ⟨hart ▸ h.bounds, hart ▸ h.distinct⟩

omit [DecidableEq ι] in
theorem Holding.rely (h : Holding i state decisions seen s) (hR : Rely i s s') :
    Holding i state decisions seen s' := by
  obtain ⟨hl, hst, hc, hd, hh, hch⟩ := hR.2.held h.lock
  have hrev : s'.revision = s.revision := by rw [Store.revision, hst, Store.revision]
  exact {
    lock := hl.trans h.lock
    inv := hR.1.inv h.inv
    settled := by
      rw [hrev]
      exact h.settled.congr hc hd
    state := hst.trans h.state
    decisions := hd.trans h.decisions
    seen := hR.2.seen.trans h.seen
    fresh := by
      rw [hh]
      exact h.fresh
    unchanged := by
      rw [hch]
      exact h.unchanged }

omit [DecidableEq ι] in
theorem Ready.rely (h : Ready i state seen s) (hR : Rely i s s') : Ready i state seen s' := by
  obtain ⟨hl, hst, -, -, hh, -⟩ := hR.2.held h.lock
  exact {
    lock := hl.trans h.lock
    inv := hR.1.inv h.inv
    state := hst.trans h.state
    seen := hR.2.seen.trans h.seen
    fresh := by
      rw [hh]
      exact h.fresh }

omit [DecidableEq ι] in
theorem Holding.ready (h : Holding i state decisions seen s) : Ready i state seen s :=
  ⟨h.lock, h.inv, h.state, h.seen, h.fresh⟩

/-- A step that only asks. -/
theorem guarded_ask {op : Op Payload} (hop : ∀ t : Store ι Bytes Payload, (step i op t).2 = t)
    {Q : Except Err (op.Res Bytes) → Store ι Bytes Payload → Prop}
    (h : Holding i state decisions seen s)
    (hQ : ∀ t, Holding i state decisions seen t → Q (.ok (step i op t).1) t) :
    guarded i (.act op .ret) Q s := by
  intro t ht
  have hhold := h.rely ht
  have hsame : ((machine ι Bytes Payload).step i op t).2 = t := hop t
  refine ⟨Or.inl hsame, ?_⟩
  rw [Prog.wp_ret, hsame]
  exact hQ t hhold

theorem guarded_is_initialized {Q : Except Err Bool → Store ι Bytes Payload → Prop}
    (h : Holding i state decisions seen s)
    (hQ : ∀ t, Holding i state decisions seen t → Q (.ok state.isSome) t) :
    guarded i is_initialized Q s :=
  guarded_ask (fun _ => rfl) h fun t ht => by
    have hq := hQ t ht
    rw [← ht.state] at hq
    exact hq

theorem guarded_read_state {Q : Except Err (Option ContinuityState) → Store ι Bytes Payload → Prop}
    (h : Holding i state decisions seen s)
    (hQ : ∀ t, Holding i state decisions seen t → Q (.ok state) t) :
    guarded i read_state Q s :=
  guarded_ask (fun _ => rfl) h fun t ht => by
    have hq := hQ t ht
    rw [← ht.state] at hq
    exact hq

theorem guarded_decision_exists {decision_id : String}
    {Q : Except Err Bool → Store ι Bytes Payload → Prop} (h : Holding i state decisions seen s)
    (hQ : ∀ t, Holding i state decisions seen t → Q (.ok (decisions decision_id).isSome) t) :
    guarded i (decision_exists decision_id) Q s :=
  guarded_ask (fun _ => rfl) h fun t ht => by
    have hq := hQ t ht
    rw [← ht.decisions] at hq
    exact hq

theorem guarded_handoff_is_file {Q : Except Err Bool → Store ι Bytes Payload → Prop}
    (h : Holding i state decisions seen s)
    (hQ : ∀ t present, Holding i state decisions (if present then seen else none) t →
      Q (.ok present) t) :
    guarded i handoff_is_file Q s := by
  intro t ht
  have hhold := h.rely ht
  have hG : Guarantee i t { t with
      seen := Function.update t.seen i (if t.handoff.isSome then t.seen i else none) } :=
    Guarantee.quiet fun j hj => Function.update_of_ne hj _ _
  refine ⟨Or.inr hG, hQ _ t.handoff.isSome ⟨hhold.lock, hG.1.inv hhold.inv,
    ⟨hhold.settled.bounds, hhold.settled.distinct⟩, hhold.state, hhold.decisions, ?_,
    hhold.fresh, hhold.unchanged⟩⟩
  rw [← hhold.seen]
  exact Function.update_self i _ t.seen

theorem guarded_read_handoff {Q : Except Err (Option Bytes) → Store ι Bytes Payload → Prop}
    (h : Holding i state decisions seen s)
    (hQ : ∀ t handoff, Holding i state decisions handoff t → Q (.ok handoff) t) :
    guarded i read_handoff Q s := by
  intro t ht
  have hhold := h.rely ht
  have hG : Guarantee i t { t with seen := Function.update t.seen i t.handoff } :=
    Guarantee.quiet fun j hj => Function.update_of_ne hj _ _
  refine ⟨Or.inr hG, hQ _ t.handoff ⟨hhold.lock, hG.1.inv hhold.inv,
    ⟨hhold.settled.bounds, hhold.settled.distinct⟩, hhold.state, hhold.decisions, ?_,
    hhold.fresh, hhold.unchanged⟩⟩
  exact Function.update_self i _ t.seen

/-- The clock and the random source. -/
theorem guarded_tick {op : Op Payload}
    (hop : ∀ t : Store ι Bytes Payload, (step i op t).2 = { t with ticks := t.ticks + 1 })
    {Q : Except Err (op.Res Bytes) → Store ι Bytes Payload → Prop}
    {P : Store ι Bytes Payload → Prop} (hP : ∀ t t', P t → Rely i t t' → P t')
    (htick : ∀ t, P t → P { t with ticks := t.ticks + 1 })
    (h : P s) (hQ : ∀ t answer, P t → Q (.ok answer) t) : guarded i (.act op .ret) Q s := by
  intro t ht
  have hmoved := htick t (hP s t h ht)
  have hstep : ((machine ι Bytes Payload).step i op t).2 = { t with ticks := t.ticks + 1 } := hop t
  rw [hstep]
  exact ⟨Or.inr (Guarantee.quiet fun _ _ => rfl), hQ _ _ hmoved⟩

omit [DecidableEq ι] in
theorem Holding.tick (h : Holding i state decisions seen s) :
    Holding i state decisions seen { s with ticks := s.ticks + 1 } := by
  have hG : Guarantee i s { s with ticks := s.ticks + 1 } := Guarantee.quiet fun _ _ => rfl
  exact ⟨h.lock, hG.1.inv h.inv, ⟨h.settled.bounds, h.settled.distinct⟩, h.state, h.decisions,
    h.seen, h.fresh, h.unchanged⟩

omit [DecidableEq ι] in
theorem Ready.tick (h : Ready i state seen s) :
    Ready i state seen { s with ticks := s.ticks + 1 } := by
  have hG : Guarantee i s { s with ticks := s.ticks + 1 } := Guarantee.quiet fun _ _ => rfl
  exact ⟨h.lock, hG.1.inv h.inv, h.state, h.seen, h.fresh⟩

omit [DecidableEq ι] in
/-- A new checkpoint or decision file, one revision ahead of the state file. -/
theorem Holding.publish {st : ContinuityState} {file : FileName}
    (h : Holding i (some st) decisions seen s) (hfile : file ≠ .state)
    (hart : ∀ f, s'.artifact f = if f = file then some (st.metadata_revision + 1) else s.artifact f)
    (hlock : s'.lock = s.lock) (hstate : s'.state = s.state) (hseen : s'.seen = s.seen)
    (hchanges : s'.changes = (i, file) :: s.changes) (hhistory : s'.history = s.history)
    (hkeep : ∀ name d, s.decisions name = some d → s'.decisions name = some d) :
    Guarantee i s s' ∧ Ready i (some st) seen s' := by
  have hrev : s.revision = st.metadata_revision := by rw [Store.revision, h.state]; rfl
  have hrev' : s'.revision = st.metadata_revision := by rw [Store.revision, hstate, h.state]; rfl
  have hstarted : 1 ≤ st.metadata_revision := by
    rw [← hrev]
    exact h.inv.ledger.started (by rw [h.state]; rfl)
  have hbelow : ∀ f r, f ≠ file → s'.artifact f = some r → s.artifact f = some r ∧
      2 ≤ r ∧ r ≤ st.metadata_revision := by
    intro f r hne hr
    rw [hart, if_neg hne] at hr
    exact ⟨hr, hrev ▸ h.settled.bounds f r hr⟩
  have hnew : ∀ r, s'.artifact file = some r → r = st.metadata_revision + 1 := by
    intro r hr
    rw [hart, if_pos rfl, Option.some.injEq] at hr
    exact hr.symm
  have hinv : Inv s' := by
    refine ⟨⟨?_, ?_, ?_, ?_, ?_⟩, ⟨?_, ?_⟩, ?_⟩
    · rw [hhistory, hrev', ← hrev]
      exact h.inv.ledger.revisions
    · rw [hhistory]
      exact h.inv.ledger.authors
    · rw [hhistory]
      exact h.inv.ledger.first
    · intro _
      rw [hrev']
      exact hstarted
    · intro st' hst'
      rw [hstate] at hst'
      rw [Store.observed, hhistory]
      exact h.inv.ledger.observed st' hst'
    · intro f r hr
      rw [hrev']
      by_cases hf : f = file
      · subst hf
        rw [hnew r hr]
        omega
      · have hle := (hbelow f r hf hr).2
        omega
    · intro f f' r hr hr'
      by_cases hf : f = file
      · by_cases hf' : f' = file
        · rw [hf, hf']
        · have hle := (hbelow f' r hf' hr').2
          rw [hf] at hr
          have heq := hnew r hr
          omega
      · by_cases hf' : f' = file
        · have hle := (hbelow f r hf hr).2
          rw [hf'] at hr'
          have heq := hnew r hr'
          omega
        · exact h.settled.distinct f f' r (hbelow f r hf hr).1 (hbelow f' r hf' hr').1
    · intro f hr
      rw [hrev'] at hr
      refine ⟨i, hlock.trans h.lock, ?_⟩
      by_cases hf : f = file
      · rw [hf, hchanges]
        exact List.mem_cons_self
      · have hle := (hbelow f _ hf hr).2
        omega
  refine ⟨⟨⟨fun _ => hinv, by rw [hhistory]; exact List.Subset.refl _, hkeep⟩, fun j hj => ?_⟩,
    ⟨hlock.trans h.lock, hinv, hstate.trans h.state, by rw [hseen]; exact h.seen,
      by rw [hhistory]; exact h.fresh⟩⟩
  refine ⟨fun hl => ?_, fun m hm _ => by rwa [hhistory] at hm, fun f hf => ?_, by rw [hseen]⟩
  · rw [h.lock, Option.some.injEq] at hl
    exact absurd hl.symm hj
  · rw [hchanges, List.mem_cons, Prod.mk.injEq] at hf
    exact hf.resolve_left fun heq => hj heq.1

/-- The outcome of a critical section. A successful one has replaced the state
file once, one revision up; another one has written nothing. -/
def Concluded (i : ι) (call : Call Payload) :
    Except Err Passed → Store ι Bytes Payload → Prop
  | .ok passed, s => ∃ m ∈ s.history, m.by_process = i ∧ m.kind = call.kind ∧
      m.revision = passed.revision ∧
      ∀ r, call.expected_revision = some r → passed.revision = r + 1
  | .error _, s => (∀ m ∈ s.history, m.by_process ≠ i) ∧ ∀ file, (i, file) ∉ s.changes

/-- Process `i` may release its lock. -/
structure Finished (i : ι) (s : Store ι Bytes Payload) : Prop where
  lock : s.lock = some i
  settled : Files s s.revision

/-- Replacing the state file, one revision up. -/
theorem guarded_write_state {kind : Kind} {st : ContinuityState}
    {Q : Except Err Unit → Store ι Bytes Payload → Prop} (h : Ready i state seen s)
    (hrev : st.metadata_revision = state.elim 0 ContinuityState.metadata_revision + 1)
    (hkind : kind = .init ↔ state = none)
    (hsha : st.handoff_sha256 =
      if kind = .decision then state.bind ContinuityState.handoff_sha256
      else seen.map sha256_bytes)
    (hQ : ∀ t, Finished i t →
      (∃ m ∈ t.history, m.by_process = i ∧ m.kind = kind ∧ m.revision = st.metadata_revision) →
      Q (.ok ()) t) :
    guarded i (write_state kind st) Q s := by
  intro t ht
  have hr := h.rely ht
  have hold : t.revision = state.elim 0 ContinuityState.metadata_revision := by
    rw [Store.revision, hr.state]
  have hnew : st.metadata_revision = t.revision + 1 := by rw [hold, hrev]
  let m : Mutation ι Bytes := ⟨i, kind, st.metadata_revision, t.seen i⟩
  let t' : Store ι Bytes Payload := { t with
    state := some st, changes := (i, .state) :: t.changes, history := m :: t.history }
  have hrev' : t'.revision = t.revision + 1 := hnew
  have hfiles : Files t' t'.revision := by
    rw [hrev']
    exact ⟨hr.inv.files.bounds, hr.inv.files.distinct⟩
  have hledger : Ledger t' := by
    refine ⟨?_, ?_, ?_, fun _ => by rw [hrev']; omega, ?_⟩
    · rw [hrev', countdown, ← hr.inv.ledger.revisions, ← hnew]
      rfl
    · refine List.nodup_cons.mpr ⟨fun hmem => ?_, hr.inv.ledger.authors⟩
      obtain ⟨m', hm', hby⟩ := List.mem_map.mp hmem
      exact hr.fresh m' hm' hby
    · refine List.forall_mem_cons.mpr ⟨?_, hr.inv.ledger.first⟩
      have hone : st.metadata_revision = 1 ↔ state = none := by
        constructor
        · intro hone
          by_contra hsome
          have hstarted := hr.inv.ledger.started
            (by rw [hr.state]; exact Option.isSome_iff_ne_none.mpr hsome)
          omega
        · rintro rfl
          exact hrev
      exact hkind.trans hone.symm
    · intro st' hst'
      obtain rfl : st = st' := Option.some.inj hst'
      rw [hsha, Store.observed]
      by_cases hd : kind = .decision
      · rw [if_pos hd, List.find?_cons_of_neg (by simpa [m] using hd)]
        cases hstate : state with
        | none => exact absurd (hkind.mpr hstate) (by rw [hd]; decide)
        | some old => exact hr.inv.ledger.observed old (hr.state.trans hstate)
      · rw [if_neg hd, List.find?_cons_of_pos (by simpa [m] using hd), ← hr.seen]
        rfl
  have hinv : Inv t' := by
    refine ⟨hledger, ⟨fun f r hf => ?_, hfiles.distinct⟩, fun f hf => ?_⟩
    · have hle := hfiles.bounds f r hf
      omega
    · have hle := (hfiles.bounds f _ hf).2
      omega
  have hG : Guarantee i t t' := by
    refine ⟨⟨fun _ => hinv, List.subset_cons_self _ _, fun _ _ => id⟩, fun j hj => ?_⟩
    refine ⟨fun hl => ?_, fun m' hm' hby => ?_, fun f hf => ?_, rfl⟩
    · rw [hr.lock, Option.some.injEq] at hl
      exact absurd hl.symm hj
    · rcases List.mem_cons.mp hm' with rfl | hm'
      · exact absurd hby.symm hj
      · exact hm'
    · rcases List.mem_cons.mp hf with heq | hf
      · exact absurd (Prod.mk.inj heq).1 hj
      · exact hf
  exact ⟨Or.inr hG, hQ t' ⟨hr.lock, hfiles⟩ ⟨m, List.mem_cons_self, rfl, rfl, rfl⟩⟩

end jvc.continuity
