import Mathlib.Data.List.Nodup
import Jvc.Continuity.State

open program

namespace jvc.continuity

variable {ι Bytes Payload : Type} [Digest Bytes]

/-- The revision of the state file; none is written before the first. -/
def Store.revision (s : Store ι Bytes Payload) : Nat :=
  s.state.elim 0 ContinuityState.metadata_revision

/-- The revision that a checkpoint or decision file carries. -/
def Store.artifact (s : Store ι Bytes Payload) : FileName → Option Nat
  | .state => none
  | .checkpoint name => (s.checkpoints name).map Checkpoint.metadata_revision
  | .decision name => (s.decisions name).map Decision.metadata_revision

/-- The hash of the handoff that the last init, checkpoint or reconciliation saw. -/
def Store.observed (s : Store ι Bytes Payload) : Option String :=
  (s.history.find? fun m => m.kind ≠ .decision).bind fun m => m.seen.map sha256_bytes

/-- `n, n - 1, …, 1` -/
def countdown : Nat → List Nat
  | 0 => []
  | n + 1 => (n + 1) :: countdown n

theorem mem_countdown {n m : Nat} : m ∈ countdown n ↔ 1 ≤ m ∧ m ≤ n := by
  induction n with
  | zero =>
    simp only [countdown, List.not_mem_nil, false_iff]
    omega
  | succ n ih =>
    simp only [countdown, List.mem_cons, ih]
    omega

theorem countdown_nodup (n : Nat) : (countdown n).Nodup := by
  induction n with
  | zero => exact List.nodup_nil
  | succ n ih =>
    refine List.nodup_cons.mpr ⟨fun h => ?_, ih⟩
    have hle := (mem_countdown.mp h).2
    omega

/-- The checkpoint and decision files carry different revisions, from 2 up to `top`. -/
structure Files (s : Store ι Bytes Payload) (top : Nat) : Prop where
  bounds : ∀ file r, s.artifact file = some r → 2 ≤ r ∧ r ≤ top
  distinct : ∀ file file' r, s.artifact file = some r → s.artifact file' = some r → file = file'

/-- The state file is the last entry of a history that counts up by one, each
entry from another process. -/
structure Ledger (s : Store ι Bytes Payload) : Prop where
  revisions : s.history.map Mutation.revision = countdown s.revision
  authors : (s.history.map Mutation.by_process).Nodup
  first : ∀ m ∈ s.history, m.kind = .init ↔ m.revision = 1
  started : s.state.isSome = true → 1 ≤ s.revision
  observed : ∀ st, s.state = some st → st.handoff_sha256 = s.observed

/-- What holds at every moment: a file ahead of the state file belongs to the
process in its critical section. -/
structure Inv (s : Store ι Bytes Payload) : Prop where
  ledger : Ledger s
  files : Files s (s.revision + 1)
  ahead : ∀ file, s.artifact file = some (s.revision + 1) →
    ∃ i, s.lock = some i ∧ (i, file) ∈ s.changes

/-- What no step of any process undoes. -/
structure Common (s s' : Store ι Bytes Payload) : Prop where
  inv : Inv s → Inv s'
  history : s.history ⊆ s'.history
  decisions : ∀ name d, s.decisions name = some d → s'.decisions name = some d

/-- What the steps of others leave to process `i`. -/
structure Private (i : ι) (s s' : Store ι Bytes Payload) : Prop where
  held : s.lock = some i → s'.lock = s.lock ∧ s'.state = s.state ∧ s'.checkpoints = s.checkpoints ∧
    s'.decisions = s.decisions ∧ s'.history = s.history ∧ s'.changes = s.changes
  mine : ∀ m ∈ s'.history, m.by_process = i → m ∈ s.history
  changed : ∀ file, (i, file) ∈ s'.changes → (i, file) ∈ s.changes
  seen : s'.seen i = s.seen i

def Rely (i : ι) (s s' : Store ι Bytes Payload) : Prop := Common s s' ∧ Private i s s'

def Guarantee (i : ι) (s s' : Store ι Bytes Payload) : Prop :=
  Common s s' ∧ ∀ j, j ≠ i → Private j s s'

/-- Anyone may edit HANDOFF.md at any time. -/
def Edit (s s' : Store ι Bytes Payload) : Prop := ∃ handoff, s' = { s with handoff }

variable {i : ι} {s s' s'' : Store ι Bytes Payload}

theorem Common.refl (s : Store ι Bytes Payload) : Common s s :=
  ⟨id, List.Subset.refl _, fun _ _ => id⟩

theorem Common.trans (h : Common s s') (h' : Common s' s'') : Common s s'' where
  inv hs := h'.inv (h.inv hs)
  history := List.Subset.trans h.history h'.history
  decisions name d hd := h'.decisions name d (h.decisions name d hd)

omit [Digest Bytes] in
theorem Private.refl (s : Store ι Bytes Payload) : Private i s s :=
  ⟨fun _ => ⟨rfl, rfl, rfl, rfl, rfl, rfl⟩, fun _ hm _ => hm, fun _ => id, rfl⟩

omit [Digest Bytes] in
theorem Private.trans (h : Private i s s') (h' : Private i s' s'') : Private i s s'' where
  held hlock := by
    obtain ⟨hl, hst, hc, hd, hh, hch⟩ := h.held hlock
    obtain ⟨hl', hst', hc', hd', hh', hch'⟩ := h'.held (hl.trans hlock)
    exact ⟨hl'.trans hl, hst'.trans hst, hc'.trans hc, hd'.trans hd, hh'.trans hh,
      hch'.trans hch⟩
  mine m hm hi := h.mine m (h'.mine m hm hi) hi
  changed file hf := h.changed file (h'.changed file hf)
  seen := h'.seen.trans h.seen

theorem Rely.refl (i : ι) (s : Store ι Bytes Payload) : Rely i s s :=
  ⟨Common.refl s, Private.refl s⟩

theorem Rely.trans (h : Rely i s s') (h' : Rely i s' s'') : Rely i s s'' :=
  ⟨h.1.trans h'.1, h.2.trans h'.2⟩

theorem Edit.common (h : Edit s s') : Common s s' := by
  obtain ⟨handoff, rfl⟩ := h
  exact ⟨fun hs => ⟨⟨hs.ledger.revisions, hs.ledger.authors, hs.ledger.first,
    hs.ledger.started, hs.ledger.observed⟩,
    ⟨hs.files.bounds, hs.files.distinct⟩, hs.ahead⟩, List.Subset.refl _, fun _ _ => id⟩

theorem Edit.rely (h : Edit s s') : Rely i s s' := by
  refine ⟨h.common, ?_⟩
  obtain ⟨handoff, rfl⟩ := h
  exact ⟨fun _ => ⟨rfl, rfl, rfl, rfl, rfl, rfl⟩, fun _ hm _ => hm, fun _ => id, rfl⟩

/-- A step that changes only clocks, and what process `i` has seen. -/
theorem Guarantee.quiet {seen : ι → Option Bytes} {ticks : Nat}
    (hseen : ∀ j, j ≠ i → seen j = s.seen j) :
    Guarantee i s { s with seen, ticks } := by
  refine ⟨⟨fun hs => ⟨⟨hs.ledger.revisions, hs.ledger.authors, hs.ledger.first,
    hs.ledger.started, hs.ledger.observed⟩, ⟨hs.files.bounds, hs.files.distinct⟩, hs.ahead⟩, List.Subset.refl _,
    fun _ _ => id⟩, fun j hj => ?_⟩
  exact ⟨fun _ => ⟨rfl, rfl, rfl, rfl, rfl, rfl⟩, fun _ hm _ => hm, fun _ => id, hseen j hj⟩

end jvc.continuity
