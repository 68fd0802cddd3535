import Mathlib.Logic.Relation
import Jvc.Recovery.Journal

namespace jvc.recovery

variable {Bytes : Type} [Text] [Host Bytes] {i : Pid} {t : Path} {J J' : Journal Bytes}

/-- Any number of reconciliation steps. -/
def Settling (i : Pid) (t : Path) : Journal Bytes → Journal Bytes → Prop :=
  Relation.ReflTransGen (Step i t .settle)

omit [Text] [Host Bytes] in
@[simp] theorem Entry.mark_mark (e : Entry Bytes) (s s' : TxState) :
    (e.mark s).mark s' = e.mark s' := rfl

omit [Text] [Host Bytes] in
@[simp] theorem Entry.mark_self (e : Entry Bytes) : e.mark e.tx_state = e := rfl

/-- A receipt that is not pending is left as it is. -/
theorem Entry.settled_of_complete {e : Entry Bytes} (h : e.tx_state.incomplete = false)
    (current : Option String) : e.settled current = e.tx_state := by
  obtain ⟨project_id, stamp, seq, tx_state, kind⟩ := e
  cases tx_state <;> cases kind <;> simp_all [Entry.settled, TxState.incomplete]

theorem Entry.settled_write_of_prepared {e : Entry Bytes} {prev pre post : Option String}
    {backup : Option Bytes} (hk : e.kind = .write prev pre post backup)
    (hs : e.tx_state = .PREPARED) (current : Option String) :
    e.settled current = if e.backup_ok && current == pre then .RECOVERED_UNAPPLIED
      else .RECOVERY_REQUIRED := by
  simp only [Entry.settled, hk, hs]

theorem Entry.settled_write_of_applied {e : Entry Bytes} {prev pre post : Option String}
    {backup : Option Bytes} (hk : e.kind = .write prev pre post backup)
    (hs : e.tx_state = .APPLIED) (current : Option String) :
    e.settled current = if e.backup_ok && (post.isSome && current == post) then .VERIFIED
      else .RECOVERY_REQUIRED := by
  simp only [Entry.settled, hk, hs]

theorem Entry.settled_rollback_of_prepared {e : Entry Bytes} {source expected : String}
    {restored : Option String} (hk : e.kind = .rollback source expected restored)
    (hs : e.tx_state = .PREPARED) (current : Option String) :
    e.settled current = if current == some expected then .RECOVERED_UNAPPLIED
      else .RECOVERY_REQUIRED := by
  simp only [Entry.settled, hk, hs]

theorem Entry.settled_rollback_of_applied {e : Entry Bytes} {source expected : String}
    {restored : Option String} (hk : e.kind = .rollback source expected restored)
    (hs : e.tx_state = .APPLIED) (current : Option String) :
    e.settled current =
      if restored.isSome &&
          (current == restored || (restored == some "__ABSENT__" && current.isNone))
      then .VERIFIED else .RECOVERY_REQUIRED := by
  simp only [Entry.settled, hk, hs]

/-- Reconciliation leaves no receipt pending. -/
theorem Entry.settled_complete (e : Entry Bytes) (current : Option String) :
    (e.settled current).incomplete = false := by
  cases hs : e.tx_state with
  | PREPARED =>
    cases hk : e.kind with
    | write =>
      rw [e.settled_write_of_prepared hk hs]
      split <;> rfl
    | rollback =>
      rw [e.settled_rollback_of_prepared hk hs]
      split <;> rfl
  | APPLIED =>
    cases hk : e.kind with
    | write =>
      rw [e.settled_write_of_applied hk hs]
      split <;> rfl
    | rollback =>
      rw [e.settled_rollback_of_applied hk hs]
      split <;> rfl
  | _ => rw [Entry.settled_of_complete (by rw [hs]; rfl), hs]; rfl

/-- A pending receipt is found unapplied, finished or unresolved. -/
theorem Entry.settled_of_incomplete {e : Entry Bytes} (h : e.tx_state.incomplete = true)
    (current : Option String) : e.settled current = .RECOVERED_UNAPPLIED ∨
      e.settled current = .VERIFIED ∨ e.settled current = .RECOVERY_REQUIRED := by
  cases hs : e.tx_state with
  | PREPARED =>
    cases hk : e.kind with
    | write =>
      rw [e.settled_write_of_prepared hk hs]
      split <;> simp
    | rollback =>
      rw [e.settled_rollback_of_prepared hk hs]
      split <;> simp
  | APPLIED =>
    cases hk : e.kind with
    | write =>
      rw [e.settled_write_of_applied hk hs]
      split <;> simp
    | rollback =>
      rw [e.settled_rollback_of_applied hk hs]
      split <;> simp
  | _ =>
    rw [hs] at h
    cases h

namespace Journal

/-- Once settled, no receipt of the project is RECOVERY_REQUIRED. -/
def Resolvable (J : Journal Bytes) (project_id : String) : Prop :=
  ∀ e ∈ J.entries, e.project_id.text = project_id →
    e.settled J.current ≠ .RECOVERY_REQUIRED

end Journal

section Quiet

/-- Any number of steps that only change states of receipts. -/
def Quiet (i : Pid) (t : Path) : Journal Bytes → Journal Bytes → Prop :=
  Relation.ReflTransGen fun J J' => ∃ l : Label, l.quiet = true ∧ Step i t l J J'

/-- A quiet step marks the receipts of one id. -/
theorem Step.quiet_mark {l : Label} (h : Step i t l J J') (hl : l.quiet = true) :
    ∃ id s, J' = J.mark id s := by
  cases h with
  | settle => exact ⟨_, _, rfl⟩
  | finalize => exact ⟨_, _, rfl⟩
  | audit => exact ⟨_, _, rfl⟩
  | overtake => exact ⟨_, _, rfl⟩
  | supersede => exact ⟨_, _, rfl⟩
  | _ => cases hl

theorem Quiet.target (h : Quiet i t J J') : J'.target = J.target := by
  induction h with
  | refl => rfl
  | tail _ hstep ih =>
    obtain ⟨l, hl, hstep⟩ := hstep
    obtain ⟨id, s, rfl⟩ := hstep.quiet_mark hl
    exact ih

theorem Quiet.current (h : Quiet i t J J') : J'.current = J.current := by
  simp only [Journal.current, h.target]

theorem Quiet.log (h : Quiet i t J J') : J'.log = J.log := by
  induction h with
  | refl => rfl
  | tail _ hstep ih =>
    obtain ⟨l, hl, hstep⟩ := hstep
    obtain ⟨id, s, rfl⟩ := hstep.quiet_mark hl
    exact ih

theorem Quiet.ids (h : Quiet i t J J') :
    J'.entries.map Entry.receipt_id = J.entries.map Entry.receipt_id := by
  induction h with
  | refl => rfl
  | tail _ hstep ih =>
    obtain ⟨l, hl, hstep⟩ := hstep
    obtain ⟨id, s, rfl⟩ := hstep.quiet_mark hl
    exact (Journal.ids_update (Journal.keeps_mark _) _).trans ih

theorem Quiet.wf (h : Quiet i t J J') (hwf : J.Wf) : J'.Wf := by
  induction h with
  | refl => exact hwf
  | tail _ hstep ih =>
    obtain ⟨l, hl, hstep⟩ := hstep
    obtain ⟨id, s, rfl⟩ := hstep.quiet_mark hl
    exact ih.mark _ _

/-- The receipts after quiet steps are the old ones, up to their states. -/
theorem Quiet.entry (h : Quiet i t J J') {x : Entry Bytes} (hx : x ∈ J'.entries) :
    ∃ e ∈ J.entries, ∃ s, x = e.mark s := by
  induction h generalizing x with
  | refl => exact ⟨x, hx, _, (x.mark_self).symm⟩
  | tail _ hstep ih =>
    obtain ⟨l, hl, hstep⟩ := hstep
    obtain ⟨id, s, rfl⟩ := hstep.quiet_mark hl
    obtain ⟨y, hy, ⟨_, rfl⟩ | ⟨_, rfl⟩⟩ := Journal.mem_mark.mp hx
    · obtain ⟨e, he, s', rfl⟩ := ih hy
      exact ⟨e, he, s, rfl⟩
    · exact ih hy

end Quiet

/-- What one reconciliation step may do to a receipt. -/
theorem Step.settle_entry (h : Step i t .settle J J') (hwf : J.Wf) {x : Entry Bytes}
    (hx : x ∈ J'.entries) : ∃ e ∈ J.entries, ∃ s, x = e.mark s ∧
      (s = e.tx_state ∨ s = .ROLLED_BACK ∨
        (e.tx_state.incomplete = true ∧ s = e.settled J.current)) := by
  cases h with
  | settle he hp =>
    obtain ⟨e, hmem, ⟨hid, rfl⟩ | ⟨_, rfl⟩⟩ := Journal.mem_mark.mp hx
    · rw [hwf.eq_of_id hmem he hid]
      exact ⟨_, he, _, rfl, .inr (.inr ⟨hp, rfl⟩)⟩
    · exact ⟨x, hmem, _, (x.mark_self).symm, .inl rfl⟩
  | finalize hr hs hv =>
    obtain ⟨e, hmem, ⟨_, rfl⟩ | ⟨_, rfl⟩⟩ := Journal.mem_mark.mp hx
    · exact ⟨e, hmem, _, rfl, .inr (.inl rfl)⟩
    · exact ⟨x, hmem, _, (x.mark_self).symm, .inl rfl⟩

/-- An invariant of the single steps is one of any number of them. -/
theorem Settling.preserves {Inv : Journal Bytes → Prop} (h : Settling i t J J')
    (hstep : ∀ J J', Inv J → Step i t .settle J J' → Inv J') (hJ : Inv J) : Inv J' := by
  induction h with
  | refl => exact hJ
  | tail _ hone ih => exact hstep _ _ ih hone

theorem Settling.quiet (h : Settling i t J J') : Quiet i t J J' :=
  Relation.ReflTransGen.mono (fun _ _ hstep => ⟨.settle, rfl, hstep⟩) _ _ h

theorem Settling.current (h : Settling i t J J') : J'.current = J.current := h.quiet.current

theorem Settling.wf (h : Settling i t J J') (hwf : J.Wf) : J'.Wf := h.quiet.wf hwf

/-- What reconciliation may do to a receipt: nothing, close it as the source of
a rollback, or settle it against the present target. -/
theorem Settling.entry (h : Settling i t J J') (hwf : J.Wf) {x : Entry Bytes}
    (hx : x ∈ J'.entries) : ∃ e ∈ J.entries, ∃ s, x = e.mark s ∧
      (s = e.tx_state ∨ s = .ROLLED_BACK ∨
        (e.tx_state.incomplete = true ∧ s = e.settled J.current)) := by
  induction h generalizing x with
  | refl => exact ⟨x, hx, _, (x.mark_self).symm, .inl rfl⟩
  | @tail b c hab hstep ih =>
    have hsettling : Settling i t J b := hab
    obtain ⟨y, hy, s, rfl, hs⟩ := hstep.settle_entry (hsettling.wf hwf) hx
    obtain ⟨e, he, s', rfl, hs'⟩ := ih hy
    refine ⟨e, he, s, rfl, ?_⟩
    rcases hs with rfl | rfl | ⟨hpending, rfl⟩
    · exact hs'
    · exact .inr (.inl rfl)
    · rcases hs' with rfl | rfl | ⟨_, rfl⟩
      · rw [hsettling.current]
        exact .inr (.inr ⟨hpending, rfl⟩)
      · cases hpending
      · rw [Entry.mark_tx_state, Entry.settled_complete] at hpending
        cases hpending

/-- A receipt in a final state is only changed by closing it. -/
theorem Settling.entry_of_complete (h : Settling i t J J') (hwf : J.Wf) {e : Entry Bytes}
    (he : e ∈ J.entries) (hcomplete : e.tx_state.incomplete = false) {x : Entry Bytes}
    (hx : x ∈ J'.entries) (hid : x.receipt_id = e.receipt_id) :
    x = e ∨ x = e.mark .ROLLED_BACK := by
  obtain ⟨y, hy, s, rfl, hs⟩ := h.entry hwf hx
  rw [Entry.mark_receipt_id] at hid
  rw [hwf.eq_of_id hy he hid] at hs ⊢
  rcases hs with rfl | rfl | ⟨hp, _⟩
  · exact .inl rfl
  · exact .inr rfl
  · rw [hcomplete] at hp
    cases hp

omit [Text] [Host Bytes] in
theorem Journal.mark_mark (J : Journal Bytes) (id : String) (s s' : TxState) :
    (J.mark id s).mark id s' = J.mark id s' := by
  simp only [Journal.mark, Journal.update, List.map_map]
  congr 1
  refine List.map_congr_left fun e _ => ?_
  simp only [Function.comp_apply]
  by_cases h : e.receipt_id = id
  · simp [h]
  · simp [h]

omit [Text] [Host Bytes] in
theorem Journal.mem_of_mark_required {id : String} {s : TxState} (hs : s ≠ .RECOVERY_REQUIRED)
    {x : Entry Bytes} (hx : x ∈ (J.mark id s).entries) (hreq : x.tx_state = .RECOVERY_REQUIRED) :
    x ∈ J.entries := by
  obtain ⟨y, hy, ⟨_, rfl⟩ | ⟨_, rfl⟩⟩ := Journal.mem_mark.mp hx
  · exact absurd hreq hs
  · exact hy

/-- Settling a receipt without finding it unresolved adds no RECOVERY_REQUIRED one. -/
theorem Journal.mem_of_settle_required {e x : Entry Bytes}
    (hs : e.settled J.current ≠ .RECOVERY_REQUIRED) (hx : x ∈ (J.settle e).entries)
    (hreq : x.tx_state = .RECOVERY_REQUIRED) : x ∈ J.entries := by
  unfold Journal.settle at hx
  split at hx
  · exact mem_of_mark_required (by decide) (mem_of_mark_required (by decide) hx hreq) hreq
  · exact mem_of_mark_required hs hx hreq

theorem Journal.Resolvable.mark {project_id id : String} {s : TxState}
    (h : J.Resolvable project_id) (hs : s.incomplete = false) (hne : s ≠ .RECOVERY_REQUIRED) :
    (J.mark id s).Resolvable project_id := by
  intro x hx hproject
  obtain ⟨y, hy, ⟨_, rfl⟩ | ⟨_, rfl⟩⟩ := Journal.mem_mark.mp hx
  · rw [Entry.settled_of_complete hs]
    exact hne
  · exact h x hy hproject

theorem Settling.resolvable (h : Settling i t J J') (hwf : J.Wf) {project_id : String}
    (hres : J.Resolvable project_id) : J'.Resolvable project_id := by
  intro x hx hproject
  obtain ⟨e, he, s, rfl, hs⟩ := h.entry hwf hx
  have hold := hres e he hproject
  rw [h.current]
  rcases hs with rfl | rfl | ⟨_, rfl⟩
  · exact hold
  · rw [Entry.settled_of_complete rfl]
    exact TxState.noConfusion
  · rw [Entry.settled_of_complete (e.settled_complete _)]
    exact hold

theorem Journal.settle_settling {e : Entry Bytes} (he : e ∈ J.entries)
    (hp : e.tx_state.incomplete = true) : Settling i t J (J.settle e) := by
  have hfirst : Step i t .settle J (J.mark e.receipt_id (e.settled J.current)) := .settle he hp
  unfold Journal.settle
  split
  · rename_i source expected restored hk hset
    rw [hset] at hfirst
    refine .tail (.single hfirst) (.finalize (r := e.mark .VERIFIED) ?_ ?_ rfl)
    · exact Journal.mem_mark.mpr ⟨e, he, .inl ⟨rfl, rfl⟩⟩
    · rw [Entry.mark_kind, hk]
      rfl
  · exact .single hfirst

/-- The settled receipt itself. -/
theorem Journal.settle_own (hwf : J.Wf) {e x : Entry Bytes} (he : e ∈ J.entries)
    (hx : x ∈ (J.settle e).entries) (hid : x.receipt_id = e.receipt_id) :
    x = e.mark (e.settled J.current) ∨ x = e.mark .ROLLED_BACK := by
  have hfirst : ∀ {y : Entry Bytes} {s : TxState}, y ∈ (J.mark e.receipt_id s).entries →
      y.receipt_id = e.receipt_id → y = e.mark s := by
    intro y s hy hyid
    obtain ⟨z, hz, ⟨hzid, rfl⟩ | ⟨hzid, rfl⟩⟩ := Journal.mem_mark.mp hy
    · rw [hwf.eq_of_id hz he hzid]
    · exact absurd hyid hzid
  unfold Journal.settle at hx
  split at hx
  · rename_i source expected restored hk hset
    obtain ⟨y, hy, ⟨_, rfl⟩ | ⟨_, rfl⟩⟩ := Journal.mem_mark.mp hx
    · rw [hfirst hy hid]
      exact .inr rfl
    · rw [hset]
      exact .inl (hfirst hy hid)
  · exact .inl (hfirst hx hid)

section Overtaking

/-- Any number of steps of `_supersede_pending`. -/
def Overtaking (i : Pid) (t : Path) : Journal Bytes → Journal Bytes → Prop :=
  Relation.ReflTransGen fun J J' => Step i t .settle J J' ∨ Step i t .overtake J J'

theorem Settling.overtaking (h : Settling i t J J') : Overtaking i t J J' :=
  Relation.ReflTransGen.mono (fun _ _ hstep => .inl hstep) _ _ h

theorem Overtaking.quiet (h : Overtaking i t J J') : Quiet i t J J' :=
  Relation.ReflTransGen.mono
    (fun _ _ hstep => hstep.elim (fun h => ⟨.settle, rfl, h⟩) fun h => ⟨.overtake, rfl, h⟩) _ _ h

theorem Overtaking.preserves {Inv : Journal Bytes → Prop} (h : Overtaking i t J J')
    (hstep : ∀ J J', Inv J → Step i t .settle J J' → Inv J')
    (hover : ∀ J J', Inv J → Step i t .overtake J J' → Inv J') (hJ : Inv J) : Inv J' := by
  induction h with
  | refl => exact hJ
  | tail _ hone ih => exact hone.elim (hstep _ _ ih) (hover _ _ ih)

/-- The states `_supersede_pending` leaves: the old one, that of a closed
source, the settled one, or that of an overtaken write. -/
def Overtaken (J : Journal Bytes) (e : Entry Bytes) (s : TxState) : Prop :=
  s = e.tx_state ∨ s = .ROLLED_BACK ∨
    (e.tx_state.incomplete = true ∧ s = e.settled J.current) ∨
    (e.kind.isWrite = true ∧ e.tx_state = .APPLIED ∧ s = e.overtaken J.current) ∨
    (e.kind.isWrite = true ∧ e.settled J.current = .RECOVERED_UNAPPLIED ∧ s = .SUPERSEDED)

omit [Text] [Host Bytes] in
theorem Entry.overtaken_complete (e : Entry Bytes) (current : Option String) :
    (e.overtaken current).incomplete = false := by
  unfold Entry.overtaken
  split <;> rfl

theorem Overtaking.entry (h : Overtaking i t J J') (hwf : J.Wf) {x : Entry Bytes}
    (hx : x ∈ J'.entries) : ∃ e ∈ J.entries, ∃ s, x = e.mark s ∧ Overtaken J e s := by
  induction h generalizing x with
  | refl => exact ⟨x, hx, _, (x.mark_self).symm, .inl rfl⟩
  | @tail b c hab hstep ih =>
    have hover : Overtaking i t J b := hab
    have hwfb := hover.quiet.wf hwf
    have hcurrent := hover.quiet.current
    rcases hstep with hstep | hstep
    · obtain ⟨y, hy, s, rfl, hs⟩ := hstep.settle_entry hwfb hx
      obtain ⟨e, he, s', rfl, hs'⟩ := ih hy
      refine ⟨e, he, s, rfl, ?_⟩
      rcases hs with rfl | rfl | ⟨hpending, rfl⟩
      · exact hs'
      · exact .inr (.inl rfl)
      · rcases hs' with rfl | rfl | ⟨_, rfl⟩ | ⟨_, _, rfl⟩ | ⟨_, _, rfl⟩
        · rw [hcurrent]
          exact .inr (.inr (.inl ⟨hpending, rfl⟩))
        · cases hpending
        · rw [Entry.mark_tx_state, Entry.settled_complete] at hpending
          cases hpending
        · rw [Entry.mark_tx_state, Entry.overtaken_complete] at hpending
          cases hpending
        · cases hpending
    · cases hstep with
      | overtake hy hw hstate =>
        obtain ⟨z, hz, ⟨hid, rfl⟩ | ⟨_, rfl⟩⟩ := Journal.mem_mark.mp hx
        · rw [hwfb.eq_of_id hz hy hid]
          obtain ⟨e, he, s', rfl, hs'⟩ := ih hy
          refine ⟨e, he, _, rfl, ?_⟩
          have happlied : e.tx_state = .APPLIED := by
            rcases hs' with rfl | rfl | ⟨_, rfl⟩ | ⟨_, _, rfl⟩ | ⟨_, _, rfl⟩
            · exact hstate
            · cases hstate
            · have hc := e.settled_complete J.current
              rw [Entry.mark_tx_state] at hstate
              rw [hstate] at hc
              cases hc
            · have hc := e.overtaken_complete J.current
              rw [Entry.mark_tx_state] at hstate
              rw [hstate] at hc
              cases hc
            · cases hstate
          rw [hcurrent]
          exact .inr (.inr (.inr (.inl ⟨hw, happlied, rfl⟩)))
        · exact ih hz
      | supersede hy hw hstate =>
        obtain ⟨z, hz, ⟨hid, rfl⟩ | ⟨_, rfl⟩⟩ := Journal.mem_mark.mp hx
        · rw [hwfb.eq_of_id hz hy hid]
          obtain ⟨e, he, s', rfl, hs'⟩ := ih hy
          refine ⟨e, he, _, rfl, .inr (.inr (.inr (.inr ⟨hw, ?_, rfl⟩)))⟩
          rcases hs' with rfl | rfl | ⟨_, rfl⟩ | ⟨_, _, rfl⟩ | ⟨_, _, rfl⟩
          · rw [Entry.mark_self] at hstate
            rw [Entry.settled_of_complete (by rw [hstate]; rfl), hstate]
          · cases hstate
          · exact hstate
          · rw [Entry.mark_tx_state] at hstate
            unfold Entry.overtaken at hstate
            split at hstate <;> cases hstate
          · cases hstate
        · exact ih hz

theorem Overtaken.complete {e : Entry Bytes} {s : TxState} (h : Overtaken J e s)
    (he : e.tx_state.incomplete = false) : s.incomplete = false := by
  rcases h with rfl | rfl | ⟨hp, _⟩ | ⟨_, hp, _⟩ | ⟨_, _, rfl⟩
  · exact he
  · rfl
  · rw [he] at hp
    cases hp
  · rw [hp] at he
    cases he
  · rfl

end Overtaking

end jvc.recovery
