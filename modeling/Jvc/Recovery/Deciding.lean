import Jvc.Recovery.Reconcile

open program program.Prog

namespace jvc.recovery

variable {Bytes : Type} [Text] [Host Bytes] {store : RecoveryStore} {owner : Option Pid} {i : Pid}
  {t : Target store} {Inv : Journal Bytes → Prop} {J J' : Journal Bytes} {w w' : World Bytes}

/-- The journal after `recover()` has decided one receipt. -/
def Journal.decide (J : Journal Bytes) (e : Entry Bytes) : Journal Bytes :=
  if e.tx_state.incomplete then J.settle e
  else if e.tx_state = .VERIFIED then
    match e.kind with
    | .write .. => if e.backup_ok then J else J.mark e.receipt_id .RECOVERY_REQUIRED
    | .rollback source .. => J.mark source .ROLLED_BACK
  else J

/-- Any number of steps of `recover()`. -/
def Recovering (i : Pid) (t : Path) : Journal Bytes → Journal Bytes → Prop :=
  Relation.ReflTransGen fun J J' => Step i t .settle J J' ∨ Step i t .audit J J'

theorem Settling.recovering {path : Path} (h : Settling i path J J') : Recovering i path J J' :=
  Relation.ReflTransGen.mono (fun _ _ hstep => .inl hstep) _ _ h

theorem Recovering.quiet {path : Path} (h : Recovering i path J J') : Quiet i path J J' :=
  Relation.ReflTransGen.mono
    (fun _ _ hstep => hstep.elim (fun h => ⟨.settle, rfl, h⟩) fun h => ⟨.audit, rfl, h⟩) _ _ h

theorem Recovering.preserves {path : Path} (h : Recovering i path J J')
    (hstep : ∀ J J', Inv J → Step i path .settle J J' → Inv J')
    (haudit : ∀ J J', Inv J → Step i path .audit J J' → Inv J') (hJ : Inv J) : Inv J' := by
  induction h with
  | refl => exact hJ
  | tail _ hone ih => exact hone.elim (hstep _ _ ih) (haudit _ _ ih)

theorem Journal.decide_recovering {path : Path} {e : Entry Bytes} (he : e ∈ J.entries) :
    Recovering i path J (J.decide e) := by
  unfold Journal.decide
  split
  · rename_i hp
    exact (Journal.settle_settling he hp).recovering
  · split
    · rename_i hv
      split
      · rename_i hk
        split
        · exact .refl
        · rename_i hlost
          refine .single (.inr (.audit he ?_ hv (by simpa using hlost)))
          rw [hk]
          rfl
      · rename_i hk
        refine .single (.inl (.finalize he ?_ hv))
        rw [hk]
        rfl
    · exact .refl

/-- What `recover()` leaves of a receipt it has decided. -/
structure Entry.Decided (J : Journal Bytes) (e : Entry Bytes) : Prop where
  complete : e.tx_state.incomplete = false
  closed : ∀ id, e.kind.source = some id → e.tx_state = .VERIFIED →
    ∀ s ∈ J.entries, s.receipt_id = id → s.tx_state = .ROLLED_BACK

/-- A decided receipt, and a closed source, stay so. -/
theorem Recovering.entry {path : Path} (h : Recovering i path J J') (hwf : J.Wf)
    {x : Entry Bytes} (hx : x ∈ J'.entries) : ∃ e ∈ J.entries, ∃ s, x = e.mark s ∧
      (e.tx_state.incomplete = false → s.incomplete = false) ∧
      (e.tx_state = .ROLLED_BACK → s = .ROLLED_BACK) ∧
      (e.kind.isWrite = false → e.tx_state.incomplete = false → s = e.tx_state) := by
  induction h generalizing x with
  | refl => exact ⟨x, hx, _, (x.mark_self).symm, id, id, fun _ _ => rfl⟩
  | @tail b c hab hstep ih =>
    have hwfb : b.Wf := Quiet.wf (Recovering.quiet hab) hwf
    rcases hstep with hstep | hstep
    · cases hstep with
      | settle he hp =>
        obtain ⟨y, hy, ⟨hid, rfl⟩ | ⟨_, rfl⟩⟩ := Journal.mem_mark.mp hx
        · have hye := hwfb.eq_of_id hy he hid
          subst hye
          obtain ⟨e₀, he₀, s, rfl, hcomplete, hclosed, hkeep⟩ := ih hy
          refine ⟨e₀, he₀, _, rfl, fun _ => Entry.settled_complete _ _, fun h₀ => ?_, fun _ h₀ => ?_⟩
          · rw [Entry.mark_tx_state, hclosed h₀] at hp
            cases hp
          · rw [Entry.mark_tx_state, hcomplete h₀] at hp
            cases hp
        · exact ih hy
      | finalize hr hs hv =>
        obtain ⟨y, hy, ⟨hid, rfl⟩ | ⟨_, rfl⟩⟩ := Journal.mem_mark.mp hx
        · obtain ⟨e₀, he₀, s, rfl, _, _, _⟩ := ih hy
          obtain ⟨z, hz, hzid, hw⟩ := hwfb.source _ hr _ hs
          rw [hwfb.eq_of_id hz hy (hzid.trans hid.symm), Entry.mark_kind] at hw
          refine ⟨e₀, he₀, _, rfl, fun _ => rfl, fun _ => rfl, fun hroll => ?_⟩
          rw [hw] at hroll
          cases hroll
        · exact ih hy
    · cases hstep with
      | audit he hw hv hlost =>
        obtain ⟨y, hy, ⟨hid, rfl⟩ | ⟨_, rfl⟩⟩ := Journal.mem_mark.mp hx
        · have hye := hwfb.eq_of_id hy he hid
          subst hye
          obtain ⟨e₀, he₀, s, rfl, _, hclosed, _⟩ := ih hy
          refine ⟨e₀, he₀, _, rfl, fun _ => rfl, fun h₀ => ?_, fun hroll => ?_⟩
          · rw [Entry.mark_tx_state, hclosed h₀] at hv
            cases hv
          · rw [Entry.mark_kind, hroll] at hw
            cases hw
        · exact ih hy

theorem Entry.Decided.recovering {path : Path} {e x : Entry Bytes} (h : e.Decided J)
    (hr : Recovering i path J J') (hwf : J.Wf) (he : e ∈ J.entries) (hx : x ∈ J'.entries)
    (hid : x.receipt_id = e.receipt_id) : x.Decided J' := by
  obtain ⟨y, hy, s, rfl, hcomplete, _, hkeep⟩ := hr.entry hwf hx
  have hye := hwf.eq_of_id hy he hid
  subst hye
  refine ⟨hcomplete h.complete, fun id hsource hv z hz hzid => ?_⟩
  have hroll : y.kind.isWrite = false := by
    cases hk : y.kind with
    | write =>
      rw [Entry.mark_kind, hk] at hsource
      cases hsource
    | rollback => rfl
  have hs := hkeep hroll h.complete
  rw [Entry.mark_tx_state, hs] at hv
  obtain ⟨z₀, hz₀, s', rfl, _, hclosed, _⟩ := hr.entry hwf hz
  exact hclosed (h.closed id hsource hv z₀ hz₀ hzid)

/-- Deciding a receipt decides it. -/
theorem Journal.decide_decided (hwf : J.Wf) {e x : Entry Bytes} (he : e ∈ J.entries)
    (hx : x ∈ (J.decide e).entries) (hid : x.receipt_id = e.receipt_id) :
    x.Decided (J.decide e) := by
  have hmark : ∀ {s : TxState} {y : Entry Bytes}, y ∈ (J.mark e.receipt_id s).entries →
      y.receipt_id = e.receipt_id → y = e.mark s := by
    intro s y hy hyid
    obtain ⟨z, hz, ⟨hzid, rfl⟩ | ⟨hzid, rfl⟩⟩ := Journal.mem_mark.mp hy
    · rw [hwf.eq_of_id hz he hzid]
    · exact absurd hyid hzid
  unfold Journal.decide at hx ⊢
  split at hx
  · rename_i hp
    rw [if_pos hp]
    unfold Journal.settle at hx ⊢
    cases hk : e.kind with
    | write prev pre post backup =>
      simp only [hk] at hx ⊢
      have hxe := hmark hx hid
      subst hxe
      refine ⟨e.settled_complete _, fun id hsource => ?_⟩
      rw [Entry.mark_kind, hk] at hsource
      cases hsource
    | rollback source expected restored =>
      cases hset : e.settled J.current with
      | VERIFIED =>
        simp only [hk, hset] at hx ⊢
        obtain ⟨y, hy, ⟨hyid, rfl⟩ | ⟨hyid, rfl⟩⟩ := Journal.mem_mark.mp hx
        · have hye := hmark hy hid
          subst hye
          exact ⟨rfl, fun _ _ h => by cases h⟩
        · have hye := hmark hy hid
          subst hye
          refine ⟨rfl, fun id hsource _ s hs hsid => ?_⟩
          rw [Entry.mark_kind, hk] at hsource
          cases hsource
          obtain ⟨z, hz, ⟨_, rfl⟩ | ⟨hzid, rfl⟩⟩ := Journal.mem_mark.mp hs
          · rfl
          · exact absurd hsid hzid
      | _ =>
        simp only [hk, hset] at hx ⊢
        have hxe := hmark hx hid
        subst hxe
        refine ⟨by rw [Entry.mark_tx_state, ← hset]; exact e.settled_complete _, fun _ _ h => ?_⟩
        cases h
  · rename_i hp
    rw [if_neg hp]
    have hcomplete : e.tx_state.incomplete = false := by simpa using hp
    split at hx
    · rename_i hv
      rw [if_pos hv]
      cases hk : e.kind with
      | write prev pre post backup =>
        simp only [hk] at hx ⊢
        split at hx
        · rename_i hok
          rw [if_pos hok]
          have hxe := hwf.eq_of_id hx he hid
          subst hxe
          refine ⟨hcomplete, fun id hsource => ?_⟩
          rw [hk] at hsource
          cases hsource
        · have hxe := hmark hx hid
          subst hxe
          exact ⟨rfl, fun _ _ h => by cases h⟩
      | rollback source expected restored =>
        simp only [hk] at hx ⊢
        obtain ⟨y, hy, ⟨hyid, rfl⟩ | ⟨hyid, rfl⟩⟩ := Journal.mem_mark.mp hx
        · exact ⟨rfl, fun _ _ h => by cases h⟩
        · have hye := hwf.eq_of_id hy he hid
          subst hye
          refine ⟨hcomplete, fun id hsource _ s hs hsid => ?_⟩
          rw [hk] at hsource
          cases hsource
          obtain ⟨z, hz, ⟨_, rfl⟩ | ⟨hzid, rfl⟩⟩ := Journal.mem_mark.mp hs
          · rfl
          · exact absurd hsid hzid
    · rename_i hv
      rw [if_neg hv]
      have hxe := hwf.eq_of_id hx he hid
      subst hxe
      exact ⟨hcomplete, fun _ _ h => absurd h hv⟩

section Decide

variable (hstep : ∀ J J', Inv J → Step i t.path .settle J J' → Inv J')
  (haudit : ∀ J J', Inv J → Step i t.path .audit J J' → Inv J')
include hstep haudit

/-- One recovery decision on a receipt of the locked target. -/
theorem critical_decide_locked {e : Entry Bytes} {Q : Except Err Outcome → World Bytes → Prop}
    (hat : J.At owner t w) (hJ : Inv J) (he : e ∈ J.entries)
    (h : ∀ w' outcome, Later store i w w' → (J.decide e).At owner t w' → Q (.ok outcome) w') :
    critical owner i t Inv (store.decide_locked (store.receipt_path e.receipt_id)) Q w := by
  have hJ' : Inv (J.decide e) := (Journal.decide_recovering he).preserves hstep haudit hJ
  refine wp_seq.mpr (wp_attempt.mpr (critical_read_validated hat (hat.known he)
    fun w₁ r hw₁ hat₁ hseen => ?_))
  have hr := hseen.own hat.wf he rfl
  subst hr
  have hlater : ∀ w' outcome, Later store i w₁ w' → (J.decide e).At owner t w' →
      Q (.ok outcome) w' := fun w' outcome hw' => h w' outcome (hw₁.trans hw')
  clear h
  simp only [onResult_ok, Entry.receipt_tx_state]
  cases hs : e.tx_state with
  | PREPARED | APPLIED =>
    have hp : e.tx_state.incomplete = true := by rw [hs]; rfl
    have hdecide : J.decide e = J.settle e := by
      unfold Journal.decide
      rw [if_pos hp]
    rw [hdecide] at hlater
    simp only [← hs]
    exact critical_reconcile_one hstep hat₁ hJ he hp fun w₂ hw₂ hat₂ => hlater w₂ _ hw₂ hat₂
  | VERIFIED =>
    cases hk : e.kind with
    | write prev pre post backup =>
      have hop : (e.receipt t).original_operation = .FS_WRITE := by simp [hk, Kind.operation]
      have hdecide : J.decide e =
          if e.backup_ok then J else J.mark e.receipt_id .RECOVERY_REQUIRED := by
        simp only [Journal.decide, hs, hk, if_true]
        rfl
      simp only [RecoveryStore.audit_verified, hop]
      refine wp_seq.mpr (critical_backup_ok hat₁ he (by rw [hk]; rfl) fun w₂ hw₂ hat₂ => ?_)
      simp only [onResult_ok]
      split
      · rename_i hok
        rw [hdecide, if_pos hok] at hlater
        exact hlater w₂ _ hw₂ hat₂
      · rename_i hok
        rw [hdecide, if_neg hok] at hlater hJ'
        exact critical_mark_receipt hat₂ he hJ' fun w₃ hw₃ hat₃ =>
          hlater w₃ _ (hw₂.trans hw₃) hat₃
    | rollback source expected restored =>
      have hop : (e.receipt t).original_operation = .ROLLBACK := by simp [hk, Kind.operation]
      have hsource : textOf (e.receipt t).rollback_of = source := by
        simp [Entry.receipt, Entry.details, hk, textOf, Val.text]
      have hdecide : J.decide e = J.mark source .ROLLED_BACK := by
        simp only [Journal.decide, hs, hk, if_true]
        rfl
      have hsame : J.mark e.receipt_id .VERIFIED = J := by
        have hlist : J.entries.map (fun x => if x.receipt_id = e.receipt_id
            then x.mark .VERIFIED else x) = J.entries := by
          refine (List.map_congr_left fun x hx => ?_).trans (List.map_id J.entries)
          split
          · rename_i hid
            rw [hat.wf.eq_of_id hx he hid, ← hs, Entry.mark_self]
            rfl
          · rfl
        simp only [Journal.mark, Journal.update, hlist]
      rw [hdecide] at hlater hJ'
      simp only [RecoveryStore.audit_verified, hop]
      refine wp_seq.mpr ?_
      rw [hsource]
      refine critical_finalize_rollback hat₁ he (by rw [hk]; rfl) rfl ?_ ?_ fun w₂ hw₂ hat₂ => ?_
      · rwa [hsame]
      · rwa [hsame]
      · rw [hsame] at hat₂
        exact hlater w₂ _ hw₂ hat₂
  | RECOVERED_UNAPPLIED | ROLLED_BACK | SUPERSEDED | RECOVERY_REQUIRED =>
    have hdecide : J.decide e = J := by
      simp only [Journal.decide, hs]
      rfl
    rw [hdecide] at hlater
    exact hlater w₁ _ (.refl w₁) hat₁

end Decide

end jvc.recovery
