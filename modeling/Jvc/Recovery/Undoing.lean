import Jvc.Recovery.Supersede
import Jvc.Recovery.Writing

open program program.Prog

namespace jvc.recovery

variable {Bytes : Type} [Text] [Host Bytes] {store : RecoveryStore} {owner : Option Pid} {i : Pid}
  {t : Target store} {Inv : Journal Bytes → Prop} {J : Journal Bytes} {w w' : World Bytes}

namespace Journal

/-- The receipt a rollback of `s` opens with. -/
structure Intends (J : Journal Bytes) (p : ProjectId) (post : String) (r s : Entry Bytes) :
    Prop where
  project : r.project_id = p
  kind : r.kind = .rollback s.receipt_id post none
  state : r.tx_state = .PREPARED
  fresh : ∀ x ∈ J.entries, x.receipt_id ≠ r.receipt_id
  current : J.current = some post
  head : J.TheHead p.text post s
  clear : ¬ J.Points p.text TxState.blocking s.receipt_id

/-- The journal after a rollback that went through. -/
def undone (J : Journal Bytes) (i : Pid) (t : Path) (r s : Entry Bytes) : Journal Bytes where
  entries := r.verified ((s.kind.before.map sha256_bytes).getD "__ABSENT__") ::
    (J.mark s.receipt_id .ROLLED_BACK).entries
  target := s.kind.before
  log := ⟨i, t, J.target, s.kind.before, none⟩ :: J.log

theorem Intends.source {p : ProjectId} {post : String} {r s : Entry Bytes}
    (h : J.Intends p post r s) : s ∈ J.entries := h.head.1.1.1

theorem Intends.source_write {p : ProjectId} {post : String} {r s : Entry Bytes}
    (h : J.Intends p post r s) : s.kind.isWrite = true := h.head.1.1.2.2.1

theorem Intends.source_state {p : ProjectId} {post : String} {r s : Entry Bytes}
    (h : J.Intends p post r s) : s.tx_state = .VERIFIED := h.head.1.1.2.2.2.1

end Journal

/-- The action a rollback of `s` reports. -/
def Entry.undoing (s : Entry Bytes) : RollbackAction :=
  match s.kind.before with
  | none => .deleted
  | some data => .restored (sha256_bytes data)

omit [Text] [Host Bytes] in
theorem Entry.applied_rollback {e : Entry Bytes} {source expected : String}
    {restored : Option String} (hk : e.kind = .rollback source expected restored) (text : String) :
    e.applied text =
      { e with tx_state := .APPLIED, kind := .rollback source expected (some text) } := by
  simp only [Entry.applied, hk]

theorem Entry.dict_intended {p : ProjectId} {post : String} {r s : Entry Bytes}
    (h : J.Intends p post r s) :
    RecoveryStore.preparedRollback r.receipt_id p.text t.path s.receipt_id post r.seq =
      (r.receipt t).dict := by
  have hkind := h.kind
  have hstate := h.state
  have hproject := h.project
  simp only [RecoveryStore.preparedRollback, Receipt.dict, Entry.receipt, Entry.details, hkind,
    hstate, hproject, Kind.operation, Kind.preimage_exists, RecoveryStore.optStr]
  rfl

/-- The steps of a rollback, once its intent is recorded, end in `undone`. -/
theorem Journal.undone_eq {p : ProjectId} {post : String} {r s : Entry Bytes}
    (h : J.Intends p post r s) (pid : Pid) (path : Path) :
    (((((J.add r).change pid path s.kind.before none).update r.receipt_id fun x => x.applied
      ((s.kind.before.map sha256_bytes).getD "__ABSENT__")).mark r.receipt_id .VERIFIED).mark
        s.receipt_id .ROLLED_BACK) = J.undone pid path r s := by
  have hne : r.receipt_id ≠ s.receipt_id := (h.fresh s h.source).symm
  have hfresh : ∀ x ∈ J.entries, x.receipt_id ≠ r.receipt_id := h.fresh
  have hrest : ∀ f : Entry Bytes → Entry Bytes,
      (J.entries.map fun x => if x.receipt_id = r.receipt_id then f x else x) = J.entries := by
    intro f
    refine (List.map_congr_left fun x hx => ?_).trans (List.map_id J.entries)
    rw [if_neg (hfresh x hx)]
    rfl
  simp only [Journal.undone, Journal.mark, Journal.update, Journal.change, Journal.add,
    List.map_cons, hrest, Entry.applied_receipt_id, Entry.mark_receipt_id, if_true, if_neg hne,
    Entry.verified]

/-- A rollback whose backup is lost changes no target and blocks it. -/
theorem critical_abandon_rollback {p : ProjectId} {post message : String} {r s : Entry Bytes}
    {α : Type} {Q : Except Err α → World Bytes → Prop}
    (hundo : ∀ J J', Inv J → Step i t.path .undo J J' → Inv J') (hint : J.Intends p post r s)
    (hlost : s.backup_ok = false) (hat : (J.add r).At owner t w) (hJ : Inv (J.add r))
    (h : ∀ w' err, ((J.add r).mark r.receipt_id .RECOVERY_REQUIRED).At owner t w' →
      Inv ((J.add r).mark r.receipt_id .RECOVERY_REQUIRED) → err.isRecoveryRequired = false →
        Q (.error err) w') :
    critical owner i t Inv (store.abandon_rollback r.receipt_id
      (RecoveryStore.preparedRollback r.receipt_id p.text t.path s.receipt_id post r.seq)
      message) Q w := by
  have hmem : r ∈ (J.add r).entries := List.mem_cons_self
  have hJ₁ := hundo _ _ hJ (.abandon rfl hint.source hint.kind hint.state hlost)
  rw [Entry.dict_intended hint]
  refine wp_seq.mpr (critical_mark hat hmem rfl hJ₁ fun w₁ _ hat₁ => ?_)
  exact h w₁ _ hat₁ hJ₁ rfl

section Apply

variable (hundo : ∀ J J', Inv J → Step i t.path .undo J J' → Inv J')
include hundo

/-- The journal entries of a finished rollback. -/
theorem critical_complete_rollback {p : ProjectId} {post text : String} {r s : Entry Bytes}
    {Q : Except Err Unit → World Bytes → Prop} (hint : J.Intends p post r s)
    (hbackup : s.backup_ok = true)
    (htext : text = (s.kind.before.map sha256_bytes).getD "__ABSENT__")
    (hat : ((J.add r).change i t.path s.kind.before none).At owner t w)
    (hJ : Inv ((J.add r).change i t.path s.kind.before none))
    (h : ∀ w', (J.undone i t.path r s).At owner t w' → Inv (J.undone i t.path r s) →
      Q (.ok ()) w') :
    critical owner i t Inv (store.complete_rollback r.receipt_id
      (RecoveryStore.preparedRollback r.receipt_id p.text t.path s.receipt_id post r.seq)
      text s.receipt_id) Q w := by
  have hkind := hint.kind
  have hmem : r ∈ ((J.add r).change i t.path s.kind.before none).entries := List.mem_cons_self
  have hrestored : ((J.add r).change i t.path s.kind.before none).restoredText = text := by
    rw [htext]
    rfl
  have hone : Step i t.path .undo ((J.add r).change i t.path s.kind.before none)
      (((J.add r).change i t.path s.kind.before none).update r.receipt_id fun x =>
        x.applied text) := by
    rw [← hrestored]
    exact .restored rfl hint.source hkind hint.state hint.source_state rfl hbackup
  have hJ₁ := hundo _ _ hJ hone
  have happlied : { (r.receipt t).dict with
      restored_sha256 := some (.str text)
      tx_state := some (.str TxState.APPLIED.value) } = ((r.applied text).receipt t).dict := by
    rw [Entry.applied_rollback hkind]
    simp only [Receipt.dict, Entry.receipt, Entry.details, hkind, Kind.operation,
      Kind.preimage_exists, RecoveryStore.optStr, Entry.receipt_id, Kind.name]
    rfl
  have hhead₁ : (((J.add r).change i t.path s.kind.before none).update r.receipt_id
      fun x => x.applied text).entries = r.applied text :: J.entries :=
    Journal.update_head rfl hint.fresh _
  have hkind₁ : (r.applied text).kind = .rollback s.receipt_id post (some text) := by
    rw [Entry.applied_rollback hkind]
  have hmem₁ : r.applied text ∈ (((J.add r).change i t.path s.kind.before none).update r.receipt_id
      fun x => x.applied text).entries := by
    rw [hhead₁]
    exact List.mem_cons_self
  have htwo : Step i t.path .undo
      (((J.add r).change i t.path s.kind.before none).update r.receipt_id fun x => x.applied text)
      ((((J.add r).change i t.path s.kind.before none).update r.receipt_id
        fun x => x.applied text).mark (r.applied text).receipt_id .VERIFIED) :=
    .confirm hhead₁ hkind₁ hrestored (Entry.applied_tx_state r text)
  rw [Entry.applied_receipt_id] at htwo
  have hJ₂ := hundo _ _ hJ₁ htwo
  have hhead₂ : ((((J.add r).change i t.path s.kind.before none).update r.receipt_id
      fun x => x.applied text).mark r.receipt_id .VERIFIED).entries =
        (r.applied text).mark .VERIFIED :: J.entries := by
    have hhead := Journal.update_head hhead₁ (fun x hx => ?_) fun x => x.mark .VERIFIED
    · rw [Entry.applied_receipt_id] at hhead
      exact hhead
    · rw [Entry.applied_receipt_id]
      exact hint.fresh x hx
  have hsource : ((r.applied text).mark .VERIFIED).kind.source = some s.receipt_id := by
    rw [Entry.mark_kind, hkind₁]
    rfl
  have hthree := Step.close (i := i) (t := t.path) hhead₂ hsource rfl
  have hJ₃ := hundo _ _ hJ₂ hthree
  have hfinal := Journal.undone_eq hint i t.path
  rw [← htext] at hfinal
  have hprog : store.complete_rollback r.receipt_id
      (RecoveryStore.preparedRollback r.receipt_id p.text t.path s.receipt_id post r.seq) text
        s.receipt_id = (do
      atomic_write_json (store.receipt_path r.receipt_id) ((r.applied text).receipt t).dict
      store.finalize_rollback (store.receipt_path (r.applied text).receipt_id)
        ((r.applied text).receipt t).dict s.receipt_id : Jvc Bytes Unit) := by
    rw [Entry.dict_intended hint, Entry.applied_receipt_id]
    simp only [RecoveryStore.complete_rollback, happlied]
  rw [hprog]
  refine wp_seq.mpr (critical_rewrite hat hmem (Journal.keeps_applied text) rfl hJ₁
    fun w₁ hw₁ hat₁ => ?_)
  refine critical_finalize_rollback hat₁ hmem₁ hsource rfl ?_ ?_ fun w₂ hw₂ hat₂ => ?_
  · rw [Entry.applied_receipt_id]
    exact hJ₂
  · rw [Entry.applied_receipt_id]
    exact hJ₃
  · rw [Entry.applied_receipt_id, hfinal] at hat₂
    rw [hfinal] at hJ₃
    exact h w₂ hat₂ hJ₃

omit hundo in
theorem Journal.Intends.undo {p : ProjectId} {post : String} {r s : Entry Bytes}
    (hint : J.Intends p post r s) (hbackup : s.backup_ok = true) :
    Step i t.path .undo (J.add r) ((J.add r).change i t.path s.kind.before none) :=
  .restore rfl hint.source hint.kind hint.state hint.source_state hint.current hbackup

/-- A target that was absent is deleted again. -/
theorem critical_delete {p : ProjectId} {post : String} {r s : Entry Bytes}
    {Q : Except Err RollbackResult → World Bytes → Prop} (hint : J.Intends p post r s)
    (hpre : s.kind.pre = none) (hat : (J.add r).At owner t w) (hJ : Inv (J.add r))
    (hok : ∀ w', (J.undone i t.path r s).At owner t w' → Inv (J.undone i t.path r s) →
      s.backup_ok = true → Q (.ok ⟨s.receipt_id, r.receipt_id, t.path, s.undoing⟩) w') :
    critical owner i t Inv (do
      unlink t.path
      store.complete_rollback r.receipt_id (RecoveryStore.preparedRollback r.receipt_id p.text t.path
        s.receipt_id post r.seq) "__ABSENT__" s.receipt_id
      pure ⟨s.receipt_id, r.receipt_id, t.path, .deleted⟩) Q w := by
  have hbefore : s.kind.before = none := by rw [Kind.before, hpre, Option.bind_none]
  have hbackup : s.backup_ok = true := Entry.backup_ok_absent hpre
  have hundoing : s.undoing = .deleted := by simp [Entry.undoing, hbefore]
  have hJ₁ := hundo _ _ hJ (hint.undo hbackup)
  rw [hundoing] at hok
  refine wp_seq.mpr (critical_unlink hat ?_ fun w₁ _ hat₁ => ?_)
  · rw [← hbefore]
    exact hJ₁
  rw [← hbefore] at hat₁
  refine wp_seq.mpr (critical_complete_rollback hundo hint hbackup ?_ hat₁ hJ₁
    fun w₂ hat₂ hJ₂ => ?_)
  · rw [hbefore]
    rfl
  · exact hok w₂ hat₂ hJ₂ hbackup

/-- A backup that has the recorded preimage is written to the target. -/
theorem critical_put_back {p : ProjectId} {post : String} {r s : Entry Bytes} {data : Bytes}
    {Q : Except Err RollbackResult → World Bytes → Prop} {message : String → String}
    (hint : J.Intends p post r s) (hpre : s.kind.pre = some (sha256_bytes data))
    (hdata : s.kind.backup = some data) (hat : (J.add r).At owner t w) (hJ : Inv (J.add r))
    (hok : ∀ w', (J.undone i t.path r s).At owner t w' → Inv (J.undone i t.path r s) →
      s.backup_ok = true → Q (.ok ⟨s.receipt_id, r.receipt_id, t.path, s.undoing⟩) w') :
    critical owner i t Inv (do
      let backup_data ← read_bytes (store.backup_path s.receipt_id)
      durable_write_bytes t.path backup_data
      let final_hash ← sha256_file t.path
      if Val.str (sha256_bytes data) != .str final_hash then
        store.abandon_rollback r.receipt_id (RecoveryStore.preparedRollback r.receipt_id p.text
          t.path s.receipt_id post r.seq) (message final_hash)
      else
        store.complete_rollback r.receipt_id (RecoveryStore.preparedRollback r.receipt_id p.text
          t.path s.receipt_id post r.seq) final_hash s.receipt_id
        pure ⟨s.receipt_id, r.receipt_id, t.path, .restored final_hash⟩) Q w := by
  have hsmem : s ∈ (J.add r).entries := List.mem_cons_of_mem _ hint.source
  have hw := hint.source_write
  have hbefore : s.kind.before = some data := by
    rw [Kind.before, hpre, Option.bind_some, hdata]
  have hbackup : s.backup_ok = true := by
    rw [Entry.backup_ok_held hpre hdata]
    exact beq_self_eq_true _
  have hundoing : s.undoing = .restored (sha256_bytes data) := by
    simp [Entry.undoing, hbefore]
  have hJ₁ := hundo _ _ hJ (hint.undo hbackup)
  rw [hundoing] at hok
  refine wp_seq.mpr (wp_read_bytes (fun w₁ found hw₁ hfound => ?_) fun w₁ err hw₁ hnone _ => ?_)
  · have hat₁ := hw₁.view _ hat
    rw [hat₁.backup s hsmem hw, hdata] at hfound
    cases hfound
    refine wp_seq.mpr (critical_write_target hat₁ ?_ fun w₂ _ hat₂ => ?_)
    · rw [← hbefore]
      exact hJ₁
    refine wp_seq.mpr (wp_sha256_file (fun w₃ found hw₃ hfound => ?_)
      fun w₃ err hw₃ hnone _ => ?_)
    · have hat₃ := hw₃.view _ hat₂
      rw [hat₃.target] at hfound
      cases hfound
      rw [← hbefore] at hat₃
      simp only [onResult_ok, bne_self_eq_false, Bool.false_eq_true, if_false]
      refine wp_seq.mpr (critical_complete_rollback hundo hint hbackup ?_ hat₃ hJ₁
        fun w₄ hat₄ hJ₄ => ?_)
      · rw [hbefore]
        rfl
      · exact hok w₄ hat₄ hJ₄ hbackup
    · rw [(hw₃.view _ hat₂).target] at hnone
      cases hnone
  · rw [(hw₁.view _ hat).backup s hsmem hw, hdata] at hnone
    cases hnone

/-- The target of a rollback whose intent is recorded gets its old bytes back,
unless the backup is lost. -/
theorem critical_restore {p : ProjectId} {post : String} {r s : Entry Bytes}
    {Q : Except Err RollbackResult → World Bytes → Prop} (hint : J.Intends p post r s)
    (hat : (J.add r).At owner t w) (hJ : Inv (J.add r))
    (hok : ∀ w', (J.undone i t.path r s).At owner t w' → Inv (J.undone i t.path r s) →
      s.backup_ok = true → Q (.ok ⟨s.receipt_id, r.receipt_id, t.path, s.undoing⟩) w')
    (herror : ∀ w' err, ((J.add r).mark r.receipt_id .RECOVERY_REQUIRED).At owner t w' →
      Inv ((J.add r).mark r.receipt_id .RECOVERY_REQUIRED) → err.isRecoveryRequired = false →
        s.backup_ok = false → Q (.error err) w') :
    critical owner i t Inv (do
      let rb_receipt := RecoveryStore.preparedRollback r.receipt_id p.text t.path s.receipt_id
        post r.seq
      if !(s.receipt t).preimage_exists then
        unlink t.path
        store.complete_rollback r.receipt_id rb_receipt "__ABSENT__" s.receipt_id
        pure ⟨s.receipt_id, r.receipt_id, t.path, .deleted⟩
      else store.restore_backup r.receipt_id rb_receipt t.path (s.receipt t)) Q w := by
  have hsmem : s ∈ (J.add r).entries := List.mem_cons_of_mem _ hint.source
  have hw := hint.source_write
  have hexists : (s.receipt t).preimage_exists = s.kind.pre.isSome := Kind.preimage_exists_write hw
  cases hpre : s.kind.pre with
  | none =>
    rw [hpre] at hexists
    simp only [hexists, Option.isSome_none, Bool.not_false, if_true]
    exact critical_delete hundo hint hpre hat hJ hok
  | some pre =>
    rw [hpre] at hexists
    have hfile : located Bytes (textOf (s.receipt t).backup_file) = store.backup_path s.receipt_id := by
      rw [Entry.receipt_backup t hpre]
      exact s.located_backup
    simp only [hexists, Option.isSome_some, Bool.not_true, Bool.false_eq_true, if_false,
      RecoveryStore.restore_backup, hfile, Entry.receipt_pre t hpre, Entry.receipt_receipt_id]
    refine wp_seq.mpr (wp_is_file fun w₁ hw₁ => ?_)
    have hat₁ := hw₁.view _ hat
    rw [hat₁.backup s hsmem hw]
    cases hdata : s.kind.backup with
    | none =>
      have hlost := Entry.backup_ok_lost hpre hdata
      exact critical_abandon_rollback hundo hint hlost hat₁ hJ
        fun w₂ err hat₂ hJ₂ herr => herror w₂ err hat₂ hJ₂ herr hlost
    | some data =>
      simp only [onResult_ok, Option.isSome_some, if_true]
      refine wp_seq.mpr (wp_sha256_file (fun w₂ found hw₂ hfound => ?_)
        fun w₂ err hw₂ hnone _ => ?_)
      · have hat₂ := hw₂.view _ hat₁
        rw [hat₂.backup s hsmem hw, hdata] at hfound
        cases hfound
        simp only [onResult_ok]
        split
        · rename_i hne
          have hlost : s.backup_ok = false := by
            rw [Entry.backup_ok_held hpre hdata]
            simp only [bne_iff_ne, ne_eq, Val.str.injEq] at hne
            simpa using fun heq => hne heq.symm
          exact critical_abandon_rollback hundo hint hlost hat₂ hJ
            fun w₃ err hat₃ hJ₃ herr => herror w₃ err hat₃ hJ₃ herr hlost
        · rename_i heq
          have hsame : pre = sha256_bytes data := by simpa using heq
          subst hsame
          exact critical_put_back hundo hint hpre hdata hat₂ hJ hok
      · rw [(hw₂.view _ hat₁).backup s hsmem hw, hdata] at hnone
        cases hnone

omit hundo in
/-- One receipt is undone under a fresh rollback receipt; what holds from the intent
on may be more than what holds before. -/
theorem critical_apply_rollback_from {Inv₁ : Journal Bytes → Prop} {p : ProjectId} {post : String}
    {s : Entry Bytes} {Q : Except Err RollbackResult → World Bytes → Prop}
    (hsub : ∀ J, Inv₁ J → Inv J) (hundo : ∀ J J', Inv₁ J → Step i t.path .undo J J' → Inv₁ J')
    (hintend : ∀ r, J.Intends p post r s → Step i t.path (.intend p) J (J.add r) → Inv₁ (J.add r))
    (hat : J.At owner t w) (hJ : Inv J)
    (hsettled : J.Settled p.text) (hcurrent : J.current = some post)
    (hhead : J.TheHead p.text post s) (hclear : ¬ J.Points p.text TxState.blocking s.receipt_id)
    (hok : ∀ w' r, (J.undone i t.path r s).At owner t w' → Inv₁ (J.undone i t.path r s) →
      J.Intends p post r s → s.backup_ok = true →
        Q (.ok ⟨s.receipt_id, r.receipt_id, t.path, s.undoing⟩) w')
    (hrepeat : ∀ w' err, J.At owner t w' → Unallocated err w' → Q (.error err) w')
    (hlost : ∀ w' r err, ((J.add r).mark r.receipt_id .RECOVERY_REQUIRED).At owner t w' →
      Inv₁ ((J.add r).mark r.receipt_id .RECOVERY_REQUIRED) → J.Intends p post r s →
        err.isRecoveryRequired = false → s.backup_ok = false → Q (.error err) w') :
    critical owner i t Inv (store.apply_rollback p.text t.path post (s.receipt t)) Q w := by
  refine wp_seq.mpr (critical_allocate hat hJ (fun h => absurd h (by decide))
    (fun w₁ stamp hw₁ hat₁ hres₁ => ?_) fun w₁ err hw₁ hat₁ hno => hrepeat w₁ err hat₁ hno)
  refine wp_seq.mpr (critical_time_ns hat₁ hJ fun w₂ n hw₂ hat₂ => ?_)
  have hres₂ := hw₂.reserved _ _ _ hres₁
  let r : Entry Bytes := ⟨p, stamp, n, .PREPARED, .rollback s.receipt_id post none⟩
  have hid : r.receipt_id = "rollback" ++ "-" ++ p.text ++ "-" ++ stamp.text := rfl
  have hfresh : ∀ x ∈ J.entries, x.receipt_id ≠ r.receipt_id := by
    intro x hx
    rw [hid]
    exact hres₂.fresh hat₂ x hx
  have hnotin : r.receipt_id ∉ J.entries.map Entry.receipt_id := by
    rintro hmem
    obtain ⟨x, hx, hxid⟩ := List.mem_map.mp hmem
    exact hfresh x hx hxid
  have hint : J.Intends p post r s := ⟨rfl, rfl, rfl, hfresh, hcurrent, hhead, hclear⟩
  have hwrite : s.kind.isWrite = true := hint.source_write
  have hJ₁ : Inv₁ (J.add r) :=
    hintend r hint (.intend hnotin rfl rfl hcurrent hsettled hhead hclear)
  have hwf : (J.add r).Wf := by
    refine hat₂.wf.add hnotin fun id hsource => ⟨s, hint.source, ?_, hwrite⟩
    cases hsource
    rfl
  rw [← hid]
  simp only [onResult_ok]
  refine wp_seq.mpr (critical_record (e := r) hat₂ hid hres₂ (fun h => by cases h) (fun _ => hwf)
    (Entry.dict_intended hint) (hat.fits s hint.source) (fun _ => hsub _ hJ₁) fun w₃ _ hat₃ => ?_)
  exact critical_mono hsub (critical_restore hundo hint hat₃ hJ₁
    (fun w' hat' hJ' => hok w' r hat' hJ' hint)
    fun w' err hat' hJ' herr hbad => hlost w' r err hat' hJ' hint herr hbad)

end Apply

/-- Why a rollback raises, and the journal it leaves. -/
inductive RollbackDenied (i : Pid) (t : Path) (p : ProjectId) (expected : String)
    (J : Journal Bytes) (w : World Bytes) : Err → Journal Bytes → Prop
  | stale {err : Err} (hcurrent : J.current ≠ some (strip (Text.upper expected)))
      (herr : err.isRecoveryRequired = false) : RollbackDenied i t p expected J w err J
  | pending {err : Err} {J' : Journal Bytes} (hover : Overtaking i t J J')
      (hunresolved : ¬ J.Resolvable p.text) (herr : err.isRecoveryRequired = true) :
      RollbackDenied i t p expected J w err J'
  | headless {err : Err} {J' : Journal Bytes} {post : String} (hover : Overtaking i t J J')
      (hsettled : J'.Settled p.text) (hcurrent : J.current = some post)
      (hhead : ∀ e, J'.TheHead p.text post e → J'.Points p.text TxState.blocking e.receipt_id) :
      RollbackDenied i t p expected J w err J'
  | repeated {err : Err} {J' : Journal Bytes} (hover : Overtaking i t J J')
      (hsettled : J'.Settled p.text) (hrepeat : Unallocated err w) :
      RollbackDenied i t p expected J w err J'

/-- What a rollback that goes through has found. -/
structure RolledBack (i : Pid) (t : Path) (p : ProjectId) (expected : String)
    (J J' : Journal Bytes) (r s : Entry Bytes) : Prop where
  overtaking : Overtaking i t J J'
  settled : J'.Settled p.text
  required : ∀ x ∈ J'.entries, x.tx_state = .RECOVERY_REQUIRED → x ∈ J.entries
  intent : J'.Intends p (strip (Text.upper expected)) r s
  backup : s.backup_ok = true

/-- The receipt that a rollback of the target undoes, and the digest of its content:
the checks, the settling of pending receipts and the choice of the head. -/
def RecoveryStore.rollback_source (store : RecoveryStore) (project_id : String) (target : Path)
    (expected_postimage_sha256 : String) : Jvc Bytes (String × Receipt) := do
  let corrupt ← store.corrupt_receipt_files
  raiseIf (!corrupt.isEmpty) (.RecoveryRequiredError
    s!"corrupt recovery journal blocks rollback of {target}: repair or remove {first corrupt} and re-run recovery first")
  let present ← stat target target
  raiseIf (!present) (.RecoveryError s!"rollback target missing: {target}")
  let current_hash ← sha256_file target
  raiseIf (current_hash != strip (Text.upper expected_postimage_sha256))
    (.RecoveryError
      s!"stale postimage on rollback target: expected {expected_postimage_sha256}, observed {current_hash}")
  let _ ← store.supersede_pending project_id target
  match ← store.find_latest_receipt project_id target current_hash with
  | none =>
    throw (.RecoveryError
      s!"no matching governed recovery receipt for {target} with postimage {current_hash}")
  | some receipt => pure (current_hash, receipt)

theorem RecoveryStore.rollback_eq (project_id : String) (target : Path) (expected : String) :
    (store.rollback project_id target expected : Jvc Bytes RollbackResult) = (do
      let source ← store.rollback_source project_id target expected
      store.apply_rollback project_id target source.1 source.2) := by
  simp only [rollback, rollback_source, bind_assoc]
  refine bind_congr fun _ => bind_congr fun _ => bind_congr fun _ => bind_congr fun _ => ?_
  refine bind_congr fun _ => bind_congr fun _ => bind_congr fun _ => bind_congr fun receipt => ?_
  cases receipt <;> rfl

/-- A rollback inside the lock up to the receipt it undoes, from what the settling of
pending receipts leaves behind. -/
theorem critical_rollback_source {p : ProjectId} {expected : String}
    (Left : Journal Bytes → Prop) (Denied : Err → Journal Bytes → Prop)
    {Q : Except Err (String × Receipt) → World Bytes → Prop} (hat : J.At owner t w)
    (hpending : ∀ {Q' : Except Err (List String) → World Bytes → Prop} {w₁}, J.At owner t w₁ →
      (∀ w' J' ids, J'.At owner t w' → Left J' → Q' (.ok ids) w') →
        (∀ w' J' err, J'.At owner t w' → Denied err J' → Q' (.error err) w') →
          critical owner i t Inv (store.supersede_pending p.text t.path) Q' w₁)
    (hcurrent : ∀ J', Left J' → J'.current = J.current)
    (hok : ∀ w' J' post s, J'.At owner t w' → Left J' → J'.current = some post →
      post = strip (Text.upper expected) → J'.TheHead p.text post s →
        ¬ J'.Points p.text TxState.blocking s.receipt_id → Q (.ok (post, s.receipt t)) w')
    (hstale : ∀ w' err, J.At owner t w' → J.current ≠ some (strip (Text.upper expected)) →
      err.isRecoveryRequired = false → Q (.error err) w')
    (hdenied : ∀ w' J' err, J'.At owner t w' → Denied err J' → Q (.error err) w')
    (hheadless : ∀ w' J' err post, J'.At owner t w' → Left J' → J.current = some post →
      (∀ e, J'.TheHead p.text post e → J'.Points p.text TxState.blocking e.receipt_id) →
        Q (.error err) w') :
    critical owner i t Inv (store.rollback_source p.text t.path expected) Q w := by
  refine wp_seq.mpr (critical_corrupt_receipt_files hat fun w₁ hw₁ hat₁ => ?_)
  refine wp_seq.mpr (wp_raiseIf.mpr ⟨fun h => (Bool.false_ne_true h).elim, fun _ => ?_⟩)
  refine wp_seq.mpr (wp_stat (fun w₂ hw₂ => ?_) fun w₂ hw₂ hmissing _ => ?_)
  case refine_2 =>
    have hat₂ := hw₂.view J hat₁
    rw [hat₂.target] at hmissing
    refine hstale w₂ _ hat₂ ?_ rfl
    simp [Journal.current, hmissing]
  have hat₂ := hw₂.view J hat₁
  rw [hat₂.target]
  refine wp_seq.mpr (wp_raiseIf.mpr ⟨fun hmissing => ?_, fun hpresent => ?_⟩)
  · refine hstale w₂ _ hat₂ ?_ rfl
    have hnone : J.target = none := by simpa using hmissing
    simp [Journal.current, hnone]
  obtain ⟨data, htarget⟩ : ∃ data, J.target = some data := by
    simpa [Option.isSome_iff_exists] using hpresent
  refine wp_seq.mpr (wp_sha256_file (fun w₃ found hw₃ hfound => ?_) fun w₃ err hw₃ hnone _ => ?_)
  · have hat₃ := hw₃.view J hat₂
    rw [hat₃.target, htarget] at hfound
    cases hfound
    have hdigest : J.current = some (sha256_bytes data) := by simp [Journal.current, htarget]
    rw [onResult_ok, wp_seq, wp_raiseIf]
    refine ⟨fun hne => ?_, fun hfresh => ?_⟩
    · refine hstale w₃ _ hat₃ ?_ rfl
      rw [hdigest]
      simpa using hne
    have hexpected : sha256_bytes data = strip (Text.upper expected) := by simpa using hfresh
    refine wp_seq.mpr (hpending hat₃ (fun w₄ J' ids hat₄ hL => ?_) fun w₄ J' err hat₄ hD =>
      hdenied w₄ J' err hat₄ hD)
    have hpost : strip (Text.upper (sha256_bytes data)) = sha256_bytes data := by simp
    refine wp_seq.mpr (critical_find_latest_receipt hat₄ hpost (fun w₅ hw₅ hat₅ hnocand => ?_)
      (fun w₅ s hw₅ hat₅ hhead hclear => ?_) fun w₅ err hw₅ hat₅ _ hblocked => ?_)
    · refine hheadless w₅ J' _ _ hat₅ hL hdigest fun e he => ?_
      exact absurd he.1.1 (hnocand e)
    · exact hok w₅ J' _ s hat₅ hL ((hcurrent J' hL).trans hdigest) hexpected hhead hclear
    · exact hheadless w₅ J' err _ hat₅ hL hdigest hblocked
  · rw [(hw₃.view J hat₂).target, htarget] at hnone
    cases hnone

/-- A rollback inside the lock, from what the settling of pending receipts leaves
behind. -/
theorem critical_rollback_after {p : ProjectId} {expected : String}
    (Left : Journal Bytes → Prop) (Denied : Err → Journal Bytes → Prop)
    {Q : Except Err RollbackResult → World Bytes → Prop} (hat : J.At owner t w)
    (hpending : ∀ {Q' : Except Err (List String) → World Bytes → Prop} {w₁}, J.At owner t w₁ →
      (∀ w' J' ids, J'.At owner t w' → Left J' → Q' (.ok ids) w') →
        (∀ w' J' err, J'.At owner t w' → Denied err J' → Q' (.error err) w') →
          critical owner i t Inv (store.supersede_pending p.text t.path) Q' w₁)
    (hleft : ∀ J', Left J' → Inv J' ∧ J'.Settled p.text ∧ J'.current = J.current)
    (hintend : ∀ J' J'', Left J' → Step i t.path (.intend p) J' J'' → Inv J'')
    (hundo : ∀ J J', Inv J → Step i t.path .undo J J' → Inv J')
    (hok : ∀ w' J' r s, (J'.undone i t.path r s).At owner t w' → Inv (J'.undone i t.path r s) →
      Left J' → J'.Intends p (strip (Text.upper expected)) r s → s.backup_ok = true →
        Q (.ok ⟨s.receipt_id, r.receipt_id, t.path, s.undoing⟩) w')
    (hlost : ∀ w' J' r s err, ((J'.add r).mark r.receipt_id .RECOVERY_REQUIRED).At owner t w' →
      Inv ((J'.add r).mark r.receipt_id .RECOVERY_REQUIRED) → Left J' →
        J'.Intends p (strip (Text.upper expected)) r s → s.backup_ok = false →
          err.isRecoveryRequired = false → Q (.error err) w')
    (hstale : ∀ w' err, J.At owner t w' → J.current ≠ some (strip (Text.upper expected)) →
      err.isRecoveryRequired = false → Q (.error err) w')
    (hdenied : ∀ w' J' err, J'.At owner t w' → Denied err J' → Q (.error err) w')
    (hheadless : ∀ w' J' err post, J'.At owner t w' → Left J' → J.current = some post →
      (∀ e, J'.TheHead p.text post e → J'.Points p.text TxState.blocking e.receipt_id) →
        Q (.error err) w')
    (hrepeated : ∀ w' J' err, J'.At owner t w' → Left J' → Unallocated err w' →
      Q (.error err) w') :
    critical owner i t Inv (store.rollback p.text t.path expected) Q w := by
  rw [RecoveryStore.rollback_eq]
  refine wp_seq.mpr (critical_rollback_source Left Denied hat hpending (fun J' hL => (hleft J' hL).2.2)
    (fun w' J' post s hat' hL hcurrent hpost hhead hclear => ?_) hstale hdenied hheadless)
  obtain ⟨hJ', hsettled, _⟩ := hleft J' hL
  subst hpost
  exact critical_apply_rollback_from (fun _ h => h) hundo (fun r _ hstep => hintend J' _ hL hstep)
    hat' hJ' hsettled hcurrent hhead hclear
    (fun w₆ r hat₆ hJ₆ hint hbackup => hok w₆ J' r s hat₆ hJ₆ hL hint hbackup)
    (fun w₆ err hat₆ hrepeat => hrepeated w₆ J' err hat₆ hL hrepeat)
    fun w₆ r err hat₆ hJ₆ hint herr hbad => hlost w₆ J' r s err hat₆ hJ₆ hL hint hbad herr

/-- The whole rollback inside the lock. -/
theorem critical_rollback {Inv₀ : Journal Bytes → Prop} {p : ProjectId} {expected : String}
    {Q : Except Err RollbackResult → World Bytes → Prop}
    (hsub : ∀ J, Inv₀ J → Inv J)
    (hstep : ∀ J J', Inv₀ J → Step i t.path .settle J J' → Inv₀ J')
    (hover : ∀ J J', Inv₀ J → Step i t.path .overtake J J' → Inv₀ J')
    (hintend : ∀ J J', Inv₀ J → Step i t.path (.intend p) J J' → Inv J')
    (hundo : ∀ J J', Inv J → Step i t.path .undo J J' → Inv J')
    (hat : J.At owner t w) (hJ : Inv₀ J)
    (hok : ∀ w' J' r s, (J'.undone i t.path r s).At owner t w' → Inv (J'.undone i t.path r s) →
      RolledBack i t.path p expected J J' r s →
        Q (.ok ⟨s.receipt_id, r.receipt_id, t.path, s.undoing⟩) w')
    (hlost : ∀ w' J' r s err, ((J'.add r).mark r.receipt_id .RECOVERY_REQUIRED).At owner t w' →
      Inv ((J'.add r).mark r.receipt_id .RECOVERY_REQUIRED) → Overtaking i t.path J J' →
        J'.Settled p.text → J'.Intends p (strip (Text.upper expected)) r s →
          s.backup_ok = false → err.isRecoveryRequired = false → Q (.error err) w')
    (herror : ∀ w' J' err, J'.At owner t w' → Inv₀ J' →
      RollbackDenied i t.path p expected J w' err J' → Q (.error err) w') :
    critical owner i t Inv (store.rollback p.text t.path expected) Q w := by
  refine critical_rollback_after
    (fun J' => Inv₀ J' ∧ Overtaking i t.path J J' ∧ J'.Settled p.text ∧
      ∀ x ∈ J'.entries, x.tx_state = .RECOVERY_REQUIRED → x ∈ J.entries)
    (fun err J' => Inv₀ J' ∧ Overtaking i t.path J J' ∧ err.isRecoveryRequired = true ∧
      ¬ J.Resolvable p.text) hat
    (fun hat₁ hdone hfailed => ?_) (fun J' hL => ?_) (fun J' J'' hL => hintend J' J'' hL.1) hundo
    (fun w' J' r s hat' hJ' hL hint hbackup => ?_) (fun w' J' r s err hat' hJ' hL hint hbad herr => ?_)
    (fun w' err hat' hne herr => herror w' J err hat' hJ (.stale hne herr))
    (fun w' J' err hat' hD => herror w' J' err hat' hD.1 (.pending hD.2.1 hD.2.2.2 hD.2.2.1))
    (fun w' J' err post hat' hL hcurrent hblocked =>
      herror w' J' err hat' hL.1 (.headless hL.2.1 hL.2.2.1 hcurrent hblocked))
    fun w' J' err hat' hL hrepeat =>
      herror w' J' err hat' hL.1 (.repeated hL.2.1 hL.2.2.1 hrepeat)
  · exact critical_mono hsub (critical_supersede_pending hstep hover hat₁ hJ
      (fun w' J' ids _ hat' hJ' hover' hsettled hreq =>
        hdone w' J' ids hat' ⟨hJ', hover', hsettled, hreq⟩)
      fun w' J' err _ hat' hJ' hover' herr hres => hfailed w' J' err hat' ⟨hJ', hover', herr, hres⟩)
  · exact ⟨hsub J' hL.1, hL.2.2.1, hL.2.1.quiet.current⟩
  · exact hok w' J' r s hat' hJ' ⟨hL.2.1, hL.2.2.1, hL.2.2.2, hint, hbackup⟩
  · exact hlost w' J' r s err hat' hJ' hL.2.1 hL.2.2.1 hint hbad herr

end jvc.recovery
