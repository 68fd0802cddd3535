import Jvc.Recovery.Lineage
import Jvc.Recovery.Settling

open program program.Prog

namespace jvc.recovery

variable {Bytes : Type} [Text] [Host Bytes] {store : RecoveryStore} {owner : Option Pid} {i : Pid}
  {t : Target store} {Inv : Journal Bytes → Prop} {J : Journal Bytes} {w w' : World Bytes}

/-- How a reconciliation is reported. -/
def Outcome.of : TxState → Outcome
  | .RECOVERED_UNAPPLIED => .recovered
  | .VERIFIED => .verified
  | _ => .required

omit [Text] [Host Bytes] in
theorem backup_path_ne_empty (id : String) : store.backup_path id ≠ "" := by
  intro h
  have hlen := congrArg String.length h
  simp only [RecoveryStore.backup_path, String.length_append, String.length_empty] at hlen
  have hdash : "/".length = 1 := rfl
  omega

theorem critical_backup_ok {e : Entry Bytes} {Q : Except Err Bool → World Bytes → Prop}
    (hat : J.At owner t w) (he : e ∈ J.entries) (hw : e.kind.isWrite = true)
    (h : ∀ w', Later store i w w' → J.At owner t w' → Q (.ok e.backup_ok) w') :
    critical owner i t Inv (RecoveryStore.backup_ok (e.receipt t)) Q w := by
  have hexists : (e.receipt t).preimage_exists = e.kind.pre.isSome := Kind.preimage_exists_write hw
  cases hpre : e.kind.pre with
  | none =>
    have hdone := h w (.refl w) hat
    rw [Entry.backup_ok_absent hpre] at hdone
    rw [hpre] at hexists
    simpa only [RecoveryStore.backup_ok, hexists, Option.isSome_none, Bool.not_false, if_true,
      pure_eq, wp_ret]
  | some pre =>
    rw [hpre] at hexists
    have href : get (e.receipt t).backup_file = .str (store.backup_path e.receipt_id) := by
      rw [Entry.receipt_backup t hpre]
      rfl
    have hsha := Entry.receipt_pre t hpre
    have hrefTruthy : (Val.str (store.backup_path e.receipt_id)).truthy = true := by
      simpa [Val.truthy] using backup_path_ne_empty e.receipt_id
    by_cases hempty : pre = ""
    · have hok : e.backup_ok = false := by
        rw [Entry.backup_ok_present hpre, hempty]
        cases e.kind.backup <;> simp
      have hdone := h w (.refl w) hat
      rw [hok] at hdone
      have hpreTruthy : (Val.str pre).truthy = false := by simp [Val.truthy, hempty]
      simpa only [RecoveryStore.backup_ok, hexists, href, hsha, hpreTruthy, Option.isSome_some,
        Bool.not_true, Bool.not_false, Bool.or_true, if_true]
    · have hpreTruthy : (Val.str pre).truthy = true := by simpa [Val.truthy] using hempty
      simp only [RecoveryStore.backup_ok, hexists, href, hsha, hrefTruthy, hpreTruthy,
        Option.isSome_some, Bool.not_true, Bool.or_self, Val.text, e.located_backup]
      refine wp_seq.mpr (wp_attempt.mpr (wp_seq.mpr (wp_stat (fun w₁ hw₁ => ?_)
        fun w₁ hw₁ hnone _ => ?_)))
      rotate_left
      · have hat₁ := hw₁.view J hat
        rw [hat₁.backup e he hw] at hnone
        have hdone := h w₁ hw₁.toLater hat₁
        rw [Entry.backup_ok_lost hpre hnone] at hdone
        exact ⟨fun _ => hdone, fun hno => by cases hno⟩
      have hat₁ := hw₁.view J hat
      rw [hat₁.backup e he hw]
      cases hdata : e.kind.backup with
      | none =>
        have hdone := h w₁ hw₁.toLater hat₁
        rw [Entry.backup_ok_lost hpre hdata] at hdone
        exact hdone
      | some data =>
        refine wp_seq.mpr (wp_sha256_file (fun w₂ found hw₂ hfound => ?_)
          fun w₂ err hw₂ hnone _ => ?_)
        · have hat₂ := hw₂.view J hat₁
          rw [hat₂.backup e he hw, hdata] at hfound
          cases hfound
          have hdone := h w₂ (hw₁.toLater.trans hw₂.toLater) hat₂
          rw [Entry.backup_ok_held hpre hdata] at hdone
          have hcomm : (Val.str pre == Val.str (sha256_bytes data)) = (sha256_bytes data == pre) := by
            rw [Val.str_beq_str, Bool.beq_comm]
          simp only [onResult_ok, pure_eq, wp_ret, Option.getD_some, hcomm]
          exact hdone
        · rw [(hw₂.view J hat₁).backup e he hw, hdata] at hnone
          cases hnone

theorem critical_observe {Q : Except Err (Bool × Option String) → World Bytes → Prop}
    (hat : J.At owner t w) (hfits : J.target = none → too_long t.path = false)
    (h : ∀ w', Later store i w w' → J.At owner t w' →
      Q (.ok (J.target.isSome, J.current)) w') :
    critical owner i t Inv (RecoveryStore.observe t.path) Q w := by
  simp only [RecoveryStore.observe, t.located]
  refine wp_seq.mpr (wp_stat (fun w₁ hw₁ => ?_) fun w₁ hw₁ hnone hlong => ?_)
  rotate_left
  · rw [(hw₁.view J hat).target] at hnone
    rw [hfits hnone] at hlong
    cases hlong
  have hat₁ := hw₁.view J hat
  rw [hat₁.target]
  cases htarget : J.target with
  | none =>
    have hdone := h w₁ hw₁.toLater hat₁
    simp only [Journal.current, htarget] at hdone
    exact hdone
  | some data =>
    refine wp_seq.mpr (wp_sha256_file (fun w₂ found hw₂ hfound => ?_) fun w₂ err hw₂ hnone _ => ?_)
    · have hat₂ := hw₂.view J hat₁
      rw [hat₂.target, htarget] at hfound
      cases hfound
      have hdone := h w₂ (hw₁.toLater.trans hw₂.toLater) hat₂
      simp only [Journal.current, htarget] at hdone
      exact hdone
    · rw [(hw₂.view J hat₁).target, htarget] at hnone
      cases hnone

/-- The digest of the target as a rollback takes it, also where it cannot be observed. -/
theorem critical_observed {Q : Except Err (Option (Bool × Option String)) → World Bytes → Prop}
    (hat : J.At owner t w)
    (h : ∀ w' observed, Later store i w w' → J.At owner t w' →
      observed.bind Prod.snd = J.current → Q (.ok observed) w') :
    critical owner i t Inv (attempt (RecoveryStore.observe t.path) Err.isOSError) Q w := by
  by_cases hfits : J.target = none → too_long t.path = false
  · exact wp_attempt.mpr (critical_observe hat hfits fun w₁ hw₁ hat₁ =>
      h w₁ (some _) hw₁ hat₁ rfl)
  · obtain ⟨hnone, _⟩ := Classical.not_imp.mp hfits
    have hcurrent : J.current = none := by rw [Journal.current, hnone]; rfl
    simp only [RecoveryStore.observe, t.located]
    refine wp_attempt.mpr (wp_seq.mpr (wp_stat (fun w₁ hw₁ => ?_) fun w₁ hw₁ _ _ => ?_))
    · have hat₁ := hw₁.view J hat
      have hdone := h w₁ (some (false, none)) hw₁.toLater hat₁ hcurrent.symm
      rw [hat₁.target, hnone]
      exact hdone
    · have hdone := h w₁ none hw₁.toLater (hw₁.view J hat) hcurrent.symm
      exact ⟨fun _ => hdone, fun hno => by cases hno⟩

theorem critical_mark_receipt {e : Entry Bytes} {state : TxState} {outcome : Outcome}
    {Q : Except Err Outcome → World Bytes → Prop} (hat : J.At owner t w) (he : e ∈ J.entries)
    (hInv : Inv (J.mark e.receipt_id state))
    (h : ∀ w', Later store i w w' → (J.mark e.receipt_id state).At owner t w' →
      Q (.ok outcome) w') :
    critical owner i t Inv (RecoveryStore.mark (store.receipt_path e.receipt_id) (e.receipt t)
      state outcome) Q w :=
  wp_seq.mpr (critical_mark hat he rfl hInv h)

omit [Text] [Host Bytes] in
theorem Journal.Wf.source_ne {r : Entry Bytes} {source : String} (h : J.Wf) (hr : r ∈ J.entries)
    (hs : r.kind.source = some source) : source ≠ "" := by
  obtain ⟨s, _, rfl, _⟩ := h.source r hr source hs
  exact s.receipt_id_ne

/-- Finishing a rollback: its receipt is VERIFIED, then its source ROLLED_BACK. -/
theorem critical_finalize_rollback {e : Entry Bytes} {source : String} {data : Dict}
    {Q : Except Err Unit → World Bytes → Prop} (hat : J.At owner t w) (he : e ∈ J.entries)
    (hs : e.kind.source = some source)
    (hdata : { data with tx_state := some (.str TxState.VERIFIED.value) } =
      ((e.mark .VERIFIED).receipt t).dict)
    (hverified : Inv (J.mark e.receipt_id .VERIFIED))
    (hInv : Inv ((J.mark e.receipt_id .VERIFIED).mark source .ROLLED_BACK))
    (h : ∀ w', Later store i w w' →
      ((J.mark e.receipt_id .VERIFIED).mark source .ROLLED_BACK).At owner t w' → Q (.ok ()) w') :
    critical owner i t Inv
      (store.finalize_rollback (store.receipt_path e.receipt_id) data source) Q w := by
  refine wp_seq.mpr (critical_mark hat he hdata hverified fun w₁ hw₁ hat₁ => ?_)
  have hne := hat.wf.source_ne he hs
  have hmark : e.mark .VERIFIED ∈ (J.mark e.receipt_id .VERIFIED).entries :=
    Journal.mem_mark.mpr ⟨e, he, .inl ⟨rfl, rfl⟩⟩
  obtain ⟨s, hsmem, hsid, _⟩ := hat₁.wf.source _ hmark source hs
  subst hsid
  have hguard : (s.receipt_id != "") = true := by simpa using hne
  simp only [onResult_ok, hguard, if_true, s.source_path]
  refine wp_seq.mpr (wp_stat (fun w₂ hw₂ => ?_) fun w₂ hw₂ hnone _ => ?_)
  rotate_left
  · rw [(hw₂.view _ hat₁).held s hsmem] at hnone
    cases hnone
  have hat₂ := hw₂.view _ hat₁
  rw [hat₂.held s hsmem]
  simp only [onResult_ok, Option.isSome_some, if_true]
  refine wp_seq.mpr (wp_attempt.mpr (critical_load_validated hat₂ (hat₂.known hsmem)
    fun w₃ r hw₃ hat₃ hseen => ?_))
  have hr := hseen.own hat₂.wf hsmem rfl
  subst hr
  simp only [onResult_ok]
  refine critical_mark hat₃ hsmem rfl hInv fun w₄ hw₄ hat₄ => ?_
  exact h w₄ (((hw₁.trans hw₂.toLater).trans hw₃).trans hw₄) hat₄

theorem Journal.current_ne_empty (J : Journal Bytes) : J.current ≠ some "" := by
  unfold Journal.current
  cases J.target <;> simp

/-- A recorded text that is a digest of the target is not empty. -/
theorem Journal.truthy_and_current (J : Journal Bytes) (o : Option String) :
    ((RecoveryStore.optStr o).truthy && J.current == o) = (o.isSome && J.current == o) := by
  cases o with
  | none => rfl
  | some s =>
    by_cases hs : s = ""
    · have hne : (J.current == some "") = false := by
        simpa using J.current_ne_empty
      rw [hs, hne, Bool.and_false, Bool.and_false]
    · have htruthy : (RecoveryStore.optStr (some s)).truthy = true :=
        optStr_truthy.mpr ⟨s, rfl, hs⟩
      rw [htruthy]
      rfl

section Settle

variable (hstep : ∀ J J', Inv J → Step i t.path .settle J J' → Inv J')
include hstep

theorem critical_settle_write {e : Entry Bytes} {Q : Except Err Outcome → World Bytes → Prop}
    (hat : J.At owner t w) (hJ : Inv J) (he : e ∈ J.entries) (hw : e.kind.isWrite = true)
    (hp : e.tx_state.incomplete = true) (hok : e.backup_ok = true)
    (h : ∀ w', Later store i w w' → (J.mark e.receipt_id (e.settled J.current)).At owner t w' →
      Q (.ok (.of (e.settled J.current))) w') :
    critical owner i t Inv (RecoveryStore.settle_write (store.receipt_path e.receipt_id)
      (e.receipt t) e.tx_state J.target.isSome J.current) Q w := by
  have hInv := hstep _ _ hJ (.settle he hp)
  cases hk : e.kind with
  | rollback =>
    rw [hk] at hw
    cases hw
  | write prev pre post backup =>
    have hpre : get (e.receipt t).preimage_sha256 = RecoveryStore.optStr pre := by
      simp [Entry.receipt, Entry.details, hk, get]
    have hpost : get (e.receipt t).postimage_sha256 = RecoveryStore.optStr post := by
      simp [hk, Kind.post]
    have hexists : (e.receipt t).preimage_exists = pre.isSome := by
      simp [hk, Kind.preimage_exists]
    have hcurrent : J.target.isSome = J.current.isSome := by simp [Journal.current]
    cases hs : e.tx_state with
    | PREPARED =>
      have hcond : ((!(e.receipt t).preimage_exists && !J.target.isSome) ||
          ((e.receipt t).preimage_exists && digestEq J.current
            (get (e.receipt t).preimage_sha256))) = (J.current == pre) := by
        rw [hexists, hpre, hcurrent, digestEq_optStr]
        cases pre <;> cases J.current <;> simp
      simp only [RecoveryStore.settle_write, hcond]
      cases heq : J.current == pre with
      | true =>
        have hset : e.settled J.current = .RECOVERED_UNAPPLIED := by
          simp [Entry.settled, hk, hs, hok, heq]
        rw [hset] at hInv h
        exact critical_mark_receipt hat he hInv h
      | false =>
        have hset : e.settled J.current = .RECOVERY_REQUIRED := by
          simp [Entry.settled, hk, hs, hok, heq]
        rw [hset] at hInv h
        exact critical_mark_receipt hat he hInv h
    | APPLIED =>
      have hcond : ((get (e.receipt t).postimage_sha256).truthy &&
          digestEq J.current (get (e.receipt t).postimage_sha256)) =
            (post.isSome && J.current == post) := by
        rw [hpost, digestEq_optStr, J.truthy_and_current]
      simp only [RecoveryStore.settle_write, hcond]
      cases heq : post.isSome && J.current == post with
      | true =>
        have hset : e.settled J.current = .VERIFIED := by
          simp [Entry.settled, hk, hs, hok, heq]
        rw [hset] at hInv h
        exact critical_mark_receipt hat he hInv h
      | false =>
        have hset : e.settled J.current = .RECOVERY_REQUIRED := by
          simp only [Entry.settled, hk, hs, hok, heq]
          rfl
        rw [hset] at hInv h
        exact critical_mark_receipt hat he hInv h
    | VERIFIED | RECOVERED_UNAPPLIED | RECOVERY_REQUIRED | ROLLED_BACK | SUPERSEDED =>
      rw [hs] at hp
      cases hp

theorem critical_reconcile_rollback {e : Entry Bytes}
    {Q : Except Err Outcome → World Bytes → Prop}
    (hat : J.At owner t w) (hJ : Inv J) (he : e ∈ J.entries) (hw : e.kind.isWrite = false)
    (hp : e.tx_state.incomplete = true)
    (h : ∀ w', Later store i w w' → (J.settle e).At owner t w' →
      Q (.ok (.of (e.settled J.current))) w') :
    critical owner i t Inv (store.reconcile_rollback (store.receipt_path e.receipt_id)
      (e.receipt t) e.tx_state) Q w := by
  have hInv := hstep _ _ hJ (.settle he hp)
  cases hk : e.kind with
  | write =>
    rw [hk] at hw
    cases hw
  | rollback source expected restored =>
    have hrestored : get (e.receipt t).restored_sha256 = RecoveryStore.optStr restored := by
      simp [Entry.receipt, Entry.details, hk, get]
    have hexpected : get (e.receipt t).expected_postimage_sha256 = .str expected := by
      simp [Entry.receipt, Entry.details, hk, get]
    have hsource : textOf (e.receipt t).rollback_of = source := by
      simp [Entry.receipt, Entry.details, hk, textOf, Val.text]
    have hcurrent : J.target.isSome = J.current.isSome := by simp [Journal.current]
    refine wp_seq.mpr (wp_attempt.mpr (critical_observe hat (fun _ => hat.fits e he)
      fun w₁ hw₁ hat₁ => ?_))
    have hlater : ∀ w', Later store i w₁ w' → (J.settle e).At owner t w' →
        Q (.ok (.of (e.settled J.current))) w' := fun w' hw' => h w' (hw₁.trans hw')
    clear h
    simp only [onResult_ok]
    cases hs : e.tx_state with
    | PREPARED =>
      have hcond : digestEq J.current (get (e.receipt t).expected_postimage_sha256) =
          (J.current == some expected) := by
        rw [hexpected, ← digestEq_optStr]
        rfl
      simp only [hcond]
      cases heq : J.current == some expected with
      | true =>
        have hset : e.settled J.current = .RECOVERED_UNAPPLIED := by
          simp [Entry.settled, hk, hs, heq]
        simp only [Journal.settle, hk, hset] at hInv hlater
        exact critical_mark_receipt hat₁ he hInv hlater
      | false =>
        have hset : e.settled J.current = .RECOVERY_REQUIRED := by
          simp only [Entry.settled, hk, hs, heq]
          rfl
        simp only [Journal.settle, hk, hset] at hInv hlater
        exact critical_mark_receipt hat₁ he hInv hlater
    | APPLIED =>
      have hcond : ((get (e.receipt t).restored_sha256).truthy &&
          (digestEq J.current (get (e.receipt t).restored_sha256) ||
            (get (e.receipt t).restored_sha256 == .str "__ABSENT__" && !J.target.isSome))) =
          (restored.isSome && (J.current == restored ||
            (restored == some "__ABSENT__" && J.current.isNone))) := by
        rw [hrestored, hcurrent, digestEq_optStr, Bool.and_or_distrib_left,
          Bool.and_or_distrib_left, J.truthy_and_current]
        congr 1
        cases restored with
        | none => rfl
        | some text =>
          by_cases habsent : text = "__ABSENT__"
          · subst habsent
            cases J.current <;> rfl
          · have hne : (text == "__ABSENT__") = false := by simpa using habsent
            simp [RecoveryStore.optStr, Val.str_beq_str, hne]
      simp only [hcond]
      cases heq : restored.isSome && (J.current == restored ||
          (restored == some "__ABSENT__" && J.current.isNone)) with
      | true =>
        have hset : e.settled J.current = .VERIFIED := by
          simp [Entry.settled, hk, hs, heq]
        simp only [Journal.settle, hk, hset] at hInv hlater
        have hmem : e.mark .VERIFIED ∈ (J.mark e.receipt_id .VERIFIED).entries :=
          Journal.mem_mark.mpr ⟨e, he, .inl ⟨rfl, rfl⟩⟩
        have hkind : e.kind.source = some source := by rw [hk]; rfl
        have hfinal := hstep _ _ hInv (.finalize (r := e.mark .VERIFIED) hmem hkind rfl)
        refine wp_seq.mpr ?_
        rw [hsource]
        refine critical_finalize_rollback hat₁ he hkind rfl hInv hfinal ?_
        exact hlater
      | false =>
        have hset : e.settled J.current = .RECOVERY_REQUIRED := by
          simp only [Entry.settled, hk, hs, heq]
          rfl
        simp only [Journal.settle, hk, hset] at hInv hlater
        exact critical_mark_receipt hat₁ he hInv hlater
    | VERIFIED | RECOVERED_UNAPPLIED | RECOVERY_REQUIRED | ROLLED_BACK | SUPERSEDED =>
      rw [hs] at hp
      cases hp

/-- One reconciliation settles one receipt of the journal. -/
theorem critical_reconcile_one {e : Entry Bytes} {Q : Except Err Outcome → World Bytes → Prop}
    (hat : J.At owner t w) (hJ : Inv J) (he : e ∈ J.entries) (hp : e.tx_state.incomplete = true)
    (h : ∀ w', Later store i w w' → (J.settle e).At owner t w' →
      Q (.ok (.of (e.settled J.current))) w') :
    critical owner i t Inv (store.reconcile_one (store.receipt_path e.receipt_id) (e.receipt t)
      e.tx_state) Q w := by
  cases hw : e.kind.isWrite with
  | false =>
    have hop : (e.receipt t).original_operation = .ROLLBACK := by
      cases hk : e.kind with
      | write =>
        rw [hk] at hw
        cases hw
      | rollback => simp [hk, Kind.operation]
    simp only [RecoveryStore.reconcile_one, hop]
    exact critical_reconcile_rollback hstep hat hJ he hw hp h
  | true =>
    have hop : (e.receipt t).original_operation = .FS_WRITE := by
      cases hk : e.kind with
      | write => simp [hk, Kind.operation]
      | rollback =>
        rw [hk] at hw
        cases hw
    have hsettle : J.settle e = J.mark e.receipt_id (e.settled J.current) := by
      cases hk : e.kind with
      | write => simp [Journal.settle, hk]
      | rollback =>
        rw [hk] at hw
        cases hw
    rw [hsettle] at h
    simp only [RecoveryStore.reconcile_one, hop]
    refine wp_seq.mpr (critical_backup_ok hat he hw fun w₁ hw₁ hat₁ => ?_)
    have hlater : ∀ w', Later store i w₁ w' →
        (J.mark e.receipt_id (e.settled J.current)).At owner t w' →
          Q (.ok (.of (e.settled J.current))) w' := fun w' hw' => h w' (hw₁.trans hw')
    simp only [onResult_ok]
    cases hok : e.backup_ok with
    | false =>
      have hset : e.settled J.current = .RECOVERY_REQUIRED := by
        cases hk : e.kind with
        | write =>
          cases hs : e.tx_state with
          | PREPARED | APPLIED => simp [Entry.settled, hk, hs, hok]
          | _ =>
            rw [hs] at hp
            cases hp
        | rollback =>
          rw [hk] at hw
          cases hw
      have hInv := hstep _ _ hJ (.settle he hp)
      rw [hset] at hlater hInv
      exact critical_mark_receipt hat₁ he hInv hlater
    | true =>
      refine wp_seq.mpr (wp_attempt.mpr (critical_observe hat₁ (fun _ => hat.fits e he)
        fun w₂ hw₂ hat₂ => ?_))
      refine critical_settle_write hstep hat₂ hJ he hw hp hok fun w₃ hw₃ hat₃ => ?_
      exact hlater w₃ (hw₂.trans hw₃) hat₃

/-- The loop of `reconcile_target` over the listed files. -/
theorem critical_reconcile_among {project_id : String} {files : List Path}
    {s : RecoveryStore.Reconciled} {Q : Except Err RecoveryStore.Reconciled → World Bytes → Prop}
    (hat : J.At owner t w) (hJ : Inv J) (hfiles : ∀ p ∈ files, Known store p w)
    (h : ∀ w' J' s', Later store i w w' → J'.At owner t w' → Inv J' → Settling i t.path J J' →
      (∀ e ∈ J'.entries, e.project_id.text = project_id →
        store.receipt_path e.receipt_id ∈ files → e.tx_state.incomplete = false ∧
          (s'.recovery_required = [] → e.tx_state.blocking = false)) →
      (s'.recovery_required = [] → s.recovery_required = []) →
      (J.Resolvable project_id → s.recovery_required = [] → s'.recovery_required = []) →
      Q (.ok s') w') :
    critical owner i t Inv (store.reconcile_among project_id t.path files s) Q w := by
  induction files generalizing w J s Q with
  | nil => exact h w J s (.refl w) hat hJ .refl (by simp) id fun _ hs => hs
  | cons p rest ih =>
    refine wp_seq.mpr (wp_attempt.mpr (critical_read_validated hat (hfiles p List.mem_cons_self)
      fun w₁ r hw₁ hat₁ hseen => ?_))
    have hrest : ∀ q ∈ rest, Known store q w₁ :=
      fun q hq => (hfiles q (List.mem_cons_of_mem _ hq)).later hw₁
    simp only [onResult_ok]
    by_cases hc : RecoveryStore.concerns project_id t.path r = true
    · obtain ⟨hproject, hpath⟩ := (concerns_iff (x := (p, r))).mp hc
      obtain ⟨e, he, rfl, rfl⟩ : ∃ e ∈ J.entries, p = store.receipt_path e.receipt_id ∧
          r = e.receipt t := by
        rcases hseen with hown | ⟨hne, _⟩
        · exact hown
        · exact absurd hpath hne
      rw [if_neg (by rw [hc]; exact Bool.false_ne_true), Entry.receipt_tx_state,
        Entry.receipt_receipt_id]
      by_cases hp : e.tx_state.incomplete = true
      · rw [if_neg (by simp [hp])]
        refine wp_seq.mpr (critical_reconcile_one hstep hat₁ hJ he hp fun w₂ hw₂ hat₂ => ?_)
        have hfirst : Settling i t.path J (J.settle e) := Journal.settle_settling he hp
        have hJ₂ : Inv (J.settle e) := hfirst.preserves hstep hJ
        refine ih hat₂ hJ₂ (fun q hq => (hrest q hq).later hw₂)
          fun w₃ J' s' hw₃ hat₃ hJ' hsettling hdone hreq hres => ?_
        refine h w₃ J' s' ((hw₁.trans hw₂).trans hw₃) hat₃ hJ' (hfirst.trans hsettling) ?_ ?_ ?_
        · intro x hx hxp hmem
          rcases List.mem_cons.mp hmem with heq | hmem
          · obtain ⟨y, hy, state, rfl, _⟩ := hsettling.entry hat₂.wf hx
            have hid : y.receipt_id = e.receipt_id := receipt_path_inj heq
            rcases Journal.settle_own hat.wf he hy hid with rfl | rfl
            · rcases hsettling.entry_of_complete hat₂.wf hy (e.settled_complete _) hx rfl
                with hsame | hsame
              · refine ⟨by rw [hsame]; exact e.settled_complete _, fun hnil => ?_⟩
                have hblock := hreq hnil
                rw [hsame]
                cases hset : e.settled J.current with
                | RECOVERY_REQUIRED =>
                  rw [hset] at hblock
                  simp [Outcome.of] at hblock
                | _ => rfl
              · rw [hsame]
                exact ⟨rfl, fun _ => rfl⟩
            · rcases hsettling.entry_of_complete hat₂.wf hy rfl hx rfl with hsame | hsame
              · rw [hsame]
                exact ⟨rfl, fun _ => rfl⟩
              · rw [hsame]
                exact ⟨rfl, fun _ => rfl⟩
          · exact hdone x hx hxp hmem
        · intro hnil
          have hblock := hreq hnil
          split at hblock
          · simp at hblock
          · exact hblock
        · intro hresolvable hs
          refine hres (hfirst.resolvable hat.wf hresolvable) ?_
          have hnot := hresolvable e he hproject
          rcases e.settled_of_incomplete hp J.current with hset | hset | hset
          · rw [hset]
            exact hs
          · rw [hset]
            exact hs
          · exact absurd hset hnot
      · have hcomplete : e.tx_state.incomplete = false := by simpa using hp
        rw [if_pos (by simp [hcomplete])]
        refine ih hat₁ hJ hrest fun w₂ J' s' hw₂ hat₂ hJ' hsettling hdone hreq hres => ?_
        refine h w₂ J' s' (hw₁.trans hw₂) hat₂ hJ' hsettling ?_ ?_ ?_
        · intro x hx hxp hmem
          rcases List.mem_cons.mp hmem with heq | hmem
          · rcases hsettling.entry_of_complete hat.wf he hcomplete hx (receipt_path_inj heq)
              with rfl | rfl
            · refine ⟨hcomplete, fun hnil => ?_⟩
              have hblock := hreq hnil
              cases hb : x.tx_state.blocking with
              | false => rfl
              | true =>
                rw [hb] at hblock
                simp at hblock
            · exact ⟨rfl, fun _ => rfl⟩
          · exact hdone x hx hxp hmem
        · intro hnil
          have hblock := hreq hnil
          split at hblock
          · simp at hblock
          · exact hblock
        · intro hresolvable hs
          refine hres hresolvable ?_
          have hnot := hresolvable e he hproject
          rw [Entry.settled_of_complete hcomplete] at hnot
          have hblock : e.tx_state.blocking = false := by
            cases hstate : e.tx_state with
            | RECOVERY_REQUIRED => exact absurd hstate hnot
            | _ => rfl
          rw [hblock]
          exact hs
    · have hc' : RecoveryStore.concerns project_id t.path r = false := by simpa using hc
      simp only [hc', Bool.not_false, if_true]
      refine ih hat₁ hJ hrest fun w₂ J' s' hw₂ hat₂ hJ' hsettling hdone hreq hres => ?_
      refine h w₂ J' s' (hw₁.trans hw₂) hat₂ hJ' hsettling ?_ hreq hres
      intro x hx hxp hmem
      rcases List.mem_cons.mp hmem with heq | hmem
      · obtain ⟨e, he, state, rfl, _⟩ := hsettling.entry hat.wf hx
        have hr := hseen.own hat.wf he heq.symm
        refine absurd ?_ hc
        rw [hr]
        exact (concerns_iff (x := (p, e.receipt t))).mpr ⟨hxp, rfl⟩
      · exact hdone x hx hxp hmem

/-- The target's pending receipts are reconciled, whoever left them. -/
theorem critical_reconcile_target {project_id : String}
    {Q : Except Err RecoveryStore.Reconciled → World Bytes → Prop}
    (hat : J.At owner t w) (hJ : Inv J)
    (h : ∀ w' J' s', Later store i w w' → J'.At owner t w' → Inv J' → Settling i t.path J J' →
      J'.Settled project_id → (s'.recovery_required = [] → J'.Unblocked project_id) →
      (J.Resolvable project_id → s'.recovery_required = []) → Q (.ok s') w') :
    critical owner i t Inv (store.reconcile_target project_id t.path) Q w := by
  refine wp_seq.mpr (critical_iter_receipt_files hat fun w₁ files hw₁ hat₁ hfiles => ?_)
  refine critical_reconcile_among hstep hat₁ hJ hfiles.known
    fun w₂ J' s' hw₂ hat₂ hJ' hsettling hdone _ hres => ?_
  have hmem : ∀ x ∈ J'.entries, store.receipt_path x.receipt_id ∈ files := by
    intro x hx
    obtain ⟨e, he, s, rfl⟩ := hsettling.quiet.entry hx
    exact hfiles.covers e he
  refine h w₂ J' s' (hw₁.trans hw₂) hat₂ hJ' hsettling
    (fun x hx hp => (hdone x hx hp (hmem x hx)).1)
    (fun hnil x hx hp => (hdone x hx hp (hmem x hx)).2 hnil) fun hresolvable => ?_
  exact hres hresolvable rfl

end Settle

/-- The gate on RECOVERY_REQUIRED receipts of the target. -/
theorem critical_has_blocking_state {project_id : String}
    {Q : Except Err (Option RecoveryStore.Blocker) → World Bytes → Prop}
    (hat : J.At owner t w)
    (hnone : ∀ w', Later store i w w' → J.At owner t w' → J.Unblocked project_id →
      Q (.ok none) w')
    (hsome : ∀ w' id, Later store i w w' → J.At owner t w' → ¬ J.Unblocked project_id →
      Q (.ok (some (.receipt id))) w') :
    critical owner i t Inv (store.has_blocking_state project_id t.path) Q w := by
  refine wp_seq.mpr (critical_corrupt_receipt_files hat fun w₁ hw₁ hat₁ => ?_)
  refine wp_seq.mpr (critical_iter_receipt_files hat₁ fun w₂ files hw₂ hat₂ hfiles => ?_)
  simp only [onResult_ok]
  have hloop : ∀ (rest : List Path) (w₂ : World Bytes), J.At owner t w₂ →
      Later store i w w₂ → (∀ p ∈ rest, Known store p w₂) →
      (∀ e ∈ J.entries, e.project_id.text = project_id →
        store.receipt_path e.receipt_id ∈ rest ∨ e.tx_state.blocking = false) →
      critical owner i t Inv (RecoveryStore.blocking_among project_id t.path rest) Q w₂ := by
    intro rest
    induction rest with
    | nil =>
      intro w₂ hat₂ hw₂ _ hclear
      exact hnone w₂ hw₂ hat₂ fun e he hp => (hclear e he hp).resolve_left (by simp)
    | cons p rest ih =>
      intro w₂ hat₂ hw₂ hknown hclear
      refine wp_seq.mpr (wp_attempt.mpr (critical_load_validated hat₂
        (hknown p List.mem_cons_self) fun w₃ r hw₃ hat₃ hseen => ?_))
      simp only [onResult_ok]
      split
      · rename_i hc
        simp only [Bool.and_eq_true] at hc
        obtain ⟨hconcerns, hblocking⟩ := hc
        obtain ⟨hproject, hpath⟩ := (concerns_iff (x := (p, r))).mp hconcerns
        rcases hseen with ⟨e, he, rfl, rfl⟩ | ⟨hne, _⟩
        · refine hsome w₃ _ (hw₂.trans hw₃) hat₃ fun hfree => ?_
          rw [Entry.receipt_tx_state, hfree e he hproject] at hblocking
          cases hblocking
        · exact absurd hpath hne
      · rename_i hc
        refine ih w₃ hat₃ (hw₂.trans hw₃)
          (fun q hq => (hknown q (List.mem_cons_of_mem _ hq)).later hw₃) fun e he hp => ?_
        rcases hclear e he hp with hmem | hfree
        · rcases List.mem_cons.mp hmem with heq | hmem
          · have hr := hseen.own hat.wf he heq.symm
            subst hr
            have hconcerns : RecoveryStore.concerns project_id t.path (e.receipt t) = true :=
              (concerns_iff (x := (p, e.receipt t))).mpr ⟨hp, rfl⟩
            rw [hconcerns, Bool.true_and, Entry.receipt_tx_state] at hc
            exact .inr (by simpa using hc)
          · exact .inl hmem
        · exact .inr hfree
  exact hloop files w₂ hat₂ (hw₁.trans hw₂) hfiles.known fun e he _ => .inl (hfiles.covers e he)

end jvc.recovery
