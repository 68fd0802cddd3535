import Jvc.Recovery.Reconcile

open program program.Prog

namespace jvc.recovery

variable {Bytes : Type} [Text] [Host Bytes] {store : RecoveryStore} {owner : Option Pid} {i : Pid}
  {t : Target store} {Inv : Journal Bytes → Prop} {J J' : Journal Bytes} {w w' : World Bytes}

/-- A pending receipt has been settled before a rollback, and not found unresolved. -/
structure Overtook (i : Pid) (t : Path) (project_id : String) (J : Journal Bytes)
    (e : Entry Bytes) (J' : Journal Bytes) : Prop where
  overtaking : Overtaking i t J J'
  done : ∀ x ∈ J'.entries, x.receipt_id = e.receipt_id → x.tx_state.incomplete = false
  required : ∀ x ∈ J'.entries, x.tx_state = .RECOVERY_REQUIRED → x ∈ J.entries
  resolvable : J.Resolvable project_id → J'.Resolvable project_id

theorem Overtook.of_mark {project_id : String} {e : Entry Bytes} {s : TxState}
    (hover : Overtaking i t.path J (J.mark e.receipt_id s)) (hs : s.incomplete = false)
    (hne : s ≠ .RECOVERY_REQUIRED) :
    Overtook i t.path project_id J e (J.mark e.receipt_id s) where
  overtaking := hover
  done := by
    intro x hx hid
    obtain ⟨y, _, ⟨_, rfl⟩ | ⟨hyid, rfl⟩⟩ := Journal.mem_mark.mp hx
    · exact hs
    · exact absurd hid hyid
  required := fun x hx hreq => Journal.mem_of_mark_required hne hx hreq
  resolvable := fun h => h.mark hs hne

section Loop

variable (hstep : ∀ J J', Inv J → Step i t.path .settle J J' → Inv J')
  (hover : ∀ J J', Inv J → Step i t.path .overtake J J' → Inv J')
include hstep hover

theorem critical_supersede_one {project_id : String} {e : Entry Bytes}
    {Q : Except Err (Option String) → World Bytes → Prop} (hat : J.At owner t w) (hJ : Inv J)
    (he : e ∈ J.entries) (hproject : e.project_id.text = project_id)
    (hp : e.tx_state.incomplete = true)
    (hok : ∀ w' J' o, Later store i w w' → J'.At owner t w' → Inv J' →
      Overtook i t.path project_id J e J' → Q (.ok o) w')
    (herror : ∀ w' J' err, Later store i w w' → J'.At owner t w' → Inv J' →
      Overtaking i t.path J J' → err.isRecoveryRequired = true → ¬ J.Resolvable project_id →
      Q (.error err) w') :
    critical owner i t Inv (store.supersede_one t.path J.current
      (store.receipt_path e.receipt_id) (e.receipt t)) Q w := by
  have hunresolved : e.settled J.current = .RECOVERY_REQUIRED → ¬ J.Resolvable project_id :=
    fun hset hres => hres e he hproject hset
  have hsettling : Settling i t.path J (J.settle e) := Journal.settle_settling he hp
  cases hk : e.kind with
  | rollback =>
    have hop : (e.receipt t).original_operation = .ROLLBACK := by simp [hk, Kind.operation]
    simp only [RecoveryStore.supersede_one, hop]
    refine wp_seq.mpr (critical_reconcile_one hstep hat hJ he hp fun w₁ hw₁ hat₁ => ?_)
    have hJ₁ := hsettling.preserves hstep hJ
    simp only [onResult_ok, wp_seq, wp_raiseIf, onResult_error, pure_eq, wp_ret]
    refine ⟨fun hreq => ?_, fun hreq => ?_⟩
    · refine herror w₁ _ _ hw₁ hat₁ hJ₁ hsettling.overtaking rfl (hunresolved ?_)
      rcases e.settled_of_incomplete hp J.current with hset | hset | hset
      · simp [hset, Outcome.of] at hreq
      · simp [hset, Outcome.of] at hreq
      · exact hset
    · have hne : e.settled J.current ≠ .RECOVERY_REQUIRED := by
        intro hset
        simp [hset, Outcome.of] at hreq
      refine hok w₁ _ _ hw₁ hat₁ hJ₁ ⟨hsettling.overtaking, fun x hx hid => ?_,
        fun x hx => Journal.mem_of_settle_required hne hx, hsettling.resolvable hat.wf⟩
      rcases Journal.settle_own hat.wf he hx hid with rfl | rfl
      · exact e.settled_complete _
      · rfl
  | write prev pre post backup =>
    have hop : (e.receipt t).original_operation = .FS_WRITE := by simp [hk, Kind.operation]
    have hw : e.kind.isWrite = true := by rw [hk]; rfl
    have hsettle : J.settle e = J.mark e.receipt_id (e.settled J.current) := by
      simp [Journal.settle, hk]
    cases hs : e.tx_state with
    | PREPARED =>
      have hstate : (e.receipt t).tx_state = .PREPARED := hs
      simp only [RecoveryStore.supersede_one, hop, hstate]
      refine wp_seq.mpr ?_
      rw [← hs]
      refine critical_reconcile_one hstep hat hJ he hp fun w₁ hw₁ hat₁ => ?_
      have hJ₁ := hsettling.preserves hstep hJ
      rw [hsettle] at hat₁ hJ₁ hsettling
      simp only [onResult_ok, wp_seq, wp_raiseIf, onResult_error, pure_eq]
      refine ⟨fun hreq => ?_, fun hreq => ?_⟩
      · refine herror w₁ _ _ hw₁ hat₁ hJ₁ hsettling.overtaking rfl (hunresolved ?_)
        rcases e.settled_of_incomplete hp J.current with hset | hset | hset
        · simp [hset, Outcome.of] at hreq
        · simp [hset, Outcome.of] at hreq
        · exact hset
      · have hset : e.settled J.current = .RECOVERED_UNAPPLIED := by
          have hform := e.settled_write_of_prepared hk hs J.current
          split at hform
          · exact hform
          · simp [hform, Outcome.of] at hreq
        rw [hset] at hat₁ hJ₁ hsettling
        have hmem : e.mark .RECOVERED_UNAPPLIED ∈
            (J.mark e.receipt_id .RECOVERED_UNAPPLIED).entries :=
          Journal.mem_mark.mpr ⟨e, he, .inl ⟨rfl, rfl⟩⟩
        have hsuper : Step i t.path .overtake (J.mark e.receipt_id .RECOVERED_UNAPPLIED)
            ((J.mark e.receipt_id .RECOVERED_UNAPPLIED).mark e.receipt_id .SUPERSEDED) :=
          .supersede (e := e.mark .RECOVERED_UNAPPLIED) hmem hw rfl
        have htwice : (J.mark e.receipt_id .RECOVERED_UNAPPLIED).mark e.receipt_id .SUPERSEDED =
            J.mark e.receipt_id .SUPERSEDED := Journal.mark_mark J _ _ _
        have hJ₂ := hover _ _ hJ₁ hsuper
        refine critical_read_validated hat₁ (hat₁.known (e := e.mark .RECOVERED_UNAPPLIED) hmem)
          fun w₂ r hw₂ hat₂ hseen => ?_
        have hr := hseen.own (e := e.mark .RECOVERED_UNAPPLIED) hat₁.wf hmem rfl
        subst hr
        simp only [onResult_ok, wp_seq]
        refine critical_mark (e := e.mark .RECOVERED_UNAPPLIED) hat₂ hmem rfl hJ₂ fun w₃ hw₃ hat₃ => ?_
        rw [Entry.mark_receipt_id, htwice] at hat₃
        rw [htwice] at hJ₂ hsuper
        refine hok w₃ _ _ ((hw₁.trans hw₂).trans hw₃) hat₃ hJ₂ (.of_mark ?_ rfl (by decide))
        exact .tail hsettling.overtaking (.inr hsuper)
    | APPLIED =>
      have hstate : (e.receipt t).tx_state = .APPLIED := hs
      have hcond : ((get (e.receipt t).postimage_sha256).truthy &&
          digestEq J.current (get (e.receipt t).postimage_sha256)) =
            (e.kind.post.isSome && J.current == e.kind.post) := by
        rw [Entry.receipt_post, digestEq_optStr, J.truthy_and_current]
      have hone : Step i t.path .overtake J (J.mark e.receipt_id (e.overtaken J.current)) :=
        .overtake he hw hs
      have hJ₁ := hover _ _ hJ hone
      simp only [RecoveryStore.supersede_one, hop, hstate, hcond]
      split
      · rename_i hmatch
        have hset : e.overtaken J.current = .VERIFIED := by
          unfold Entry.overtaken
          rw [if_pos hmatch]
        rw [hset] at hone hJ₁
        refine wp_seq.mpr (critical_mark hat he (by rw [← hop]; rfl) hJ₁ fun w₁ hw₁ hat₁ => ?_)
        exact hok w₁ _ _ hw₁ hat₁ hJ₁ (.of_mark (.single (.inr hone)) rfl (by decide))
      · rename_i hmatch
        have hset : e.overtaken J.current = .RECOVERY_REQUIRED := by
          unfold Entry.overtaken
          rw [if_neg hmatch]
        have hres : e.settled J.current = .RECOVERY_REQUIRED := by
          rw [hk] at hmatch
          simp only [Kind.post, Bool.not_eq_true] at hmatch
          rw [e.settled_write_of_applied hk hs, hmatch, Bool.and_false]
          rfl
        rw [hset] at hone hJ₁
        refine wp_seq.mpr (critical_mark hat he (by rw [← hop]; rfl) hJ₁ fun w₁ hw₁ hat₁ => ?_)
        exact herror w₁ _ _ hw₁ hat₁ hJ₁ (.single (.inr hone)) rfl (hunresolved hres)
    | VERIFIED | RECOVERED_UNAPPLIED | RECOVERY_REQUIRED | ROLLED_BACK | SUPERSEDED =>
      rw [hs] at hp
      cases hp

theorem critical_supersede_among {project_id : String} {files : List Path}
    {Q : Except Err (List String) → World Bytes → Prop} {current : Option String}
    (hcurrent : current = J.current)
    (hat : J.At owner t w) (hJ : Inv J) (hfiles : ∀ p ∈ files, Known store p w)
    (hok : ∀ w' J' ids, Later store i w w' → J'.At owner t w' → Inv J' →
      Overtaking i t.path J J' →
      (∀ x ∈ J'.entries, x.project_id.text = project_id →
        store.receipt_path x.receipt_id ∈ files → x.tx_state.incomplete = false) →
      (∀ x ∈ J'.entries, x.tx_state = .RECOVERY_REQUIRED → x ∈ J.entries) → Q (.ok ids) w')
    (herror : ∀ w' J' err, Later store i w w' → J'.At owner t w' → Inv J' →
      Overtaking i t.path J J' → err.isRecoveryRequired = true → ¬ J.Resolvable project_id →
      Q (.error err) w') :
    critical owner i t Inv (store.supersede_among project_id t.path current files) Q w := by
  induction files generalizing w J Q with
  | nil => exact hok w J [] (.refl w) hat hJ .refl (by simp) fun x hx _ => hx
  | cons p rest ih =>
    refine wp_seq.mpr (wp_attempt.mpr (critical_read_validated hat (hfiles p List.mem_cons_self)
      fun w₁ r hw₁ hat₁ hseen => ?_))
    have hrest : ∀ q ∈ rest, Known store q w₁ :=
      fun q hq => (hfiles q (List.mem_cons_of_mem _ hq)).later hw₁
    simp only [onResult_ok]
    split
    · rename_i hc
      simp only [Bool.and_eq_true] at hc
      obtain ⟨hproject, hpath⟩ := (concerns_iff (x := (p, r))).mp hc.1
      obtain ⟨e, he, rfl, rfl⟩ : ∃ e ∈ J.entries, p = store.receipt_path e.receipt_id ∧
          r = e.receipt t := by
        rcases hseen with hown | ⟨hne, _⟩
        · exact hown
        · exact absurd hpath hne
      subst hcurrent
      refine wp_seq.mpr (critical_supersede_one hstep hover hat₁ hJ he hproject hc.2
        (fun w₂ J₂ o hw₂ hat₂ hJ₂ htook => ?_)
        fun w₂ J₂ err hw₂ hat₂ hJ₂ hover' herr hres => ?_)
      · refine wp_seq.mpr (ih htook.overtaking.quiet.current.symm hat₂ hJ₂
          (fun q hq => (hrest q hq).later hw₂)
          (fun w₃ J₃ ids hw₃ hat₃ hJ₃ hover₃ hdone hreq => ?_)
          fun w₃ J₃ err hw₃ hat₃ hJ₃ hover₃ herr hres => ?_)
        · refine hok w₃ J₃ _ ((hw₁.trans hw₂).trans hw₃) hat₃ hJ₃ (htook.overtaking.trans hover₃) ?_
            fun x hx hstate => htook.required x (hreq x hx hstate) hstate
          intro x hx hxp hmem
          rcases List.mem_cons.mp hmem with heq | hmem
          · obtain ⟨y, hy, s, rfl, hs⟩ := hover₃.entry hat₂.wf hx
            have hcomplete := htook.done y hy (receipt_path_inj heq)
            exact hs.complete hcomplete
          · exact hdone x hx hxp hmem
        · exact herror w₃ J₃ err ((hw₁.trans hw₂).trans hw₃) hat₃ hJ₃ (htook.overtaking.trans hover₃)
            herr fun h => hres (htook.resolvable h)
      · exact herror w₂ J₂ err (hw₁.trans hw₂) hat₂ hJ₂ hover' herr hres
    · rename_i hc
      refine ih hcurrent hat₁ hJ hrest
        (fun w₂ J₂ ids hw₂ hat₂ hJ₂ hover₂ hdone hreq => ?_)
        fun w₂ J₂ err hw₂ hat₂ hJ₂ hover₂ herr hres =>
          herror w₂ J₂ err (hw₁.trans hw₂) hat₂ hJ₂ hover₂ herr hres
      refine hok w₂ J₂ ids (hw₁.trans hw₂) hat₂ hJ₂ hover₂ ?_ hreq
      intro x hx hxp hmem
      rcases List.mem_cons.mp hmem with heq | hmem
      · obtain ⟨e, he, s, rfl, hs⟩ := hover₂.entry hat.wf hx
        have hr := hseen.own hat.wf he heq.symm
        subst hr
        have hconcerns : RecoveryStore.concerns project_id t.path (e.receipt t) = true :=
          (concerns_iff (x := (p, e.receipt t))).mpr ⟨hxp, rfl⟩
        rw [hconcerns, Bool.true_and, Entry.receipt_tx_state] at hc
        exact hs.complete (by simpa using hc)
      · exact hdone x hx hxp hmem

/-- The pending receipts of the target are settled before a rollback, or one of
them denies it. -/
theorem critical_supersede_pending {project_id : String}
    {Q : Except Err (List String) → World Bytes → Prop} (hat : J.At owner t w) (hJ : Inv J)
    (hok : ∀ w' J' ids, Later store i w w' → J'.At owner t w' → Inv J' →
      Overtaking i t.path J J' → J'.Settled project_id →
      (∀ x ∈ J'.entries, x.tx_state = .RECOVERY_REQUIRED → x ∈ J.entries) → Q (.ok ids) w')
    (herror : ∀ w' J' err, Later store i w w' → J'.At owner t w' → Inv J' →
      Overtaking i t.path J J' → err.isRecoveryRequired = true → ¬ J.Resolvable project_id →
      Q (.error err) w') :
    critical owner i t Inv (store.supersede_pending project_id t.path) Q w := by
  refine wp_seq.mpr (critical_observed hat fun w₁ observed hw₁ hat₁ hcurrent => ?_)
  refine wp_seq.mpr (critical_iter_receipt_files hat₁ fun w₂ files hw₂ hat₂ hfiles => ?_)
  refine critical_supersede_among hstep hover hcurrent hat₂ hJ hfiles.known
    (fun w₃ J' ids hw₃ hat₃ hJ' hover' hdone hreq => ?_)
    fun w₃ J' err hw₃ hat₃ hJ' hover' herr hres =>
      herror w₃ J' err ((hw₁.trans hw₂).trans hw₃) hat₃ hJ' hover' herr hres
  refine hok w₃ J' ids ((hw₁.trans hw₂).trans hw₃) hat₃ hJ' hover' (fun x hx hp => ?_) hreq
  obtain ⟨e, he, s, rfl⟩ := hover'.quiet.entry hx
  exact hdone _ hx hp (hfiles.covers e he)

end Loop

section Settled

theorem critical_supersede_among_settled {project_id : String} {files : List Path}
    {Q : Except Err (List String) → World Bytes → Prop} {current : Option String}
    (hat : J.At owner t w) (hsettled : J.Settled project_id) (hfiles : ∀ p ∈ files, Known store p w)
    (hok : ∀ w' ids, Later store i w w' → J.At owner t w' → Q (.ok ids) w') :
    critical owner i t Inv (store.supersede_among project_id t.path current files) Q w := by
  induction files generalizing w Q with
  | nil => exact hok w [] (.refl w) hat
  | cons p rest ih =>
    refine wp_seq.mpr (wp_attempt.mpr (critical_read_validated hat (hfiles p List.mem_cons_self)
      fun w₁ r hw₁ hat₁ hseen => ?_))
    have hrest : ∀ q ∈ rest, Known store q w₁ :=
      fun q hq => (hfiles q (List.mem_cons_of_mem _ hq)).later hw₁
    simp only [onResult_ok]
    split
    · rename_i hc
      simp only [Bool.and_eq_true] at hc
      obtain ⟨hproject, hpath⟩ := (concerns_iff (x := (p, r))).mp hc.1
      rcases hseen with ⟨e, he, _, hr⟩ | ⟨hne, _⟩
      · subst hr
        have hcomplete := hsettled e he hproject
        rw [Entry.receipt_tx_state, hcomplete] at hc
        cases hc.2
      · exact absurd hpath hne
    · exact ih hat₁ hrest fun w₂ ids hw₂ hat₂ => hok w₂ ids (hw₁.trans hw₂) hat₂

/-- Where nothing of the project is pending, a rollback has nothing to settle. -/
theorem critical_supersede_pending_settled {project_id : String}
    {Q : Except Err (List String) → World Bytes → Prop} (hat : J.At owner t w)
    (hsettled : J.Settled project_id)
    (hok : ∀ w' ids, Later store i w w' → J.At owner t w' → Q (.ok ids) w') :
    critical owner i t Inv (store.supersede_pending project_id t.path) Q w := by
  refine wp_seq.mpr (critical_observed hat fun w₁ observed hw₁ hat₁ hcurrent => ?_)
  refine wp_seq.mpr (critical_iter_receipt_files hat₁ fun w₂ files hw₂ hat₂ hfiles => ?_)
  exact critical_supersede_among_settled hat₂ hsettled hfiles.known
    fun w₃ ids hw₃ hat₃ => hok w₃ ids ((hw₁.trans hw₂).trans hw₃) hat₃

end Settled

end jvc.recovery
