import Jvc.Execution.Executor
import Jvc.Recovery.Undoing

open program program.Prog jvc.recovery

namespace jvc

variable {Bytes : Type} [Text] [Host Bytes]

namespace recovery.Journal

/-- The preimage the caller presents is the content of the target. -/
def Expected (J : Journal Bytes) (expected : Option String) : Prop :=
  match J.target with
  | none => GovernedExecutor.absent expected = true
  | some data => GovernedExecutor.absent expected = false ∧
      sha256_bytes data = strip (Text.upper (expected.getD ""))

/-- A write that can be announced is a step of the journal. -/
theorem Announces.step {J : Journal Bytes} {p : ProjectId} {e : Entry Bytes} {i : Pid} {t : Path}
    (h : J.Announces p e) (hsettled : J.Settled p.text) (hfree : J.Unblocked p.text) :
    Step i t (.prepare p) J (J.add e) := by
  have hfresh : e.receipt_id ∉ J.entries.map Entry.receipt_id := by
    intro hmem
    obtain ⟨x, hx, hxid⟩ := List.mem_map.mp hmem
    exact h.fresh x hx hxid
  have hproject := h.project
  subst hproject
  exact .prepare hfresh h.kind h.state hsettled hfree h.prev

end recovery.Journal

namespace GovernedExecutor

/-- Why a governed write raises inside the lock, and the journal it leaves. -/
inductive WriteDenied (i : Pid) (t : Path) (p : ProjectId) (expected : Option String)
    (J : Journal Bytes) (w : World Bytes) : Err → Journal Bytes → Prop
  | blocked {err : Err} {J' : Journal Bytes} (hsettling : Settling i t J J')
      (hunresolved : ¬ J.Resolvable p.text) (herr : err.isRecoveryRequired = true) :
      WriteDenied i t p expected J w err J'
  | unnamed {err : Err} {J' : Journal Bytes} (hsettling : Settling i t J J')
      (hfree : J'.Unblocked p.text) (hlong : too_long t = true)
      (herr : err.isRecoveryRequired = false) : WriteDenied i t p expected J w err J'
  | stale {err : Err} {J' : Journal Bytes} (hsettling : Settling i t J J')
      (hfree : J'.Unblocked p.text) (hstale : ¬ J.Expected expected)
      (herr : err.isRecoveryRequired = false) : WriteDenied i t p expected J w err J'
  | oversized {err : Err} {J' : Journal Bytes} (hsettling : Settling i t J J')
      (hfree : J'.Unblocked p.text) (hsize : J.Oversized)
      (herr : err.isRecoveryRequired = false) : WriteDenied i t p expected J w err J'
  | repeated {err : Err} {J' : Journal Bytes} (hsettling : Settling i t J J')
      (hfree : J'.Unblocked p.text) (hrepeat : Unallocated err w) :
      WriteDenied i t p expected J w err J'

/-- What a governed write that goes through has found. -/
structure Wrote (i : Pid) (t : Path) (p : ProjectId) (expected : Option String)
    (J J' : Journal Bytes) (e : Entry Bytes) : Prop where
  settling : Settling i t J J'
  settled : J'.Settled p.text
  unblocked : J'.Unblocked p.text
  expected : J.Expected expected
  announces : J'.Announces p e

/-- The reply of a governed write that goes through. -/
def reply (project_id canonical_rel : String) (J : Journal Bytes) (e : Entry Bytes)
    (content : Bytes) : WriteReply :=
  .PASS (if J.target.isSome then "FILE_EDIT" else "FILE_CREATE") project_id canonical_rel
    e.receipt_id J.current (sha256_bytes content)

variable {self : GovernedExecutor} {owner : Option Pid} {i : Pid}
  {t : Target self.recovery_store} {Inv : Journal Bytes → Prop} {J : Journal Bytes}
  {w w' : World Bytes}

/-- The gate inside the lock: pending receipts are reconciled, unresolved ones deny. -/
theorem critical_assert_unblocked {p : ProjectId} {canonical_rel : String}
    {Q : Except Err Unit → World Bytes → Prop}
    (hstep : ∀ J J', Inv J → Step i t.path .settle J J' → Inv J')
    (hat : J.At owner t w) (hJ : Inv J)
    (hok : ∀ w' J', J'.At owner t w' → Inv J' → Settling i t.path J J' → J'.Settled p.text →
      J'.Unblocked p.text → Q (.ok ()) w')
    (herror : ∀ w' J' err, J'.At owner t w' → Inv J' → Settling i t.path J J' →
      ¬ J.Resolvable p.text → err.isRecoveryRequired = true → Q (.error err) w') :
    critical owner i t Inv (self.assert_unblocked p.text t.path canonical_rel) Q w := by
  refine wp_seq.mpr (critical_reconcile_target hstep hat hJ
    fun w₁ J' pending hw₁ hat₁ hJ' hsettling hsettled hfree hres => ?_)
  refine wp_seq.mpr (wp_raiseIf.mpr ⟨fun hreq => ?_, fun hnone => ?_⟩)
  · refine herror w₁ J' _ hat₁ hJ' hsettling (fun h => ?_) rfl
    rw [hres h] at hreq
    cases hreq
  · have hunblocked : J'.Unblocked p.text := hfree (by simpa using hnone)
    refine wp_seq.mpr (critical_has_blocking_state hat₁ (fun w₂ hw₂ hat₂ _ => ?_)
      fun w₂ id hw₂ hat₂ hblocked => absurd hunblocked hblocked)
    exact hok w₂ J' hat₂ hJ' hsettling hsettled hunblocked

/-- The comparison of the presented preimage with the content under the lock. -/
theorem critical_check_preimage {canonical_rel : String} {expected : Option String}
    {Q : Except Err (Option Bytes) → World Bytes → Prop} (hat : J.At owner t w)
    (hok : ∀ w', J.At owner t w' → too_long t.path = false → J.Expected expected →
      Q (.ok J.target) w')
    (hlong : ∀ err, too_long t.path = true → err.isRecoveryRequired = false → Q (.error err) w)
    (herror : ∀ w' err, J.At owner t w' → ¬ J.Expected expected →
      err.isRecoveryRequired = false → Q (.error err) w') :
    critical owner i t Inv (check_preimage t.path canonical_rel expected) Q w := by
  refine wp_seq.mpr (wp_raiseIf.mpr ⟨fun h => hlong _ h rfl, fun hfits => ?_⟩)
  refine wp_seq.mpr (wp_is_file fun w₁ hw₁ => ?_)
  have hat₁ := hw₁.view J hat
  rw [hat₁.target]
  cases htarget : J.target with
  | none =>
    have hexpected : J.Expected expected ↔ absent expected = true := by
      simp only [Journal.Expected, htarget]
    rw [htarget] at hok
    refine wp_seq.mpr (wp_raiseIf.mpr ⟨fun habsent => ?_, fun habsent => ?_⟩)
    · refine herror w₁ _ hat₁ (fun h => ?_) rfl
      rw [hexpected.mp h] at habsent
      cases habsent
    · exact hok w₁ hat₁ hfits (hexpected.mpr (by simpa using habsent))
  | some data =>
    have hexpected : J.Expected expected ↔ absent expected = false ∧
        sha256_bytes data = strip (Text.upper (expected.getD "")) := by
      simp only [Journal.Expected, htarget]
    rw [htarget] at hok
    refine wp_seq.mpr (wp_read_bytes (fun w₂ found hw₂ hfound => ?_) fun w₂ err hw₂ hnone _ => ?_)
    · have hat₂ := hw₂.view J hat₁
      rw [hat₂.target, htarget] at hfound
      cases hfound
      rw [onResult_ok, wp_seq, wp_raiseIf]
      refine ⟨fun habsent => ?_, fun habsent => ?_⟩
      · refine herror w₂ _ hat₂ (fun h => ?_) rfl
        rw [(hexpected.mp h).1] at habsent
        cases habsent
      · rw [onResult_ok, wp_seq, wp_raiseIf]
        refine ⟨fun hstale => ?_, fun hsame => ?_⟩
        · refine herror w₂ _ hat₂ (fun h => ?_) rfl
          have hne : sha256_bytes data ≠ strip (Text.upper (expected.getD "")) := by
            simpa using hstale
          exact hne (hexpected.mp h).2
        · exact hok w₂ hat₂ hfits (hexpected.mpr ⟨habsent, by simpa using hsame⟩)
    · rw [(hw₂.view J hat₁).target, htarget] at hnone
      cases hnone

/-- The steps of a governed write, once announced, end in `written`. -/
theorem written_eq {p : ProjectId} {e : Entry Bytes} (h : J.Announces p e) (path : Path)
    (content : Bytes) :
    ((((J.add e).change i path (some content) (some e.receipt_id)).update e.receipt_id fun x =>
      x.applied (sha256_bytes content)).mark e.receipt_id .VERIFIED) =
        J.written i path e content := by
  have hrest : ∀ f : Entry Bytes → Entry Bytes,
      (J.entries.map fun x => if x.receipt_id = e.receipt_id then f x else x) = J.entries := by
    intro f
    refine (List.map_congr_left fun x hx => ?_).trans (List.map_id J.entries)
    rw [if_neg (h.fresh x hx)]
    rfl
  simp only [Journal.written, Journal.mark, Journal.update, Journal.change, Journal.add,
    List.map_cons, hrest, Entry.applied_receipt_id, if_true, Entry.verified]

/-- The journaled replacement of the target; from its receipt on it keeps an invariant of
its own. -/
theorem critical_replace_target {Inv₁ : Journal Bytes → Prop} {p : ProjectId}
    {canonical_rel : String} {content : Bytes} {Q : Except Err WriteReply → World Bytes → Prop}
    (hsub₁ : ∀ J, Inv₁ J → Inv J) (hprepare : ∀ J', Step i t.path (.prepare p) J J' → Inv₁ J')
    (hwrite : ∀ J J', Inv₁ J → Step i t.path .write J J' →
      J'.log = J.log ∨ J'.target = some content → Inv₁ J')
    (hat : J.At owner t w) (hJ : Inv J) (hfits : too_long t.path = false) (hlogged : J.Logged)
    (hsettled : J.Settled p.text) (hfree : J.Unblocked p.text)
    (hok : ∀ w' e, (J.written i t.path e content).At owner t w' →
      Inv (J.written i t.path e content) → J.Announces p e →
        Q (.ok (reply p.text canonical_rel J e content)) w')
    (herror : ∀ w' err, J.At owner t w' → err.isRecoveryRequired = false →
      J.Oversized ∨ Unallocated err w' → Q (.error err) w') :
    critical owner i t Inv
      (self.replace_target p.text t.path canonical_rel J.target content) Q w := by
  refine wp_seq.mpr (critical_save_preimage (fun J' hstep => hsub₁ J' (hprepare J' hstep)) hat hJ
    hfits hsettled hfree (fun w₁ e hat₁ _ hann => ?_) herror)
  have hJ₁ : Inv₁ (J.add e) := hprepare _ (hann.step hsettled hfree)
  have hkind := hann.kind
  have hw : e.kind.isWrite = true := by rw [hkind]; rfl
  have hpre : e.kind.pre = J.current := by rw [hkind]; rfl
  have hbackup : e.kind.backup = J.target := by rw [hkind]; rfl
  have hnew : ∀ c ∈ (J.add e).log, c.receipt_id ≠ some e.receipt_id := by
    intro c hc hid
    obtain ⟨x, hx, hxid⟩ := List.mem_map.mp (hlogged c hc _ hid)
    exact hann.fresh x hx hxid
  have hone : Step i t.path .write (J.add e)
      ((J.add e).change i t.path (some content) (some e.receipt_id)) :=
    .install (J := J.add e) rfl hw hann.state hpre hbackup hnew content
  have hJ₂ := hwrite _ _ hJ₁ hone (.inr rfl)
  have htwo : Step i t.path .write ((J.add e).change i t.path (some content) (some e.receipt_id))
      (((J.add e).change i t.path (some content) (some e.receipt_id)).update e.receipt_id
        fun x => x.applied (sha256_bytes content)) :=
    .note rfl hw hann.state rfl rfl rfl
  have hJ₃ := hwrite _ _ hJ₂ htwo (.inl rfl)
  have hmem₃ : e.applied (sha256_bytes content) ∈ (((J.add e).change i t.path (some content)
      (some e.receipt_id)).update e.receipt_id fun x => x.applied (sha256_bytes content)).entries :=
    Journal.mem_update.mpr ⟨e, List.mem_cons_self, .inl ⟨rfl, rfl⟩⟩
  have hkind₃ : (e.applied (sha256_bytes content)).kind =
      .write e.kind.prev J.current (some (sha256_bytes content)) J.target := by
    rw [Entry.applied_write hkind]
  have hhead₃ : (((J.add e).change i t.path (some content) (some e.receipt_id)).update
      e.receipt_id fun x => x.applied (sha256_bytes content)).entries =
        e.applied (sha256_bytes content) :: J.entries := Journal.update_head rfl hann.fresh _
  have hok' : (e.applied (sha256_bytes content)).backup_ok = true := by
    simp only [Entry.backup_ok, hkind₃, Journal.current]
    cases J.target <;> simp
  have hpost₃ : (e.applied (sha256_bytes content)).kind.post = some (sha256_bytes content) := by
    rw [hkind₃]
    rfl
  have hthree := Step.verify (i := i) (t := t.path) hhead₃ (by rw [Entry.applied_isWrite, hw])
    (Entry.applied_tx_state _ _) hpost₃ rfl hok'
  rw [Entry.applied_receipt_id] at hthree
  have hJ₄ := hwrite _ _ hJ₃ hthree (.inl rfl)
  refine wp_seq.mpr (critical_install hat₁ (hsub₁ _ hJ₂) fun w₂ _ hat₂ => ?_)
  refine wp_seq.mpr (wp_sha256_file (fun w₃ found hw₃ hfound => ?_) fun w₃ err hw₃ hnone _ => ?_)
  · have hat₃ := hw₃.view _ hat₂
    rw [hat₃.target] at hfound
    cases hfound
    refine wp_seq.mpr (critical_note_target_replaced (J := (J.add e).change i t.path
      (some content) (some e.receipt_id)) hat₃ List.mem_cons_self hw hann.state
        (Host.upper_sha256 content) (hsub₁ _ hJ₃) fun w₄ hat₄ => ?_)
    rw [onResult_ok, ← Entry.applied_receipt_id e (sha256_bytes content)]
    refine wp_seq.mpr (critical_record_postimage hat₄ (hsub₁ _ hJ₃) hmem₃ ?_ (Entry.applied_tx_state _ _)
      ?_ rfl ?_ fun w₅ hat₅ => ?_)
    · rw [Entry.applied_isWrite, hw]
    · exact hpost₃
    · rw [Entry.applied_receipt_id]
      exact hsub₁ _ hJ₄
    · rw [Entry.applied_receipt_id, written_eq hann] at hat₅
      rw [written_eq hann] at hJ₄
      rw [Entry.applied_receipt_id]
      exact hok w₅ e hat₅ (hsub₁ _ hJ₄) hann
  · rw [(hw₃.view _ hat₂).target] at hnone
    cases hnone

/-- The critical section of a governed write, in its three parts. -/
theorem critical_write_locked_from {Inv₀ Inv₁ : Journal Bytes → Prop} {p : ProjectId}
    {canonical_rel : String} {content : Bytes} {expected : Option String}
    {Q : Except Err WriteReply → World Bytes → Prop}
    (hsub : ∀ J, Inv₀ J → Inv J) (hsub₁ : ∀ J, Inv₁ J → Inv J)
    (hstep : ∀ J J', Inv₀ J → Step i t.path .settle J J' → Inv₀ J')
    (hprepare : J.Expected expected → ∀ J J', Inv₀ J → Step i t.path (.prepare p) J J' → Inv₁ J')
    (hwrite : ∀ J J', Inv₁ J → Step i t.path .write J J' →
      J'.log = J.log ∨ J'.target = some content → Inv₁ J')
    (hat : J.At owner t w) (hJ : Inv₀ J) (hlogged : J.Logged)
    (hok : ∀ w' J' e, (J'.written i t.path e content).At owner t w' →
      Inv (J'.written i t.path e content) → Wrote i t.path p expected J J' e →
        Q (.ok (reply p.text canonical_rel J' e content)) w')
    (herror : ∀ w' J' err, J'.At owner t w' → Inv₀ J' →
      WriteDenied i t.path p expected J w' err J' → Q (.error err) w') :
    critical owner i t Inv
      (self.write_locked p.text t.path canonical_rel content expected) Q w := by
  refine wp_seq.mpr (critical_mono hsub (critical_assert_unblocked hstep hat hJ
    (fun w₁ J' hat₁ hJ' hsettling hsettled hfree => ?_)
    fun w₁ J' err hat₁ hJ' hsettling hres herr =>
      herror w₁ J' err hat₁ hJ' (.blocked hsettling hres herr)))
  have htarget : J'.target = J.target := hsettling.quiet.target
  have hexpected : J'.Expected expected ↔ J.Expected expected := by
    simp only [Journal.Expected, htarget]
  have hlogged' : J'.Logged := by
    intro c hc id hid
    rw [hsettling.quiet.log] at hc
    rw [hsettling.quiet.ids]
    exact hlogged c hc id hid
  refine wp_seq.mpr (critical_check_preimage hat₁ (fun w₂ hat₂ hfits hmatch => ?_)
    (fun err hlong herr => herror w₁ J' err hat₁ hJ' (.unnamed hsettling hfree hlong herr))
    fun w₂ err hat₂ hstale herr => herror w₂ J' err hat₂ hJ'
      (.stale hsettling hfree (fun h => hstale (hexpected.mpr h)) herr))
  have hprepare' : ∀ J'', Step i t.path (.prepare p) J' J'' → Inv₁ J'' :=
    fun J'' => hprepare (hexpected.mp hmatch) J' J'' hJ'
  refine critical_replace_target hsub₁ hprepare' hwrite hat₂ (hsub J' hJ') hfits hlogged' hsettled
    hfree (fun w₃ e hat₃ hJ₃ hann => ?_) fun w₃ err hat₃ herr hwhy => ?_
  · exact hok w₃ J' e hat₃ hJ₃ ⟨hsettling, hsettled, hfree, hexpected.mp hmatch, hann⟩
  · rcases hwhy with ⟨data, hdata, hsize⟩ | hrepeat
    · rw [htarget] at hdata
      exact herror w₃ J' err hat₃ hJ' (.oversized hsettling hfree ⟨data, hdata, hsize⟩ herr)
    · exact herror w₃ J' err hat₃ hJ' (.repeated hsettling hfree hrepeat)

/-- The critical section of a governed write. -/
theorem critical_write_locked {Inv₀ : Journal Bytes → Prop} {p : ProjectId} {canonical_rel : String} {content : Bytes}
    {expected : Option String} {Q : Except Err WriteReply → World Bytes → Prop}
    (hsub : ∀ J, Inv₀ J → Inv J)
    (hstep : ∀ J J', Inv₀ J → Step i t.path .settle J J' → Inv₀ J')
    (hprepare : J.Expected expected → ∀ J J', Inv₀ J → Step i t.path (.prepare p) J J' → Inv J')
    (hwrite : ∀ J J', Inv J → Step i t.path .write J J' → Inv J')
    (hat : J.At owner t w) (hJ : Inv₀ J) (hlogged : J.Logged)
    (hok : ∀ w' J' e, (J'.written i t.path e content).At owner t w' →
      Inv (J'.written i t.path e content) → Wrote i t.path p expected J J' e →
        Q (.ok (reply p.text canonical_rel J' e content)) w')
    (herror : ∀ w' J' err, J'.At owner t w' → Inv₀ J' →
      WriteDenied i t.path p expected J w' err J' → Q (.error err) w') :
    critical owner i t Inv
      (self.write_locked p.text t.path canonical_rel content expected) Q w :=
  critical_write_locked_from hsub (fun _ hJ => hJ) hstep hprepare
    (fun J J' hJ hone _ => hwrite J J' hJ hone) hat hJ hlogged hok herror

/-- The critical section of a governed rollback. -/
theorem critical_rollback_locked {Inv₀ : Journal Bytes → Prop} {p : ProjectId} {canonical_rel expected : String}
    {Q : Except Err RollbackResult → World Bytes → Prop}
    (hsub : ∀ J, Inv₀ J → Inv J)
    (hstep : ∀ J J', Inv₀ J → Step i t.path .settle J J' → Inv₀ J')
    (hover : ∀ J J', Inv₀ J → Step i t.path .overtake J J' → Inv₀ J')
    (hintend : ∀ J J', Inv₀ J → Step i t.path (.intend p) J J' → Inv J')
    (hundo : ∀ J J', Inv J → Step i t.path .undo J J' → Inv J')
    (hat : J.At owner t w) (hJ : Inv₀ J)
    (hok : ∀ w' J' r s, (J'.undone i t.path r s).At owner t w' → Inv (J'.undone i t.path r s) →
      RolledBack i t.path p expected J J' r s →
        Q (.ok ⟨s.receipt_id, r.receipt_id, t.path, s.undoing⟩) w')
    (hlost : ∀ w' J' r s err, ((J'.add r).mark r.receipt_id .RECOVERY_REQUIRED).At owner t w' →
      Inv ((J'.add r).mark r.receipt_id .RECOVERY_REQUIRED) → Overtaking i t.path J J' →
        J'.Settled p.text → J'.Intends p (strip (Text.upper expected)) r s →
          s.backup_ok = false → err.isRecoveryRequired = false → Q (.error err) w')
    (herror : ∀ w' J' err, J'.At owner t w' → Inv₀ J' →
      RollbackDenied i t.path p expected J w' err J' → Q (.error err) w') :
    critical owner i t Inv (self.rollback_locked p.text t.path canonical_rel expected) Q w := by
  refine wp_seq.mpr (critical_corrupt_receipt_files hat fun w₁ _ hat₁ => ?_)
  refine wp_seq.mpr (wp_raiseIf.mpr ⟨fun h => (Bool.false_ne_true h).elim, fun _ => ?_⟩)
  exact critical_rollback hsub hstep hover hintend hundo hat₁ hJ hok hlost herror

end GovernedExecutor

end jvc
