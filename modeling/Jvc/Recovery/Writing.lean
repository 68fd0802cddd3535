import Jvc.Recovery.Lineage
import Jvc.Recovery.Settling

open program program.Prog

namespace jvc.recovery

variable {Bytes : Type} [Text] [Host Bytes] {store : RecoveryStore} {owner : Option Pid} {i : Pid}
  {t : Target store} {Inv : Journal Bytes → Prop} {J : Journal Bytes} {w w' : World Bytes}

namespace Journal

/-- The receipt a governed write opens with. -/
structure Announces (J : Journal Bytes) (p : ProjectId) (e : Entry Bytes) : Prop where
  project : e.project_id = p
  kind : e.kind = .write e.kind.prev J.current none J.target
  state : e.tx_state = .PREPARED
  fresh : ∀ x ∈ J.entries, x.receipt_id ≠ e.receipt_id
  prev : J.Supersedes p.text e.kind.prev

/-- The target is too large to be backed up. -/
def Oversized (J : Journal Bytes) : Prop :=
  ∃ data, J.target = some data ∧ MAX_BACKUP_BYTES < Host.size data

/-- The log only names receipts of the journal. -/
def Logged (J : Journal Bytes) : Prop :=
  ∀ c ∈ J.log, ∀ id, c.receipt_id = some id → id ∈ J.entries.map Entry.receipt_id

end Journal

/-- The receipt of a finished write. -/
def Entry.verified (e : Entry Bytes) (post : String) : Entry Bytes := (e.applied post).mark .VERIFIED

/-- The journal after a write that went through. -/
def Journal.written (J : Journal Bytes) (i : Pid) (t : Path) (e : Entry Bytes) (content : Bytes) :
    Journal Bytes where
  entries := e.verified (sha256_bytes content) :: J.entries
  target := some content
  log := ⟨i, t, J.target, some content, some e.receipt_id⟩ :: J.log

omit [Text] [Host Bytes] in
theorem Entry.applied_write {e : Entry Bytes} {prev pre post : Option String}
    {backup : Option Bytes} (hk : e.kind = .write prev pre post backup) (text : String) :
    e.applied text = { e with tx_state := .APPLIED, kind := .write prev pre (some text) backup } := by
  simp only [Entry.applied, hk]

omit [Text] [Host Bytes] in
/-- Rewriting the newest receipt leaves the older ones alone. -/
theorem Journal.update_head {e : Entry Bytes} {rest : List (Entry Bytes)}
    (h : J.entries = e :: rest) (hfresh : ∀ x ∈ rest, x.receipt_id ≠ e.receipt_id)
    (f : Entry Bytes → Entry Bytes) : (J.update e.receipt_id f).entries = f e :: rest := by
  simp only [Journal.update, h, List.map_cons, if_true]
  congr 1
  refine (List.map_congr_left fun x hx => ?_).trans (List.map_id rest)
  rw [if_neg (hfresh x hx)]
  rfl

section Ids

/-- Fresh ids: one is drawn, unless the random part has repeated. -/
theorem critical_allocate {prefix_text : String} {n : Nat}
    {Q : Except Err String → World Bytes → Prop} (hat : J.At owner t w) (hInv : Inv J)
    (hn : n = 0 → ¬ w.NoRepeat)
    (hok : ∀ w' s, Later store i w w' → J.At owner t w' →
      store.Reserved i prefix_text s none w' → Q (.ok (prefix_text ++ s.text)) w')
    (herror : ∀ w' err, Later store i w w' → J.At owner t w' → Unallocated err w' →
      Q (.error err) w') :
    critical owner i t Inv (store.allocate prefix_text n) Q w := by
  induction n generalizing w with
  | zero => exact herror w _ (.refl w) hat ⟨rfl, hn rfl⟩
  | succ n ih =>
    refine wp_seq.mpr (critical_act hat hInv fun w₁ hw₁ hat₁ => ?_)
    let w₂ : World Bytes :=
      { w₁ with ticks := w₁.ticks + 1, drawer := Function.update w₁.drawer w₁.ticks (some i) }
    have htouch : Touch i t w₁ w₂ := .draw w₁
    have hat₂ : J.At owner t w₂ := { hat₁ with sound := htouch.sound hat₁.sound }
    have hw₂ : Later store i w w₂ := by
      refine hw₁.toLater.trans (htouch.later fun front s backup hres => ⟨?_, hres.receipt, hres.backup⟩)
      obtain ⟨m, hm, hstamp, hdrawer⟩ := hres.drawn
      refine ⟨m, Nat.lt_succ_of_lt hm, hstamp, ?_⟩
      simpa only [w₂, Function.update_of_ne hm.ne] using hdrawer
    have hagain : ∀ w', Later store i w₂ w' → J.At owner t w' → ¬ w₂.NoRepeat →
        critical owner i t Inv (store.allocate prefix_text n) Q w' := by
      intro w' hw' hat' hrepeat
      exact ih hat' (fun _ hno => hrepeat (NoRepeat.of_later hno hw'))
        (fun w'' s hw'' => hok w'' s ((hw₂.trans hw').trans hw''))
        fun w'' err hw'' => herror w'' err ((hw₂.trans hw').trans hw'')
    refine ⟨htouch, hat₂, ?_⟩
    change critical owner i t Inv (do
      if ← is_file (store.receipt_path (prefix_text ++ (w₁.stamps w₁.ticks).text)) then
        store.allocate prefix_text n
      else if ← is_file (store.backup_path (prefix_text ++ (w₁.stamps w₁.ticks).text)) then
        store.allocate prefix_text n
      else pure (prefix_text ++ (w₁.stamps w₁.ticks).text)) Q w₂
    by_cases hexists :
        (w₁.lookup (store.receipt_path (prefix_text ++ (w₁.stamps w₁.ticks).text))).isSome ∨
          (w₁.lookup (store.backup_path (prefix_text ++ (w₁.stamps w₁.ticks).text))).isSome
    · obtain ⟨m, hm, hstamp, hdrawer⟩ := hat₁.sound.drawn _ _ hexists
      have hrepeat : ¬ w₂.NoRepeat := by
        intro hno
        have hold : (w₂.drawer m).isSome = true := by
          rwa [show w₂.drawer m = w₁.drawer m from Function.update_of_ne hm.ne _ _]
        have hnew : (w₂.drawer w₁.ticks).isSome = true := by
          rw [show w₂.drawer w₁.ticks = some i from Function.update_self _ _ _]
          rfl
        have heq := hno m w₁.ticks (Nat.lt_succ_of_lt hm) (Nat.lt_succ_self _) hold hnew hstamp
        omega
      refine wp_seq.mpr (wp_is_file fun w₃ hw₃ => ?_)
      have hat₃ := hw₃.view J hat₂
      simp only [onResult_ok]
      split
      · exact hagain w₃ hw₃.toLater hat₃ hrepeat
      · rename_i hreceipt
        refine wp_seq.mpr (wp_is_file fun w₄ hw₄ => ?_)
        have hbackup : (w₄.lookup
            (store.backup_path (prefix_text ++ (w₁.stamps w₁.ticks).text))).isSome = true := by
          rcases hexists with hr | hb
          · exact absurd (hw₃.receipts _ hr) hreceipt
          · exact hw₄.backups _ (hw₃.backups _ hb)
        simp only [onResult_ok, hbackup, if_true]
        exact hagain w₄ (hw₃.toLater.trans hw₄.toLater) (hw₄.view J hat₃) hrepeat
    · simp only [not_or, Option.not_isSome_iff_eq_none] at hexists
      have hres : store.Reserved i prefix_text (w₁.stamps w₁.ticks) none w₂ :=
        ⟨⟨w₁.ticks, Nat.lt_succ_self _, rfl, Function.update_self _ _ _⟩, hexists.1, hexists.2⟩
      refine wp_seq.mpr (wp_is_file fun w₃ hw₃ => ?_)
      have hres₃ := hw₃.reserved _ _ _ hres
      rw [hres₃.receipt]
      refine wp_seq.mpr (wp_is_file fun w₄ hw₄ => ?_)
      have hres₄ := hw₄.reserved _ _ _ hres₃
      rw [hres₄.backup]
      exact hok w₄ _ ((hw₂.trans hw₃.toLater).trans hw₄.toLater)
        (hw₄.view J (hw₃.view J hat₂)) hres₄

/-- The backup of a write is on disk, and verified, before its receipt exists. -/
theorem critical_write_backup {front : String} {s : Stamp} {data : Bytes}
    {Q : Except Err Unit → World Bytes → Prop} (hat : J.At owner t w) (hInv : Inv J)
    (hres : store.Reserved i front s none w)
    (hok : ∀ w', J.At owner t w' → store.Reserved i front s (some data) w' → Q (.ok ()) w')
    (herror : ∀ w' err, J.At owner t w' → err.isRecoveryRequired = false →
      MAX_BACKUP_BYTES < Host.size data → Q (.error err) w') :
    critical owner i t Inv (store.write_backup (front ++ s.text) data) Q w := by
  refine wp_seq.mpr (wp_raiseIf.mpr ⟨fun hsize => ?_, fun _ => ?_⟩)
  · exact herror w _ hat rfl (by simpa using hsize)
  refine wp_seq.mpr (critical_save hat hres hInv fun w₁ hat₁ hres₁ _ => ?_)
  refine wp_seq.mpr (wp_sha256_file (fun w₂ found hw₂ hfound => ?_) fun w₂ err hw₂ hnone _ => ?_)
  · have hres₂ := hw₂.reserved _ _ _ hres₁
    rw [hres₂.backup] at hfound
    cases hfound
    simp only [onResult_ok, wp_raiseIf, bne_self_eq_false]
    exact ⟨fun h => (Bool.false_ne_true h).elim, fun _ => hok w₂ (hw₂.view J hat₁) hres₂⟩
  · rw [(hw₂.reserved _ _ _ hres₁).backup] at hnone
    cases hnone

end Ids

theorem Entry.dict_prepared {e : Entry Bytes} {prev : Option String}
    (hk : e.kind = .write prev J.current none J.target) (hs : e.tx_state = .PREPARED) :
    store.preparedWrite e.receipt_id e.project_id.text t.path J.target prev e.seq =
      (e.receipt t).dict := by
  simp only [RecoveryStore.preparedWrite, Receipt.dict, Entry.receipt, Entry.details, hk, hs,
    Kind.operation, Kind.preimage_exists, Journal.current]
  cases J.target <;> rfl

/-- A write is announced: its receipt is PREPARED, over a backup of the target. -/
theorem critical_save_preimage {p : ProjectId} {Q : Except Err String → World Bytes → Prop}
    (hprepare : ∀ J', Step i t.path (.prepare p) J J' → Inv J') (hat : J.At owner t w)
    (hJ : Inv J) (hfits : too_long t.path = false) (hsettled : J.Settled p.text)
    (hfree : J.Unblocked p.text)
    (hok : ∀ w' e, (J.add e).At owner t w' → Inv (J.add e) → J.Announces p e →
      Q (.ok e.receipt_id) w')
    (herror : ∀ w' err, J.At owner t w' → err.isRecoveryRequired = false →
      J.Oversized ∨ Unallocated err w' → Q (.error err) w') :
    critical owner i t Inv (store.save_preimage p.text t.path J.target) Q w := by
  refine wp_seq.mpr (critical_allocate hat hJ (fun h => absurd h (by decide))
    (fun w₁ s hw₁ hat₁ hres₁ => ?_) fun w₁ err hw₁ hat₁ hrepeat =>
      herror w₁ err hat₁ hrepeat.plain (.inr hrepeat))
  simp only [onResult_ok]
  have hrest : ∀ w₂, J.At owner t w₂ →
      store.Reserved i ("recovery-" ++ p.text ++ "-") s J.target w₂ →
      critical owner i t Inv (do
        let prev ← store.find_superseded_id p.text t.path J.target
        let seq ← time_ns
        atomic_write_json (store.receipt_path ("recovery-" ++ p.text ++ "-" ++ s.text))
          (store.preparedWrite ("recovery-" ++ p.text ++ "-" ++ s.text) p.text t.path J.target
            prev seq)
        pure ("recovery-" ++ p.text ++ "-" ++ s.text)) Q w₂ := by
    intro w₂ hat₂ hres₂
    refine wp_seq.mpr (critical_find_superseded_id hat₂ fun w₃ prev hw₃ hat₃ hprev => ?_)
    refine wp_seq.mpr (critical_time_ns hat₃ hJ fun w₄ n hw₄ hat₄ => ?_)
    have hres₄ := hw₄.reserved _ _ _ (hw₃.reserved _ _ _ hres₂)
    let e : Entry Bytes := ⟨p, s, n, .PREPARED, .write prev J.current none J.target⟩
    have hid : e.receipt_id = "recovery-" ++ p.text ++ "-" ++ s.text := rfl
    have hdata : store.preparedWrite e.receipt_id p.text t.path J.target prev n =
        (e.receipt t).dict := e.dict_prepared rfl rfl
    have hnew : ∀ h : ∀ x ∈ J.entries, x.receipt_id ≠ e.receipt_id, Inv (J.add e) := by
      intro hfresh
      have hnotin : e.receipt_id ∉ J.entries.map Entry.receipt_id := by
        rintro hmem
        obtain ⟨x, hx, hxid⟩ := List.mem_map.mp hmem
        exact hfresh x hx hxid
      exact hprepare _ (.prepare hnotin rfl rfl hsettled hfree hprev)
    rw [← hid]
    simp only [onResult_ok]
    refine wp_seq.mpr (critical_record (e := e) hat₄ hid hres₄ (fun _ => rfl)
      (fun hfresh => hat₄.wf.add ?_ fun id hsource => ?_) hdata hfits hnew fun w₅ _ hat₅ => ?_)
    · rintro hmem
      obtain ⟨x, hx, hxid⟩ := List.mem_map.mp hmem
      exact hfresh x hx hxid
    · cases hsource
    · have hfresh : ∀ x ∈ J.entries, x.receipt_id ≠ e.receipt_id := by
        intro x hx
        rw [hid]
        exact hres₄.fresh hat₄ x hx
      exact hok w₅ e hat₅ (hnew hfresh) ⟨rfl, rfl, rfl, hfresh, hprev⟩
  cases htarget : J.target with
  | none =>
    rw [htarget] at hrest
    exact hrest w₁ hat₁ hres₁
  | some data =>
    rw [htarget] at hrest
    refine wp_seq.mpr (critical_write_backup hat₁ hJ hres₁ hrest fun w₂ err hat₂ herr hsize => ?_)
    exact herror w₂ err hat₂ herr (.inl ⟨data, htarget, hsize⟩)

omit [Text] [Host Bytes] in
theorem Entry.dict_applied {e : Entry Bytes} (hw : e.kind.isWrite = true) (post : String) :
    { (e.receipt t).dict with
      postimage_sha256 := some (.str post)
      tx_state := some (.str TxState.APPLIED.value) } = ((e.applied post).receipt t).dict := by
  cases hk : e.kind with
  | rollback =>
    rw [hk] at hw
    cases hw
  | write prev pre old backup =>
    simp only [e.applied_write hk, Receipt.dict, Entry.receipt, Entry.details, hk,
      Kind.operation, Kind.preimage_exists, RecoveryStore.optStr, Entry.receipt_id, Kind.name]
    rfl

/-- PREPARED becomes APPLIED once the target is replaced. -/
theorem critical_note_target_replaced {e : Entry Bytes} {post : String}
    {Q : Except Err Unit → World Bytes → Prop} (hat : J.At owner t w) (he : e ∈ J.entries)
    (hw : e.kind.isWrite = true) (hs : e.tx_state = .PREPARED) (hpost : Text.upper post = post)
    (hInv : Inv (J.update e.receipt_id fun x => x.applied post))
    (h : ∀ w', (J.update e.receipt_id fun x => x.applied post).At owner t w' → Q (.ok ()) w') :
    critical owner i t Inv (store.note_target_replaced e.receipt_id post) Q w := by
  refine wp_seq.mpr (wp_is_file fun w₁ hw₁ => ?_)
  have hat₁ := hw₁.view J hat
  rw [hat₁.held e he]
  simp only [onResult_ok, Option.isSome_some, Bool.not_true, wp_seq, wp_raiseIf, onResult_error,
    Bool.false_eq_true, false_implies, true_and, true_implies, tryCatch_eq, wp_handle]
  refine critical_read_json hat₁ (hat₁.known he) fun w₂ r hw₂ hat₂ hseen => ?_
  have hr := hseen.own hat₁.wf he rfl
  subst hr
  have hstate : (get (e.receipt t).dict.tx_state != .str TxState.PREPARED.value) = false := by
    simp [Receipt.dict, get, hs]
  simp only [onResult_ok, onResult_error, RecoveryStore.asObject, wp_seq, wp_raiseIf, wp_ofExcept, hstate, Bool.false_eq_true, false_implies,
    true_and, true_implies, hpost]
  exact critical_rewrite hat₂ he (Journal.keeps_applied post) (Entry.dict_applied hw post) hInv
    fun w₃ _ hat₃ => h w₃ hat₃

/-- APPLIED becomes VERIFIED once the target has been read back. -/
theorem critical_record_postimage {e : Entry Bytes} {post : String}
    {Q : Except Err Unit → World Bytes → Prop} (hat : J.At owner t w) (hJ : Inv J)
    (he : e ∈ J.entries) (hw : e.kind.isWrite = true) (hs : e.tx_state = .APPLIED)
    (hpost : e.kind.post = some post) (hcurrent : J.current = some post)
    (hInv : Inv (J.mark e.receipt_id .VERIFIED))
    (h : ∀ w', (J.mark e.receipt_id .VERIFIED).At owner t w' → Q (.ok ()) w') :
    critical owner i t Inv (store.record_postimage e.receipt_id post) Q w := by
  obtain ⟨content, htarget, rfl⟩ := Option.map_eq_some_iff.mp hcurrent
  refine wp_seq.mpr (wp_is_file fun w₁ hw₁ => ?_)
  have hat₁ := hw₁.view J hat
  rw [hat₁.held e he]
  simp only [onResult_ok, Option.isSome_some, Bool.not_true, wp_seq, wp_raiseIf, onResult_error,
    Bool.false_eq_true, false_implies, true_and, true_implies]
  refine critical_read_json hat₁ (hat₁.known he) fun w₂ r hw₂ hat₂ hseen => ?_
  have hr := hseen.own hat₁.wf he rfl
  subst hr
  have hstate : get (e.receipt t).dict.tx_state = .str TxState.APPLIED.value := by
    simp [Receipt.dict, get, hs]
  have hsame : { (e.receipt t).dict with
      postimage_sha256 := some (.str (sha256_bytes content))
      tx_state := some (.str TxState.APPLIED.value) } = (e.receipt t).dict := by
    rw [Entry.dict_applied hw]
    cases hk : e.kind with
    | rollback =>
      rw [hk] at hw
      cases hw
    | write prev pre old backup =>
      rw [hk] at hpost
      cases hpost
      rw [e.applied_write hk, ← hs, ← hk]
  have hfinal : { (e.receipt t).dict with
      postimage_sha256 := some (.str (sha256_bytes content))
      tx_state := some (.str TxState.VERIFIED.value) } = ((e.mark .VERIFIED).receipt t).dict :=
    congrArg (fun d : Dict => { d with tx_state := some (.str TxState.VERIFIED.value) }) hsame
  have hpath : located Bytes (textOf (e.receipt t).dict.path) = t.path := t.located
  have hsome : (e.receipt t).dict.path.isNone = false := rfl
  have hhash : (Val.str TxState.APPLIED.value).hashable = true := rfl
  simp only [onResult_ok, onResult_error, RecoveryStore.asObject, wp_seq, wp_raiseIf, wp_ofExcept,
    hstate, Host.upper_sha256, hsame, hsome, hpath, Bool.false_eq_true, false_implies, true_and,
    true_implies, bne_self_eq_false, Bool.and_false, hhash, Bool.not_true]
  refine critical_rewrite_same hat₂ he rfl hJ fun w₃ hw₃ hat₃ => ?_
  refine wp_seq.mpr (wp_raiseIf.mpr ⟨fun h => (Bool.false_ne_true h).elim, fun _ => ?_⟩)
  refine wp_seq.mpr (wp_attempt.mpr (wp_sha256_file (fun w₄ found hw₄ hfound => ?_)
    fun w₄ err hw₄ hnone _ => ?_))
  · have hat₄ := hw₄.view J hat₃
    rw [hat₄.target, htarget] at hfound
    cases hfound
    simp only [onResult_ok, bne_self_eq_false, Bool.false_eq_true, if_false]
    exact critical_mark hat₄ he hfinal hInv fun w₅ _ hat₅ => h w₅ hat₅
  · rw [(hw₄.view J hat₃).target, htarget] at hnone
    cases hnone

end jvc.recovery
