import Jvc.Recovery.View

open program

namespace jvc.recovery

variable {Bytes : Type}

theorem not_receiptFile_backup_path (self : RecoveryStore) (id : String) :
    self.isReceiptFile (self.backup_path id) = false := by
  have hno : ∀ front : String,
      globMatch self.root front ".json" (self.backup_path id) = false := by
    intro front
    by_contra h
    rw [Bool.not_eq_false] at h
    simp only [globMatch, Bool.and_eq_true, List.isSuffixOf_iff_suffix] at h
    obtain ⟨⟨_, hsuffix⟩, _⟩ := h
    obtain ⟨init, hinit⟩ := hsuffix.trans (List.drop_suffix _ _)
    have hends := congrArg (fun cs => cs.reverse.take 1) hinit
    simp [RecoveryStore.backup_path] at hends
  simp only [RecoveryStore.isReceiptFile, hno, Bool.or_self]

variable [Text] [Host Bytes] {store : RecoveryStore} {owner : Option Pid} {i : Pid}
  {t t' : Target store} {J : Journal Bytes} {w w' : World Bytes}

theorem RecoveryStore.Sound.write (h : store.Sound w) (p : Path) (data : Bytes)
    (id : Option String)
    (hdata : store.isReceiptFile p = true → ∃ (t : Target store) (e : Entry Bytes),
      p = store.receipt_path e.receipt_id ∧ data = Host.dumps (e.receipt t).dict)
    (hdrawn : ∀ (front : String) (s : Stamp), p = store.receipt_path (front ++ s.text) ∨
      p = store.backup_path (front ++ s.text) → w.Drawn s) :
    store.Sound (w.write i p data id) := by
  constructor
  · intro q found hq hfound
    rw [World.lookup_write] at hfound
    split at hfound
    · rename_i hqp
      subst hqp
      cases hfound
      exact hdata hq
    · exact h.receipts q found hq hfound
  · intro front s hsome
    simp only [World.lookup_write] at hsome
    by_cases hr : store.receipt_path (front ++ s.text) = p
    · exact hdrawn front s (.inl hr.symm)
    · by_cases hb : store.backup_path (front ++ s.text) = p
      · exact hdrawn front s (.inr hb.symm)
      · rw [if_neg hr, if_neg hb] at hsome
        exact h.drawn front s hsome

theorem RecoveryStore.Sound.remove (h : store.Sound w) (p : Path) :
    store.Sound (w.remove i p) := by
  constructor
  · intro q found hq hfound
    rw [World.lookup_remove] at hfound
    split at hfound
    · cases hfound
    · exact h.receipts q found hq hfound
  · intro front s hsome
    simp only [World.lookup_remove] at hsome
    refine h.drawn front s (hsome.imp (fun hr => ?_) fun hb => ?_)
    · split at hr
      · cases hr
      · exact hr
    · split at hb
      · cases hb
      · exact hb

/-- A change of a file that the journal of a target does not consist of. -/
theorem Journal.At.write_other (h : J.At owner t w) {p : Path} {data : Bytes} {id : Option String}
    (hsound : store.Sound (w.write i p data id)) (htarget : p ≠ t.path)
    (hreceipt : ∀ e ∈ J.entries, p ≠ store.receipt_path e.receipt_id)
    (hbackup : ∀ e ∈ J.entries, p ≠ store.backup_path e.receipt_id)
    (hforeign : ∀ r : Receipt, store.isReceiptFile p = true → data = Host.dumps r.dict →
      r.path ≠ t.path) : J.At owner t (w.write i p data id) where
  lock := h.lock
  sound := hsound
  wf := h.wf
  fits := h.fits
  held := fun e he => by
    rw [World.lookup_write, if_neg (hreceipt e he).symm]
    exact h.held e he
  backup := fun e he hw => by
    rw [World.lookup_write, if_neg (hbackup e he).symm]
    exact h.backup e he hw
  complete := fun q r hq hr hpath => by
    rw [World.lookup_write] at hr
    split at hr
    · rename_i hqp
      subst hqp
      exact absurd hpath (hforeign r hq (Option.some.inj hr))
    · exact h.complete q r hq hr hpath
  target := by
    rw [World.lookup_write, if_neg htarget.symm]
    exact h.target
  log := by
    have hne : (p == t.path) = false := by simpa using htarget
    simp only [World.write, List.filter_cons, hne]
    exact h.log

theorem Journal.At.remove_other (h : J.At owner t w) {p : Path}
    (hsound : store.Sound (w.remove i p)) (htarget : p ≠ t.path)
    (hreceipt : ∀ e ∈ J.entries, p ≠ store.receipt_path e.receipt_id)
    (hbackup : ∀ e ∈ J.entries, p ≠ store.backup_path e.receipt_id) :
    J.At owner t (w.remove i p) where
  lock := h.lock
  sound := hsound
  wf := h.wf
  fits := h.fits
  held := fun e he => by
    rw [World.lookup_remove, if_neg (hreceipt e he).symm]
    exact h.held e he
  backup := fun e he hw => by
    rw [World.lookup_remove, if_neg (hbackup e he).symm]
    exact h.backup e he hw
  complete := fun q r hq hr hpath => by
    rw [World.lookup_remove] at hr
    split at hr
    · cases hr
    · exact h.complete q r hq hr hpath
  target := by
    rw [World.lookup_remove, if_neg htarget.symm]
    exact h.target
  log := by
    have hne : (p == t.path) = false := by simpa using htarget
    simp only [World.remove, List.filter_cons, hne]
    exact h.log

omit [Text] [Host Bytes] in
theorem RecoveryStore.Reserved.drawn_of {front front' : String} {s s' : Stamp}
    {backup : Option Bytes} (h : store.Reserved i front s backup w) {p : Path}
    (hp : p = store.receipt_path (front ++ s.text) ∨ p = store.backup_path (front ++ s.text))
    (hq : p = store.receipt_path (front' ++ s'.text) ∨
      p = store.backup_path (front' ++ s'.text)) : w.Drawn s' := by
  have hs : s = s' := by
    rcases hp with rfl | rfl <;> rcases hq with hq | hq
    · exact Stamp.eq_of_append (receipt_path_inj hq)
    · exact absurd hq (receipt_path_ne_backup_path _ _)
    · exact absurd hq.symm (receipt_path_ne_backup_path _ _)
    · exact Stamp.eq_of_append (backup_path_inj hq)
  obtain ⟨n, hn, hstamp, hdrawer⟩ := h.drawn
  exact ⟨n, hn, hstamp.trans hs, by rw [hdrawer]; rfl⟩

/-- A reserved id is not one of a journal. -/
theorem RecoveryStore.Reserved.fresh {front : String} {s : Stamp} {backup : Option Bytes}
    (h : store.Reserved i front s backup w) (hat : J.At owner t w) :
    ∀ e ∈ J.entries, e.receipt_id ≠ front ++ s.text := by
  intro e he heq
  have hheld := hat.held e he
  rw [heq, h.receipt] at hheld
  cases hheld

theorem Touch.sound (h : Touch i t w w') (hs : store.Sound w) : store.Sound w' := by
  cases h with
  | tick => exact ⟨hs.receipts, fun front s hsome =>
      (hs.drawn front s hsome).imp fun n hn => ⟨Nat.lt_succ_of_lt hn.1, hn.2⟩⟩
  | draw =>
    refine ⟨hs.receipts, fun front s hsome => ?_⟩
    obtain ⟨n, hn, hstamp, hdrawer⟩ := hs.drawn front s hsome
    refine ⟨n, Nat.lt_succ_of_lt hn, hstamp, ?_⟩
    simpa only [Function.update_of_ne hn.ne] using hdrawer
  | rewrite old e hid hold =>
    refine hs.write _ _ _ (fun _ => ⟨t, e, by rw [hid], rfl⟩) ?_
    rintro front s (heq | heq)
    · exact hs.drawn front s (.inl (by rw [← heq, hold]; rfl))
    · exact absurd heq (receipt_path_ne_backup_path _ _)
  | record e hid hres =>
    refine hs.write _ _ _ (fun _ => ⟨t, e, rfl, rfl⟩) ?_
    intro front s heq
    exact hres.drawn_of (.inl (by rw [hid])) heq
  | save data hres =>
    refine hs.write _ _ _ (fun hp => ?_) ?_
    · rw [not_receiptFile_backup_path] at hp
      cases hp
    · intro front s heq
      exact hres.drawn_of (.inr rfl) heq
  | change data id =>
    refine hs.write _ _ _ (fun hp => ?_) ?_
    · rw [t.not_receiptFile] at hp
      cases hp
    · rintro front s (heq | heq)
      · exact absurd heq (t.path_ne_receipt_path _)
      · exact absurd heq (t.path_ne_backup_path _)
  | delete => exact hs.remove _

/-- Work on one target leaves the journal of every other target as it is. -/
theorem Touch.view_other (h : Touch i t w w') (hne : t'.path ≠ t.path) (hat : J.At owner t' w) :
    J.At owner t' w' := by
  have hsound := h.sound hat.sound
  cases h with
  | tick => exact { hat with sound := hsound }
  | draw => exact { hat with sound := hsound }
  | rewrite old e hid hold =>
    refine hat.write_other hsound (t'.path_ne_receipt_path _).symm (fun x hx heq => ?_)
      (fun x _ => receipt_path_ne_backup_path _ _) fun r _ hr heq => ?_
    · have hheld := hat.held x hx
      rw [← heq, hold] at hheld
      have hpath := congrArg Receipt.path (dumps_inj (Option.some.inj hheld))
      exact hne hpath.symm
    · have hpath := congrArg Receipt.path (dumps_inj hr)
      exact hne (heq.symm.trans hpath.symm)
  | record e hid hres =>
    refine hat.write_other hsound (t'.path_ne_receipt_path _).symm (fun x hx heq => ?_)
      (fun x _ => receipt_path_ne_backup_path _ _) fun r _ hr heq => ?_
    · exact hres.fresh hat x hx (by rw [← hid, receipt_path_inj heq])
    · have hpath := congrArg Receipt.path (dumps_inj hr)
      exact hne (heq.symm.trans hpath.symm)
  | save data hres =>
    refine hat.write_other hsound (t'.path_ne_backup_path _).symm
      (fun x _ => (receipt_path_ne_backup_path _ _).symm) (fun x hx heq => ?_) fun r hr => ?_
    · exact hres.fresh hat x hx (backup_path_inj heq).symm
    · rw [not_receiptFile_backup_path] at hr
      cases hr
  | change data id =>
    refine hat.write_other hsound hne.symm (fun x _ => t.path_ne_receipt_path _)
      (fun x _ => t.path_ne_backup_path _) fun r hr => ?_
    rw [t.not_receiptFile] at hr
    cases hr
  | delete =>
    exact hat.remove_other hsound hne.symm (fun x _ => t.path_ne_receipt_path _)
      fun x _ => t.path_ne_backup_path _

theorem Touch.grows (h : Touch i t w w') : store.Grows w w' := by
  have hwrite : ∀ (p : Path) (data : Bytes) (id : Option String),
      (∀ r : Receipt, store.isReceiptFile p = true → w.lookup p = some (Host.dumps r.dict) →
        ∃ r' : Receipt, data = Host.dumps r'.dict ∧ r'.path = r.path) →
        store.Grows w (w.write i p data id) := by
    intro p data id hdata q r hq hr
    rw [World.lookup_write]
    split
    · rename_i hqp
      subst hqp
      obtain ⟨r', rfl, hpath⟩ := hdata r hq hr
      exact ⟨r', rfl, hpath⟩
    · exact ⟨r, hr, rfl⟩
  cases h with
  | tick => exact .refl w
  | draw => exact .refl w
  | rewrite old e hid hold =>
    refine hwrite _ _ _ fun r _ hr => ⟨e.receipt t, rfl, ?_⟩
    rw [hold] at hr
    have hpath := congrArg Receipt.path (dumps_inj (Option.some.inj hr))
    exact hpath
  | record e hid hres =>
    refine hwrite _ _ _ fun r _ hr => ?_
    rw [hid, hres.receipt] at hr
    cases hr
  | save data hres =>
    refine hwrite _ _ _ fun r hp => ?_
    rw [not_receiptFile_backup_path] at hp
    cases hp
  | change data id =>
    refine hwrite _ _ _ fun r hp => ?_
    rw [t.not_receiptFile] at hp
    cases hp
  | delete =>
    intro p r hp hr
    refine ⟨r, ?_, rfl⟩
    rw [World.lookup_remove, if_neg, hr]
    rintro rfl
    rw [t.not_receiptFile] at hp
    cases hp

theorem Touch.locks (h : Touch i t w w') : w'.locks = w.locks := by
  cases h <;> rfl

omit [Text] [Host Bytes] in
/-- A written file leaves the ids that a process drew alone, unless it belongs
to one of them. -/
theorem RecoveryStore.Reserved.write {front : String} {s : Stamp} {backup : Option Bytes} {j : Pid}
    (h : store.Reserved j front s backup w) {p : Path} {data : Bytes} {id : Option String}
    (hreceipt : p ≠ store.receipt_path (front ++ s.text))
    (hbackup : p ≠ store.backup_path (front ++ s.text)) :
    store.Reserved j front s backup (w.write i p data id) where
  drawn := h.drawn
  receipt := by rw [World.lookup_write, if_neg hreceipt.symm, h.receipt]
  backup := by rw [World.lookup_write, if_neg hbackup.symm, h.backup]

theorem Touch.receipts (h : Touch i t w w') (id : String)
    (hsome : (w.lookup (store.receipt_path id)).isSome) :
    (w'.lookup (store.receipt_path id)).isSome := by
  have hwrite : ∀ (p : Path) (data : Bytes) (tag : Option String),
      ((w.write i p data tag).lookup (store.receipt_path id)).isSome := by
    intro p data tag
    rw [World.lookup_write]
    split
    · rfl
    · exact hsome
  cases h with
  | delete =>
    rw [World.lookup_remove, if_neg (t.path_ne_receipt_path id).symm]
    exact hsome
  | tick => exact hsome
  | draw => exact hsome
  | _ => exact hwrite _ _ _

theorem Touch.backups (h : Touch i t w w') (id : String)
    (hsome : (w.lookup (store.backup_path id)).isSome) :
    (w'.lookup (store.backup_path id)).isSome := by
  have hwrite : ∀ (p : Path) (data : Bytes) (tag : Option String),
      ((w.write i p data tag).lookup (store.backup_path id)).isSome := by
    intro p data tag
    rw [World.lookup_write]
    split
    · rfl
    · exact hsome
  cases h with
  | delete =>
    rw [World.lookup_remove, if_neg (t.path_ne_backup_path id).symm]
    exact hsome
  | tick => exact hsome
  | draw => exact hsome
  | _ => exact hwrite _ _ _

theorem Touch.ticks (h : Touch i t w w') : w.ticks ≤ w'.ticks := by
  cases h with
  | tick => exact Nat.le_succ _
  | draw => exact Nat.le_succ _
  | _ => exact le_rfl

/-- What a process does to the files of a locked target, as the process itself
sees it, when the write is not one of a drawn id. -/
theorem Touch.drawers (h : Touch i t w w') : ∀ n < w.ticks, w'.drawer n = w.drawer n := by
  intro n hn
  cases h with
  | draw => exact Function.update_of_ne hn.ne _ _
  | _ => rfl

theorem Touch.later (h : Touch i t w w')
    (hreserved : ∀ front s backup, store.Reserved i front s backup w →
      store.Reserved i front s backup w') : Later store i w w' :=
  ⟨h.grows, h.receipts, h.backups, hreserved, by cases h <;> rfl, h.ticks, h.drawers⟩

theorem Touch.stamps (h : Touch i t w w') : w'.stamps = w.stamps := by
  cases h <;> rfl

section Own

/-- Rewriting the receipt of an entry. -/
theorem Journal.At.rewrite (h : J.At owner t w) {e : Entry Bytes} (he : e ∈ J.entries)
    {f : Entry Bytes → Entry Bytes} (hf : Journal.Keeps f) :
    (J.update e.receipt_id f).At owner t
      (w.write i (store.receipt_path e.receipt_id) (Host.dumps ((f e).receipt t).dict) none) where
  lock := h.lock
  sound := by
    have htouch : Touch i t w _ := .rewrite e (f e) (hf.receipt_id e) (h.held e he)
    exact htouch.sound h.sound
  wf := h.wf.update hf _
  fits := fun x hx => by
    obtain ⟨y, hy, _⟩ := Journal.mem_update.mp hx
    exact h.fits y hy
  held := by
    intro x hx
    rw [World.lookup_write]
    obtain ⟨y, hy, ⟨hid, rfl⟩ | ⟨hid, rfl⟩⟩ := Journal.mem_update.mp hx
    · have hye := h.wf.eq_of_id hy he hid
      subst hye
      rw [hf.receipt_id, if_pos rfl]
    · rw [if_neg fun heq => hid (receipt_path_inj heq)]
      exact h.held x hy
  backup := by
    intro x hx hw
    rw [World.lookup_write, if_neg (receipt_path_ne_backup_path _ _).symm]
    obtain ⟨y, hy, ⟨hid, rfl⟩ | ⟨hid, rfl⟩⟩ := Journal.mem_update.mp hx
    · rw [hf.receipt_id, hf.backup]
      exact h.backup y hy (by rw [← hf.isWrite, hw])
    · exact h.backup x hy hw
  complete := by
    intro p r hp hr hpath
    rw [World.lookup_write] at hr
    have hold : ∃ y ∈ J.entries, p = store.receipt_path y.receipt_id := by
      split at hr
      · exact ⟨e, he, by assumption⟩
      · exact h.complete p r hp hr hpath
    obtain ⟨y, hy, rfl⟩ := hold
    by_cases hid : y.receipt_id = e.receipt_id
    · exact ⟨f y, Journal.mem_update.mpr ⟨y, hy, .inl ⟨hid, rfl⟩⟩, by rw [hf.receipt_id]⟩
    · exact ⟨y, Journal.mem_update.mpr ⟨y, hy, .inr ⟨hid, rfl⟩⟩, rfl⟩
  target := by
    rw [World.lookup_write, if_neg (t.path_ne_receipt_path _)]
    exact h.target
  log := by
    have hne : (store.receipt_path e.receipt_id == t.path) = false := by
      simpa using (t.path_ne_receipt_path e.receipt_id).symm
    simp only [World.write, List.filter_cons, hne]
    exact h.log

/-- The first write of a receipt under a drawn id. -/
theorem Journal.At.record (h : J.At owner t w) {e : Entry Bytes} {front : String}
    {backup : Option Bytes} (hid : e.receipt_id = front ++ e.stamp.text)
    (hres : store.Reserved i front e.stamp backup w)
    (hbackup : e.kind.isWrite = true → e.kind.backup = backup) (hwf : (J.add e).Wf)
    (hfits : too_long t.path = false) : (J.add e).At owner t
      (w.write i (store.receipt_path e.receipt_id) (Host.dumps (e.receipt t).dict) none) where
  lock := h.lock
  sound := by
    have htouch : Touch i t w _ := .record e hid hres
    exact htouch.sound h.sound
  wf := hwf
  fits := fun _ _ => hfits
  held := by
    intro x hx
    rw [World.lookup_write]
    rcases List.mem_cons.mp hx with rfl | hx
    · rw [if_pos rfl]
    · have hne := hres.fresh h x hx
      rw [← hid] at hne
      rw [if_neg fun heq => hne (receipt_path_inj heq)]
      exact h.held x hx
  backup := by
    intro x hx hw
    rw [World.lookup_write, if_neg (receipt_path_ne_backup_path _ _).symm]
    rcases List.mem_cons.mp hx with rfl | hx
    · rw [hid, hres.backup, hbackup hw]
    · exact h.backup x hx hw
  complete := by
    intro p r hp hr hpath
    rw [World.lookup_write] at hr
    split at hr
    · exact ⟨e, List.mem_cons_self, by assumption⟩
    · obtain ⟨y, hy, rfl⟩ := h.complete p r hp hr hpath
      exact ⟨y, List.mem_cons_of_mem _ hy, rfl⟩
  target := by
    rw [World.lookup_write, if_neg (t.path_ne_receipt_path _)]
    exact h.target
  log := by
    have hne : (store.receipt_path e.receipt_id == t.path) = false := by
      simpa using (t.path_ne_receipt_path e.receipt_id).symm
    simp only [World.write, List.filter_cons, hne]
    exact h.log

theorem Journal.At.save (h : J.At owner t w) {front : String} {s : Stamp} (data : Bytes)
    (hres : store.Reserved i front s none w) :
    J.At owner t (w.write i (store.backup_path (front ++ s.text)) data none) := by
  have htouch : Touch i t w _ := .save data hres
  refine h.write_other (htouch.sound h.sound) (t.path_ne_backup_path _).symm
    (fun x _ => (receipt_path_ne_backup_path _ _).symm) (fun x hx heq => ?_) fun r hr => ?_
  · exact hres.fresh h x hx (backup_path_inj heq).symm
  · rw [not_receiptFile_backup_path] at hr
    cases hr

theorem Journal.At.change (h : J.At owner t w) (data : Bytes) (id : Option String) :
    (J.change i t.path (some data) id).At owner t (w.write i t.path data id) where
  lock := h.lock
  sound := by
    have htouch : Touch i t w _ := .change data id
    exact htouch.sound h.sound
  wf := h.wf.change _ _ _ _
  fits := h.fits
  held := fun e he => by
    rw [World.lookup_write, if_neg (t.path_ne_receipt_path _).symm]
    exact h.held e he
  backup := fun e he hw => by
    rw [World.lookup_write, if_neg (t.path_ne_backup_path _).symm]
    exact h.backup e he hw
  complete := fun p r hp hr hpath => by
    rw [World.lookup_write] at hr
    split at hr
    · rename_i heq
      rw [heq, t.not_receiptFile] at hp
      cases hp
    · exact h.complete p r hp hr hpath
  target := by
    rw [World.lookup_write, if_pos rfl]
    rfl
  log := by
    have heq : (t.path == t.path) = true := by simp
    simp only [World.write, List.filter_cons, heq, if_true, Journal.change_log, h.log, h.target]

theorem Journal.At.delete (h : J.At owner t w) :
    (J.change i t.path none none).At owner t (w.remove i t.path) where
  lock := h.lock
  sound := by
    have htouch : Touch i t w _ := .delete w
    exact htouch.sound h.sound
  wf := h.wf.change _ _ _ _
  fits := h.fits
  held := fun e he => by
    rw [World.lookup_remove, if_neg (t.path_ne_receipt_path _).symm]
    exact h.held e he
  backup := fun e he hw => by
    rw [World.lookup_remove, if_neg (t.path_ne_backup_path _).symm]
    exact h.backup e he hw
  complete := fun p r hp hr hpath => by
    rw [World.lookup_remove] at hr
    split at hr
    · cases hr
    · exact h.complete p r hp hr hpath
  target := by
    rw [World.lookup_remove, if_pos rfl]
    rfl
  log := by
    have heq : (t.path == t.path) = true := by simp
    simp only [World.remove, List.filter_cons, heq, if_true, Journal.change_log, h.log, h.target]

end Own

end jvc.recovery
