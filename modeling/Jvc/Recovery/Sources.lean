import Jvc.Recovery.Chain

namespace jvc.recovery

variable {Bytes : Type} [Text] [Host Bytes] {i : Pid} {t : Path} {l : Label} {J J' : Journal Bytes}

omit [Text] [Host Bytes] in
@[simp] theorem Entry.applied_prev (e : Entry Bytes) (post : String) :
    (e.applied post).kind.prev = e.kind.prev := by
  unfold applied
  split <;> rename_i hkind <;> rw [hkind] <;> rfl

@[simp] theorem Entry.applied_backup_ok (e : Entry Bytes) (post : String) :
    (e.applied post).backup_ok = e.backup_ok := by
  cases hk : e.kind with
  | write prev pre old backup => cases pre <;> simp [Entry.applied, Entry.backup_ok, hk]
  | rollback => simp [Entry.applied, Entry.backup_ok, hk]

/-- With its backup intact an overtaken write is settled. -/
theorem Entry.overtaken_eq_settled {e : Entry Bytes} (hw : e.kind.isWrite = true)
    (hstate : e.tx_state = .APPLIED) (hok : e.backup_ok = true) (current : Option String) :
    e.overtaken current = e.settled current := by
  cases hk : e.kind with
  | rollback =>
    rw [hk] at hw
    cases hw
  | write prev pre post backup =>
    rw [e.settled_write_of_applied hk hstate, hok, Bool.true_and, Entry.overtaken, hk]
    rfl

/-- What a receipt is, whatever state it is in. -/
def Entry.link (e : Entry Bytes) : String × Kind Bytes := (e.receipt_id, e.kind)

namespace Journal

theorem Supersedes.mem {project_id id : String} {prev : Option String}
    (h : J.Supersedes project_id prev) (hid : prev = some id) :
    id ∈ J.entries.map Entry.receipt_id := by
  unfold Supersedes at h
  split at h
  · rcases h with ⟨e, he, rfl⟩ | ⟨_, rfl⟩
    · cases hid
      exact List.mem_map_of_mem he.1.1.1
    · cases hid
  · obtain ⟨e, he, _, _, _, rfl⟩ := h id hid
    exact List.mem_map_of_mem he

/-- Every backup is intact, and a rollback only names writes that are VERIFIED or
ROLLED_BACK. Nothing is said of the target, so this holds as well where others
change it. -/
structure Sourced (J : Journal Bytes) : Prop where
  wf : J.Wf
  intact : ∀ e ∈ J.entries, e.backup_ok = true
  sources : ∀ r ∈ J.entries, ∀ s ∈ J.entries, r.kind.source = some s.receipt_id →
    s.tx_state = .VERIFIED ∨ s.tx_state = .ROLLED_BACK

section Counts

/-- A pending receipt that is settled. -/
theorem Sourced.counts_settle {e : Entry Bytes} (h : J.Sourced) (he : e ∈ J.entries) :
    J.Counts e.receipt_id (e.settled J.current) := by
  refine ⟨e.settled_complete _, fun x hx hid => .inr ?_, fun x hx hid => ?_⟩
  · rw [h.wf.eq_of_id hx he hid]
  · rw [h.wf.eq_of_id hx he hid]

/-- The source of a finished rollback is closed. -/
theorem Sourced.counts_close {r : Entry Bytes} {source : String} (h : J.Sourced)
    (hr : r ∈ J.entries) (hsource : r.kind.source = some source) (hv : r.tx_state = .VERIFIED) :
    J.Counts source .ROLLED_BACK := by
  have hrev : J.reverted source = true :=
    reverted_iff.mpr ⟨r, hr, hsource, by rw [Entry.settled_of_complete (by rw [hv]; rfl), hv]⟩
  obtain ⟨s, hs, hid, hw⟩ := h.wf.source r hr source hsource
  refine ⟨rfl, fun x hx hxid => .inl ⟨?_, hrev, by decide⟩, fun x hx hxid => ?_⟩
  · rw [h.wf.eq_of_id hx hs (hxid.trans hid.symm)]
    exact hw
  · have hstate := h.sources r hr x hx (by rw [hsource, hxid])
    have hcomplete : x.tx_state.incomplete = false := by
      rcases hstate with hs | hs <;> rw [hs] <;> rfl
    rw [Entry.settled_of_complete hcomplete]
    rcases hstate with hs | hs
    · rw [hs]
      decide
    · rw [hs]

/-- An intent found unapplied that makes way for a rollback. -/
theorem Sourced.counts_supersede {e : Entry Bytes} (h : J.Sourced) (he : e ∈ J.entries)
    (hstate : e.tx_state = .RECOVERED_UNAPPLIED) : J.Counts e.receipt_id .SUPERSEDED := by
  have hsettled : e.settled J.current = .RECOVERED_UNAPPLIED := by
    rw [Entry.settled_of_complete (by rw [hstate]; rfl), hstate]
  refine ⟨rfl, fun x hx hid => .inr ?_, fun x hx hid => ?_⟩
  · rw [h.wf.eq_of_id hx he hid, hsettled]
    decide
  · rw [h.wf.eq_of_id hx he hid, hsettled]
    decide

/-- What reconciliation marks counts as it did. -/
theorem Sourced.counts (h : J.Sourced) (hstep : Step i t l J J')
    (hl : l = .settle ∨ l = .overtake) : ∃ id s, J' = J.mark id s ∧ J.Counts id s := by
  cases hstep with
  | @settle _ e he hp => exact ⟨_, _, rfl, h.counts_settle he⟩
  | finalize hr hs hv => exact ⟨_, _, rfl, h.counts_close hr hs hv⟩
  | @overtake _ e he hw hstate =>
    refine ⟨_, _, rfl, ?_⟩
    rw [Entry.overtaken_eq_settled hw hstate (h.intact e he)]
    exact h.counts_settle he
  | supersede he hw hstate => exact ⟨_, _, rfl, h.counts_supersede he hstate⟩
  | _ => rcases hl with hl | hl <;> cases hl

end Counts

section Step

/-- A receipt that is no source, or closed. -/
theorem Sourced.mark {id : String} {s : TxState} (h : J.Sourced)
    (hs : ∀ r ∈ J.entries, r.kind.source = some id → s = .VERIFIED ∨ s = .ROLLED_BACK) :
    (J.mark id s).Sourced := by
  refine ⟨h.wf.mark id s, fun x hx => ?_, fun r hr x hx hsource => ?_⟩
  · obtain ⟨y, hy, ⟨_, rfl⟩ | ⟨_, rfl⟩⟩ := mem_mark.mp hx
    · exact h.intact y hy
    · exact h.intact x hy
  · obtain ⟨r₀, hr₀, hr⟩ : ∃ r₀ ∈ J.entries, r₀.kind = r.kind := by
      obtain ⟨y, hy, ⟨_, rfl⟩ | ⟨_, rfl⟩⟩ := mem_mark.mp hr
      · exact ⟨y, hy, rfl⟩
      · exact ⟨r, hy, rfl⟩
    rw [← hr] at hsource
    obtain ⟨y, hy, ⟨hyid, rfl⟩ | ⟨_, rfl⟩⟩ := mem_mark.mp hx
    · rw [Entry.mark_receipt_id, hyid] at hsource
      exact hs r₀ hr₀ hsource
    · exact h.sources r₀ hr₀ x hy hsource

/-- A pending receipt is not named by a rollback. -/
theorem Sourced.mark_pending {e : Entry Bytes} (h : J.Sourced) (he : e ∈ J.entries)
    (hnot : e.tx_state ≠ .VERIFIED ∧ e.tx_state ≠ .ROLLED_BACK) (s : TxState) :
    (J.mark e.receipt_id s).Sourced := by
  refine h.mark fun r hr hsource => ?_
  rcases h.sources r hr e he hsource with hs | hs
  · exact absurd hs hnot.1
  · exact absurd hs hnot.2

theorem Sourced.applied {e : Entry Bytes} (h : J.Sourced) (he : e ∈ J.entries)
    (hstate : e.tx_state = .PREPARED) (post : String) :
    (J.update e.receipt_id fun x => x.applied post).Sourced := by
  have hcases : ∀ x ∈ (J.update e.receipt_id fun x => x.applied post).entries,
      x = e.applied post ∨ x ∈ J.entries := by
    intro x hx
    obtain ⟨y, hy, ⟨hid, rfl⟩ | ⟨_, rfl⟩⟩ := mem_update.mp hx
    · rw [h.wf.eq_of_id hy he hid]
      exact .inl rfl
    · exact .inr hy
  refine ⟨h.wf.update (keeps_applied _) _, fun x hx => ?_, fun r hr x hx hsource => ?_⟩
  · rcases hcases x hx with rfl | hold
    · rw [Entry.applied_backup_ok]
      exact h.intact e he
    · exact h.intact x hold
  · obtain ⟨r₀, hr₀, hr⟩ : ∃ r₀ ∈ J.entries, r₀.kind.source = r.kind.source := by
      rcases hcases r hr with rfl | hold
      · exact ⟨e, he, (Entry.applied_source e post).symm⟩
      · exact ⟨r, hold, rfl⟩
    rw [← hr] at hsource
    rcases hcases x hx with rfl | hold
    · rw [Entry.applied_receipt_id] at hsource
      have hnot := h.sources r₀ hr₀ e he hsource
      rw [hstate] at hnot
      rcases hnot with hnot | hnot <;> cases hnot
    · exact h.sources r₀ hr₀ x hold hsource

theorem Sourced.add {e : Entry Bytes} (h : J.Sourced) (hwf : (J.add e).Wf)
    (hfresh : e.receipt_id ∉ J.entries.map Entry.receipt_id) (hok : e.backup_ok = true)
    (hsource : ∀ s ∈ J.entries, e.kind.source = some s.receipt_id → s.tx_state = .VERIFIED)
    (hself : e.kind.source ≠ some e.receipt_id) : (J.add e).Sourced := by
  refine ⟨hwf, fun x hx => ?_, fun r hr s hs hsrc => ?_⟩
  · rcases List.mem_cons.mp hx with rfl | hold
    · exact hok
    · exact h.intact x hold
  · rcases List.mem_cons.mp hs with rfl | hsold
    · rcases List.mem_cons.mp hr with rfl | hold
      · exact absurd hsrc hself
      · obtain ⟨z, hz, hid, _⟩ := h.wf.source r hold _ hsrc
        exact absurd (hid ▸ List.mem_map_of_mem hz) hfresh
    · rcases List.mem_cons.mp hr with rfl | hold
      · exact .inl (hsource s hsold hsrc)
      · exact h.sources r hold s hsold hsrc

theorem Sourced.change (h : J.Sourced) (i : Pid) (t : Path) (after : Option Bytes)
    (id : Option String) : (J.change i t after id).Sourced :=
  ⟨h.wf.change _ _ _ _, h.intact, h.sources⟩

end Step

end Journal

/-- A backup taken of what the target holds is intact. -/
theorem Entry.backup_ok_of_kind {e : Entry Bytes} {prev post : Option String}
    (hkind : e.kind = .write prev J.current post J.target) : e.backup_ok = true := by
  rw [Entry.backup_ok, hkind, Journal.current]
  cases J.target <;> simp

/-- Every step of the operations keeps the sources in order. -/
theorem Step.sourced (h : Step i t l J J') (hJ : J.Sourced) : J'.Sourced := by
  have hwf := h.wf hJ.wf
  cases h with
  | @settle _ e he hp =>
    refine hJ.mark_pending he ⟨fun hs => ?_, fun hs => ?_⟩ _ <;> rw [hs] at hp <;> cases hp
  | finalize => exact hJ.mark fun _ _ _ => .inr rfl
  | audit he _ _ hlost =>
    rw [hJ.intact _ he] at hlost
    cases hlost
  | prepare hfresh hkind =>
    refine hJ.add hwf hfresh (Entry.backup_ok_of_kind hkind) (fun s _ hsource => ?_) fun hself => ?_
    · rw [hkind] at hsource
      cases hsource
    · rw [hkind] at hself
      cases hself
  | install => exact hJ.change _ _ _ _
  | note he _ hstate => exact hJ.applied (by rw [he]; exact List.mem_cons_self) hstate _
  | verify => exact hJ.mark fun _ _ _ => .inl rfl
  | @overtake _ e he hw hstate =>
    refine hJ.mark_pending he ⟨fun hs => ?_, fun hs => ?_⟩ _ <;> rw [hstate] at hs <;> cases hs
  | @supersede _ e he hw hstate =>
    refine hJ.mark_pending he ⟨fun hs => ?_, fun hs => ?_⟩ _ <;> rw [hstate] at hs <;> cases hs
  | @intend _ r s post hfresh hkind hstate hcurrent hsettled hhead hclear =>
    refine hJ.add hwf hfresh (by rw [Entry.backup_ok, hkind]) (fun x hx hsource => ?_)
      fun hself => ?_
    · rw [hkind] at hsource
      rw [hJ.wf.eq_of_id hx hhead.1.1.1 (Option.some.inj hsource).symm]
      exact hhead.1.1.2.2.2.1
    · rw [hkind] at hself
      exact hfresh (Option.some.inj hself ▸ List.mem_map_of_mem hhead.1.1.1)
  | restore => exact hJ.change _ _ _ _
  | restored hr _ _ hstate => exact hJ.applied (by rw [hr]; exact List.mem_cons_self) hstate _
  | confirm => exact hJ.mark fun _ _ _ => .inl rfl
  | close => exact hJ.mark fun _ _ _ => .inr rfl
  | abandon hr hs _ _ hlost =>
    rw [hJ.intact _ (by rw [hr]; exact List.mem_cons_of_mem _ hs)] at hlost
    cases hlost

/-- The log goes on naming receipts. -/
theorem Step.logged (h : Step i t l J J') (hJ : J.Logged) : J'.Logged := by
  have hkeep : ∀ {id : String} {f : Entry Bytes → Entry Bytes}, Journal.Keeps f →
      (J.update id f).Logged := by
    intro id f hf c hc a ha
    rw [Journal.ids_update hf]
    exact hJ c hc a ha
  cases h with
  | prepare => exact fun c hc a ha => List.mem_cons_of_mem _ (hJ c hc a ha)
  | intend => exact fun c hc a ha => List.mem_cons_of_mem _ (hJ c hc a ha)
  | install he =>
    intro c hc a ha
    rcases List.mem_cons.mp hc with rfl | hold
    · rw [← Option.some.inj ha, Journal.change_entries, he]
      exact List.mem_map_of_mem List.mem_cons_self
    · exact hJ c hold a ha
  | restore =>
    intro c hc a ha
    rcases List.mem_cons.mp hc with rfl | hold
    · cases ha
    · exact hJ c hold a ha
  | note => exact hkeep (Journal.keeps_applied _)
  | restored => exact hkeep (Journal.keeps_applied _)
  | _ => exact hkeep (Journal.keeps_mark _)

omit [Text] [Host Bytes] in
theorem Older.update {id : String} {f : Entry Bytes → Entry Bytes} (h : Older J.entries)
    (hid : ∀ e, (f e).receipt_id = e.receipt_id) (hprev : ∀ e, (f e).kind.prev = e.kind.prev) :
    Older (J.update id f).entries := by
  refine h.map (fun e => ?_) fun e => ?_
  · split
    · exact hid e
    · rfl
  · split
    · exact hprev e
    · rfl

/-- A new receipt points at an older one. -/
theorem Step.older (h : Step i t l J J') (hJ : Older J.entries) : Older J'.entries := by
  have hmark : ∀ {id : String} {s : TxState}, Older (J.mark id s).entries :=
    hJ.update (fun _ => rfl) fun _ => rfl
  have happlied : ∀ {id post : String}, Older (J.update id fun x => x.applied post).entries :=
    hJ.update (fun _ => Entry.applied_receipt_id _ _) fun _ => Entry.applied_prev _ _
  cases h with
  | prepare _ hkind _ _ _ hprev =>
    refine ⟨fun id hid => ?_, hJ⟩
    rw [hkind] at hid
    exact hprev.mem hid
  | intend _ hkind =>
    refine ⟨fun id hid => ?_, hJ⟩
    rw [hkind] at hid
    cases hid
  | install => exact hJ
  | restore => exact hJ
  | note => exact happlied
  | restored => exact happlied
  | _ => exact hmark

/-- Sources, log and pointers are in order, whatever has become of the target. -/
structure Journal.Rooted (J : Journal Bytes) : Prop where
  sourced : J.Sourced
  logged : J.Logged
  older : Older J.entries

theorem Step.rooted (h : Step i t l J J') (hJ : J.Rooted) : J'.Rooted :=
  ⟨h.sourced hJ.sourced, h.logged hJ.logged, h.older hJ.older⟩

namespace Journal

/-- Reconciliation keeps what stands, and adds nothing unresolved. -/
theorem Sourced.settled (h : J.Sourced) (hstep : Step i t l J J')
    (hl : l = .settle ∨ l = .overtake) : J'.standing.map Entry.link = J.standing.map Entry.link ∧
      ∀ project_id, J'.Resolvable project_id ↔ J.Resolvable project_id := by
  obtain ⟨id, s, rfl, hcounts⟩ := h.counts hstep hl
  refine ⟨?_, fun _ => hcounts.resolvable⟩
  rw [hcounts.standing, List.map_map]
  refine List.map_congr_left fun x _ => ?_
  simp only [Function.comp_apply]
  split <;> rfl

/-- The settling before a rollback. -/
theorem Sourced.overtaking (h : J.Sourced) (hover : Overtaking i t J J') :
    J'.Sourced ∧ J'.standing.map Entry.link = J.standing.map Entry.link ∧
      ∀ project_id, J'.Resolvable project_id ↔ J.Resolvable project_id := by
  induction hover with
  | refl => exact ⟨h, rfl, fun _ => Iff.rfl⟩
  | tail _ hone ih =>
    obtain ⟨hb, hlinks, hres⟩ := ih
    have hstep : ∃ l : Label, (l = .settle ∨ l = .overtake) ∧ Step i t l _ _ :=
      hone.elim (fun hs => ⟨_, .inl rfl, hs⟩) fun ho => ⟨_, .inr rfl, ho⟩
    obtain ⟨l, hl, hstep⟩ := hstep
    obtain ⟨hlinks', hres'⟩ := hb.settled hstep hl
    exact ⟨hstep.sourced hb, hlinks'.trans hlinks, fun q => (hres' q).trans (hres q)⟩

/-- In a settled journal, what can be resolved does not block. -/
theorem Settled.resolvable_iff {project_id : String} (h : J.Settled project_id) :
    J.Resolvable project_id ↔ J.Unblocked project_id := by
  refine forall_congr' fun e => forall_congr' fun he => forall_congr' fun hp => ?_
  rw [Entry.settled_of_complete (h e he hp)]
  cases e.tx_state <;> decide

end Journal

end jvc.recovery
