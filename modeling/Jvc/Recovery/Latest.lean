import Jvc.Recovery.Ready

namespace jvc.recovery

theorem head_of_map_eq {α β : Type} {f : α → β} {as bs bs' : List α} {b : α}
    (h : bs.map f = as.map f) (hb : bs = b :: bs') : ∃ a as', as = a :: as' ∧ f a = f b := by
  subst hb
  obtain ⟨a, as', rfl, hfa, _⟩ := List.map_eq_cons_iff.mp h.symm
  exact ⟨a, as', rfl, hfa⟩

/-- A selection of a list that starts with an element is, from there on, a
selection of what follows it. -/
theorem sublist_after {α : Type} {a : α} {as front back : List α}
    (h : (a :: as).Sublist (front ++ a :: back)) (hfront : a ∉ front) : as.Sublist back := by
  induction front with
  | nil => exact List.cons_sublist_cons.mp h
  | cons b front ih =>
    have hne : b ≠ a := fun heq => hfront (heq ▸ List.mem_cons_self)
    refine ih ?_ fun hmem => hfront (List.mem_cons_of_mem _ hmem)
    rcases List.sublist_cons_iff.mp h with hsub | ⟨r, hr, _⟩
    · exact hsub
    · exact absurd (List.cons.inj hr).1.symm hne

variable {Bytes : Type} [Text] [Host Bytes] {i : Pid} {t : Path} {p : ProjectId} {J J' : Journal Bytes}

namespace Journal

/-- A write that is VERIFIED once the receipts are settled. -/
def Verifies (J : Journal Bytes) (e : Entry Bytes) : Prop :=
  e ∈ J.entries ∧ e.kind.isWrite = true ∧ e.settled J.current = .VERIFIED

/-- The change of the target made last under a write that verifies. -/
structure Latest (J : Journal Bytes) (c : Change Bytes) (e : Entry Bytes) : Prop where
  verifies : J.Verifies e
  receipt_id : c.receipt_id = some e.receipt_id
  last : ∃ later earlier, J.log = later ++ c :: earlier ∧
    ∀ x ∈ later, ∀ v, J.Verifies v → x.receipt_id ≠ some v.receipt_id

/-- Of the writes that verified, the given one is ROLLED_BACK and no other. -/
def Undoes (K J : Journal Bytes) (e : Entry Bytes) : Prop :=
  ∀ v, J.Verifies v → ∃ x ∈ K.entries, x.link = v.link ∧
    x.tx_state = if v.receipt_id = e.receipt_id then .ROLLED_BACK else .VERIFIED

/-- With all rollbacks closed, what verifies stands. -/
theorem Closed.mem_standing (h : J.Closed) {e : Entry Bytes} : e ∈ J.standing ↔ J.Verifies e := by
  constructor
  · intro he
    obtain ⟨hmem, hw, hv, _⟩ := Journal.mem_standing.mp he
    exact ⟨hmem, hw, hv⟩
  · rintro ⟨he, hw, hv⟩
    exact h.stands he hw hv

theorem Lineage.settled (h : J.Lineage p false) {l : Label} (hstep : Step i t l J J')
    (hl : l = .settle ∨ l = .overtake) : J'.Lineage p false := by
  refine h.step hstep (fun q hq => ?_) fun _ => ⟨?_, fun q hq => ?_⟩
  · rcases hl with rfl | rfl <;> rcases hq with hq | hq <;> cases hq
  · rcases hl with rfl | rfl <;> decide
  · rcases hl with rfl | rfl <;> cases hq

/-- The settling before a rollback. -/
theorem Lineage.overtaking (h : J.Lineage p false) (hover : Overtaking i t J J') :
    J'.Lineage p false ∧ J'.standing.map Entry.link = J.standing.map Entry.link ∧
      (J'.Resolvable p.text ↔ J.Resolvable p.text) := by
  obtain ⟨_, hlinks, hres⟩ := h.chained.sourced.overtaking hover
  refine ⟨hover.preserves (fun _ _ hJ hstep => hJ.settled hstep (.inl rfl))
    (fun _ _ hJ hstep => hJ.settled hstep (.inr rfl)) h, hlinks, hres p.text⟩

/-- What stands was applied in the order of the receipts. -/
theorem Traced.standing_installed (h : J.Traced) :
    (J.standing.map Entry.receipt_id).Sublist J.installed := by
  refine sublist_of_subset h.wf.nodup (List.filter_sublist.map _) h.order fun id hid => ?_
  obtain ⟨e, he, rfl⟩ := List.mem_map.mp hid
  obtain ⟨hmem, hw, hv, _⟩ := Journal.mem_standing.mp he
  exact h.posted e hmem hw (h.standing e hmem hw (Entry.state_of_settled_verified hv))

/-- The newest write that stands is the one applied last. -/
theorem Traced.latest (h : J.Traced) (hclosed : J.Closed) {e : Entry Bytes}
    {rest : List (Entry Bytes)} (hstanding : J.standing = e :: rest) : ∃ c, J.Latest c e := by
  have hmem : e ∈ J.standing := by
    rw [hstanding]
    exact List.mem_cons_self
  have horder := h.standing_installed
  have hnodup := h.installed_nodup
  obtain ⟨c, hc, hid⟩ := mem_installed.mp (horder.subset (List.mem_map_of_mem hmem))
  obtain ⟨later, earlier, hlog⟩ := List.append_of_mem hc
  have hinstalled : J.installed = later.filterMap Change.receipt_id ++
      e.receipt_id :: earlier.filterMap Change.receipt_id := by
    rw [installed, hlog, List.filterMap_append, List.filterMap_cons_some hid]
  rw [hinstalled, List.nodup_append] at hnodup
  rw [hstanding, List.map_cons, hinstalled] at horder
  obtain ⟨_, hback, hapart⟩ := hnodup
  have hrest : (rest.map Entry.receipt_id).Sublist (earlier.filterMap Change.receipt_id) := by
    apply sublist_after horder
    intro hin
    exact hapart _ hin _ List.mem_cons_self rfl
  refine ⟨c, hclosed.mem_standing.mp hmem, hid, later, earlier, hlog, fun x hx v hv hxid => ?_⟩
  have hin : v.receipt_id ∈ later.filterMap Change.receipt_id :=
    List.mem_filterMap.mpr ⟨x, hx, hxid⟩
  have hvs := hclosed.mem_standing.mpr hv
  rw [hstanding] at hvs
  rcases List.mem_cons.mp hvs with rfl | hold
  · exact hapart _ hin _ List.mem_cons_self rfl
  · exact hapart _ hin _
      (List.mem_cons_of_mem _ (hrest.subset (List.mem_map_of_mem hold))) rfl

/-- The content a write found is what its change replaced. -/
theorem Traced.before (h : J.Traced) {c : Change Bytes} {e : Entry Bytes} (hlatest : J.Latest c e) :
    e.kind.before = c.before := by
  obtain ⟨later, earlier, hlog, _⟩ := hlatest.last
  have hc : c ∈ J.log := by
    rw [hlog]
    exact List.mem_append_right _ List.mem_cons_self
  obtain ⟨_, hpre, hbackup⟩ := h.preimage c hc e hlatest.verifies.1 hlatest.receipt_id
  rw [Kind.before, hpre, hbackup]
  cases c.before <;> rfl

section Rollback

variable {expected : String} {r s : Entry Bytes}

/-- The write that a rollback undoes is the newest that stands. -/
theorem Lineage.undone_latest (h : J.Lineage p false) (hback : RolledBack i t p expected J J' r s) :
    ∃ c e, J.Latest c e ∧ e.link = s.link := by
  obtain ⟨hJ', hlinks, _⟩ := h.overtaking hback.overtaking
  obtain ⟨⟨rest, hstanding⟩, _⟩ :=
    (hJ'.chained.theHead_iff (hJ'.ready rfl).closed hback.settled).mp hback.intent.head
  obtain ⟨e, rest', he, hlink⟩ := head_of_map_eq hlinks hstanding
  obtain ⟨c, hlatest⟩ := h.traced.latest (h.ready rfl).closed he
  exact ⟨c, e, hlatest, hlink⟩

/-- A rollback closes the write it undoes and leaves the other ones. -/
theorem Lineage.undoes (h : J.Lineage p false) (hback : RolledBack i t p expected J J' r s) :
    (J'.undone i t r s).Undoes J s := by
  obtain ⟨hJ', hlinks, _⟩ := h.overtaking hback.overtaking
  intro v hv
  have hmem : v.link ∈ J'.standing.map Entry.link := by
    rw [hlinks]
    exact List.mem_map_of_mem ((h.ready rfl).closed.mem_standing.mpr hv)
  obtain ⟨x, hx, hlink⟩ := List.mem_map.mp hmem
  have hid : x.receipt_id = v.receipt_id := congrArg Prod.fst hlink
  obtain ⟨hxJ, _, hverified, _⟩ := Journal.mem_standing.mp hx
  rw [Entry.settled_of_complete (hback.settled x hxJ (by rw [hJ'.chained.project x hxJ]))]
    at hverified
  have hin : ∀ y ∈ (J'.mark s.receipt_id .ROLLED_BACK).entries,
      y ∈ (J'.undone i t r s).entries := fun y hy => List.mem_cons_of_mem _ hy
  by_cases hs : x.receipt_id = s.receipt_id
  · refine ⟨x.mark .ROLLED_BACK, hin _ (mem_mark.mpr ⟨x, hxJ, .inl ⟨hs, rfl⟩⟩), hlink, ?_⟩
    rw [← hid, if_pos hs]
    rfl
  · refine ⟨x, hin _ (mem_mark.mpr ⟨x, hxJ, .inr ⟨hs, rfl⟩⟩), hlink, ?_⟩
    rw [← hid, if_neg hs]
    exact hverified

/-- Where nothing is unresolved and some write verifies, a rollback of the present
content is denied only for want of a fresh receipt id. -/
theorem Lineage.not_denied {w : World Bytes} {err : Err} {c : Change Bytes} {e : Entry Bytes}
    (h : J.Lineage p false) (hlatest : J.Latest c e) (hres : J.Resolvable p.text)
    (hcurrent : J.current = some expected) (hdenied : RollbackDenied i t p expected J w err J') :
    Unallocated err w := by
  have hsome : strip (Text.upper expected) = expected := by
    obtain ⟨data, _, rfl⟩ := Option.map_eq_some_iff.mp hcurrent
    simp
  cases hdenied with
  | stale hstale =>
    rw [hsome] at hstale
    exact absurd hcurrent hstale
  | pending _ hunresolved => exact absurd hres hunresolved
  | @headless _ post hover hsettled hpost hhead =>
    obtain ⟨hJ', hlinks, hres'⟩ := h.overtaking hover
    obtain ⟨v, rest, hstanding⟩ : ∃ v rest, J'.standing = v :: rest := by
      have hne : J.standing ≠ [] :=
        List.ne_nil_of_mem ((h.ready rfl).closed.mem_standing.mpr hlatest.verifies)
      have hne' : J'.standing ≠ [] := fun hnil => by
        rw [hnil, List.map_nil] at hlinks
        exact hne (List.map_eq_nil_iff.mp hlinks.symm)
      exact List.exists_cons_of_ne_nil hne'
    have hclean := hres'.mpr hres
    have hlinked := hJ'.chained.linked_current hclean
    rw [hstanding, hover.quiet.current, hpost] at hlinked
    obtain ⟨x, hx, hproject, hblocks, _⟩ := hhead v
      ((hJ'.chained.theHead_iff (hJ'.ready rfl).closed hsettled).mpr ⟨⟨rest, hstanding⟩, hlinked.1⟩)
    have hreq : x.tx_state = .RECOVERY_REQUIRED := by
      cases hs : x.tx_state <;> rw [hs] at hblocks <;> first | rfl | cases hblocks
    refine absurd ?_ (hclean x hx hproject)
    rw [Entry.settled_of_complete (hsettled x hx hproject), hreq]
  | repeated _ _ hrepeat => exact hrepeat

end Rollback

end Journal

end jvc.recovery
