import Jvc.Recovery.Sources
import Jvc.Recovery.Trace

namespace jvc.recovery

variable {Bytes : Type} [Text] [Host Bytes] {i : Pid} {t : Path} {p : ProjectId} {l : Label}
  {J J' : Journal Bytes}

omit [Text] [Host Bytes] in
@[simp] theorem Entry.applied_pre (e : Entry Bytes) (post : String) :
    (e.applied post).kind.pre = e.kind.pre := by
  unfold applied
  split <;> rename_i hkind <;> rw [hkind] <;> rfl

namespace Journal

/-- The receipt of a change has the digest and the backup of what the change replaced. -/
def Backed (J : Journal Bytes) : Prop :=
  ∀ c ∈ J.log, ∀ e ∈ J.entries, c.receipt_id = some e.receipt_id →
    e.kind.isWrite = true ∧ e.kind.pre = c.before.map sha256_bytes ∧ e.kind.backup = c.before

/-- A receipt rewritten keeps what it has recorded of the replaced content. -/
theorem Backed.update {id : String} {f : Entry Bytes → Entry Bytes} (h : J.Backed) (hf : Keeps f)
    (hpre : ∀ e, (f e).kind.pre = e.kind.pre) : (J.update id f).Backed := by
  intro c hc x hx hid
  obtain ⟨e, he, ⟨_, rfl⟩ | ⟨_, rfl⟩⟩ := mem_update.mp hx
  · rw [hf.receipt_id] at hid
    rw [hf.isWrite, hpre, hf.backup]
    exact h c hc e he hid
  · exact h c hc x he hid

theorem Backed.add {e : Entry Bytes} (h : J.Backed) (hlogged : J.Logged)
    (hfresh : e.receipt_id ∉ J.entries.map Entry.receipt_id) : (J.add e).Backed := by
  intro c hc x hx hid
  rcases List.mem_cons.mp hx with rfl | hx
  · exact absurd (hlogged c hc _ hid) hfresh
  · exact h c hc x hx hid

end Journal

theorem Step.backed (h : Step i t l J J') (hwf : J.Wf) (hlogged : J.Logged) (hJ : J.Backed) :
    J'.Backed := by
  have hmark : ∀ id s, (J.mark id s).Backed := fun id s =>
    hJ.update (Journal.keeps_mark s) fun _ => rfl
  have happlied : ∀ id text, (J.update id fun e => e.applied text).Backed := fun id text =>
    hJ.update (Journal.keeps_applied text) fun e => e.applied_pre text
  cases h with
  | prepare hfresh => exact hJ.add hlogged hfresh
  | intend hfresh => exact hJ.add hlogged hfresh
  | @install _ e rest he hw hstate hpre hbackup hnew content =>
    intro c hc x hx hid
    rcases List.mem_cons.mp hc with rfl | hc
    · have hmem : e ∈ J.entries := by
        rw [he]
        exact List.mem_cons_self
      rw [hwf.eq_of_id hx hmem (Option.some.inj hid).symm]
      exact ⟨hw, hpre, hbackup⟩
    · exact hJ c hc x hx hid
  | restore =>
    intro c hc x hx hid
    rcases List.mem_cons.mp hc with rfl | hc
    · cases hid
    · exact hJ c hc x hx hid
  | note => exact happlied _ _
  | restored => exact happlied _ _
  | _ => exact hmark _ _

namespace Journal

/-- Where one project works on the target: at most its newest receipt is on its way, and
no write that has changed the content counts as unapplied. -/
structure Saved (J : Journal Bytes) : Prop where
  last : ∀ c log, J.log = c :: log → c.after = J.target
  tail : ∀ e rest, J.entries = e :: rest → ∀ x ∈ rest, x.tx_state.incomplete = false
  latest : ∀ e ∈ J.entries, e.tx_state = .PREPARED → ∀ c ∈ J.log,
    c.receipt_id = some e.receipt_id → ∃ log, J.log = c :: log
  kept : ∀ e ∈ J.entries, ∀ c ∈ J.log, c.receipt_id = some e.receipt_id →
    c.before.map sha256_bytes ≠ c.after.map sha256_bytes →
      e.tx_state ≠ .RECOVERED_UNAPPLIED ∧ e.tx_state ≠ .SUPERSEDED

/-- A receipt rewritten: it is not sent on its way again, nor taken for unapplied. -/
theorem Saved.update {id : String} {f : Entry Bytes → Entry Bytes} (h : J.Saved) (hf : Keeps f)
    (hstate : ∀ e ∈ J.entries, e.receipt_id = id →
      ((f e).tx_state.incomplete = true → e.tx_state.incomplete = true) ∧
        (f e).tx_state ≠ .PREPARED)
    (hkept : ∀ e ∈ J.entries, e.receipt_id = id → ∀ c ∈ J.log, c.receipt_id = some e.receipt_id →
      c.before.map sha256_bytes ≠ c.after.map sha256_bytes →
        (f e).tx_state ≠ .RECOVERED_UNAPPLIED ∧ (f e).tx_state ≠ .SUPERSEDED) :
    (J.update id f).Saved where
  last := h.last
  tail := by
    intro y rest hy x hx
    cases hentries : J.entries with
    | nil =>
      rw [Journal.update, hentries] at hy
      cases hy
    | cons e older =>
      have htail := h.tail e older hentries
      have hrest : rest = older.map fun x => if x.receipt_id = id then f x else x := by
        rw [Journal.update, hentries, List.map_cons] at hy
        exact (List.cons.inj hy).2.symm
      rw [hrest] at hx
      obtain ⟨z, hz, rfl⟩ := List.mem_map.mp hx
      have hzJ : z ∈ J.entries := by
        rw [hentries]
        exact List.mem_cons_of_mem _ hz
      split
      · rename_i hid
        rw [Bool.eq_false_iff]
        intro hp
        have hold := (hstate z hzJ hid).1 hp
        rw [htail z hz] at hold
        cases hold
      · exact htail z hz
  latest := by
    intro x hx hp c hc hid
    obtain ⟨e, he, ⟨hown, rfl⟩ | ⟨_, rfl⟩⟩ := mem_update.mp hx
    · exact absurd hp (hstate e he hown).2
    · exact h.latest x he hp c hc hid
  kept := by
    intro x hx c hc hid hne
    obtain ⟨e, he, ⟨hown, rfl⟩ | ⟨_, rfl⟩⟩ := mem_update.mp hx
    · rw [hf.receipt_id] at hid
      exact hkept e he hown c hc hid hne
    · exact h.kept x he c hc hid hne

theorem Saved.mark {id : String} {s : TxState} (h : J.Saved) (hs : s.incomplete = false)
    (hkept : ∀ e ∈ J.entries, e.receipt_id = id → ∀ c ∈ J.log, c.receipt_id = some e.receipt_id →
      c.before.map sha256_bytes ≠ c.after.map sha256_bytes →
        s ≠ .RECOVERED_UNAPPLIED ∧ s ≠ .SUPERSEDED) : (J.mark id s).Saved := by
  refine h.update (keeps_mark s) (fun e _ _ => ⟨fun hp => ?_, fun hp => ?_⟩) hkept
  · rw [Entry.mark_tx_state, hs] at hp
    cases hp
  · rw [Entry.mark_tx_state] at hp
    rw [hp] at hs
    cases hs

/-- A fresh receipt, when nothing is on its way. -/
theorem Saved.add {e : Entry Bytes} (h : J.Saved) (hlogged : J.Logged)
    (hfresh : e.receipt_id ∉ J.entries.map Entry.receipt_id)
    (hcomplete : ∀ x ∈ J.entries, x.tx_state.incomplete = false) : (J.add e).Saved where
  last := h.last
  tail := by
    intro y rest hy x hx
    rw [add_entries, List.cons.injEq] at hy
    rw [← hy.2] at hx
    exact hcomplete x hx
  latest := by
    intro x hx hp c hc hid
    rcases List.mem_cons.mp hx with rfl | hx
    · exact absurd (hlogged c hc _ hid) hfresh
    · exact h.latest x hx hp c hc hid
  kept := by
    intro x hx c hc hid hne
    rcases List.mem_cons.mp hx with rfl | hx
    · exact absurd (hlogged c hc _ hid) hfresh
    · exact h.kept x hx c hc hid hne

/-- The target replaced under the newest receipt. -/
theorem Saved.change {e : Entry Bytes} {rest : List (Entry Bytes)} {after : Option Bytes}
    {id : Option String} (h : J.Saved) (hwf : J.Wf) (he : J.entries = e :: rest)
    (hstate : e.tx_state = .PREPARED) (hid : id = none ∨ id = some e.receipt_id)
    (hnew : ∀ c ∈ J.log, c.receipt_id ≠ some e.receipt_id) : (J.change i t after id).Saved := by
  have hmem : e ∈ J.entries := by
    rw [he]
    exact List.mem_cons_self
  have hown : ∀ x ∈ J.entries, id = some x.receipt_id → x = e := by
    rintro x hx hsome
    rcases hid with hnone | hid
    · rw [hnone] at hsome
      cases hsome
    · rw [hid] at hsome
      exact hwf.eq_of_id hx hmem (Option.some.inj hsome).symm
  refine ⟨fun c log hlog => ?_, h.tail, fun x hx hp c hc hcid => ?_, fun x hx c hc hcid hne => ?_⟩
  · cases hlog
    rfl
  · have hxe : x = e := by
      rw [change_entries, he] at hx
      rcases List.mem_cons.mp hx with hxe | hx
      · exact hxe
      · have hcomplete := h.tail e rest he x hx
        rw [hp] at hcomplete
        cases hcomplete
    rcases List.mem_cons.mp hc with rfl | hc
    · exact ⟨_, rfl⟩
    · rw [hxe] at hcid
      exact absurd hcid (hnew c hc)
  · rcases List.mem_cons.mp hc with rfl | hc
    · rw [hown x hx hcid, hstate]
      exact ⟨by decide, by decide⟩
    · exact h.kept x hx c hc hcid hne

/-- A change that went before is what the receipt on its way was made for. -/
theorem Saved.settled_ne (h : J.Saved) (hback : J.Backed) {e : Entry Bytes} (he : e ∈ J.entries)
    (hp : e.tx_state.incomplete = true) {c : Change Bytes} (hc : c ∈ J.log)
    (hid : c.receipt_id = some e.receipt_id)
    (hne : c.before.map sha256_bytes ≠ c.after.map sha256_bytes) :
    e.settled J.current ≠ .RECOVERED_UNAPPLIED ∧ e.settled J.current ≠ .SUPERSEDED := by
  obtain ⟨hw, hpre, _⟩ := hback c hc e he hid
  obtain ⟨prev, pre, post, backup, hk⟩ : ∃ prev pre post backup,
      e.kind = .write prev pre post backup := by
    cases hk : e.kind with
    | write prev pre post backup => exact ⟨prev, pre, post, backup, rfl⟩
    | rollback =>
      rw [hk] at hw
      cases hw
  cases hs : e.tx_state with
  | PREPARED =>
    obtain ⟨log, hlog⟩ := h.latest e he hs c hc hid
    rw [e.settled_write_of_prepared hk hs, if_neg]
    · exact ⟨by decide, by decide⟩
    · rw [Bool.and_eq_true, beq_iff_eq]
      rintro ⟨_, hcurrent⟩
      rw [hk] at hpre
      refine hne (hpre.symm.trans (hcurrent.symm.trans ?_))
      rw [h.last c log hlog]
      rfl
  | APPLIED =>
    rw [e.settled_write_of_applied hk hs]
    split
    · exact ⟨by decide, by decide⟩
    · exact ⟨by decide, by decide⟩
  | _ =>
    rw [hs] at hp
    cases hp

end Journal

theorem Step.saved (h : Step i t l J J') (hwf : J.Wf) (hlogged : J.Logged) (hback : J.Backed)
    (hone : ∀ e ∈ J'.entries, e.project_id = p) (hJ : J.Saved) : J'.Saved := by
  have hmark : ∀ id (s : TxState), s.incomplete = false → s ≠ .RECOVERED_UNAPPLIED →
      s ≠ .SUPERSEDED → (J.mark id s).Saved := fun id s hs hu hsup =>
    hJ.mark hs fun _ _ _ _ _ _ _ => ⟨hu, hsup⟩
  have happlied : ∀ e ∈ J.entries, e.tx_state = .PREPARED → ∀ text,
      (J.update e.receipt_id fun x => x.applied text).Saved := by
    intro e he hp text
    refine hJ.update (Journal.keeps_applied text) (fun x hx hid => ⟨fun _ => ?_, ?_⟩)
      fun x _ _ _ _ _ _ => ?_
    · rw [hwf.eq_of_id hx he hid, hp]
      rfl
    · rw [Entry.applied_tx_state]
      decide
    · rw [Entry.applied_tx_state]
      exact ⟨by decide, by decide⟩
  have hfree : ∀ e : Entry Bytes, (∀ x ∈ (J.add e).entries, x.project_id = p) →
      J.Settled e.project_id.text → ∀ x ∈ J.entries, x.tx_state.incomplete = false := by
    intro e hall hsettled x hx
    refine hsettled x hx ?_
    rw [hall x (List.mem_cons_of_mem _ hx), hall e List.mem_cons_self]
  cases h with
  | @settle _ e he hp =>
    refine hJ.mark (e.settled_complete _) fun x hx hid c hc hcid hne => ?_
    rw [hwf.eq_of_id hx he hid] at hcid
    exact hJ.settled_ne hback he hp hc hcid hne
  | finalize => exact hmark _ _ rfl (by decide) (by decide)
  | audit => exact hmark _ _ rfl (by decide) (by decide)
  | prepare hfresh _ _ hsettled => exact hJ.add hlogged hfresh (hfree _ hone hsettled)
  | install he _ hstate _ _ hnew => exact hJ.change hwf he hstate (.inr rfl) hnew
  | note he _ hstate =>
    exact happlied _ (by rw [he]; exact List.mem_cons_self) hstate _
  | verify => exact hmark _ _ rfl (by decide) (by decide)
  | @overtake _ e =>
    have hends : e.overtaken J.current = .VERIFIED ∨ e.overtaken J.current = .RECOVERY_REQUIRED := by
      unfold Entry.overtaken
      split
      · exact .inl rfl
      · exact .inr rfl
    rcases hends with hs | hs
    · rw [hs]
      exact hmark _ _ rfl (by decide) (by decide)
    · rw [hs]
      exact hmark _ _ rfl (by decide) (by decide)
  | @supersede _ e he _ hstate =>
    refine hJ.mark rfl fun x hx hid c hc hcid hne => ?_
    rw [hwf.eq_of_id hx he hid] at hcid
    exact absurd hstate (hJ.kept e he c hc hcid hne).1
  | intend hfresh _ _ _ hsettled => exact hJ.add hlogged hfresh (hfree _ hone hsettled)
  | @restore _ r s rest expected hr hs hkind hstate =>
    have hmem : r ∈ J.entries := by
      rw [hr]
      exact List.mem_cons_self
    refine hJ.change hwf hr hstate (.inl rfl) fun c hc hid => ?_
    have hw := (hback c hc r hmem hid).1
    rw [hkind] at hw
    cases hw
  | restored hr _ _ hstate =>
    exact happlied _ (by rw [hr]; exact List.mem_cons_self) hstate _
  | confirm => exact hmark _ _ rfl (by decide) (by decide)
  | close => exact hmark _ _ rfl (by decide) (by decide)
  | abandon => exact hmark _ _ rfl (by decide) (by decide)

namespace Journal

/-- No step takes a receipt away, or gives it another project. -/
theorem one_project_of_step (h : Step i t l J J') (hone : ∀ e ∈ J'.entries, e.project_id = p) :
    ∀ e ∈ J.entries, e.project_id = p := by
  have hupdate : ∀ id (f : Entry Bytes → Entry Bytes), (∀ e, (f e).project_id = e.project_id) →
      (∀ e ∈ (J.update id f).entries, e.project_id = p) → ∀ e ∈ J.entries, e.project_id = p := by
    intro id f hf hall e he
    by_cases hid : e.receipt_id = id
    · rw [← hf e]
      exact hall _ (mem_update.mpr ⟨e, he, .inl ⟨hid, rfl⟩⟩)
    · exact hall e (mem_update.mpr ⟨e, he, .inr ⟨hid, rfl⟩⟩)
  have hmark : ∀ id s, (∀ e ∈ (J.mark id s).entries, e.project_id = p) →
      ∀ e ∈ J.entries, e.project_id = p := fun id s => hupdate id _ fun _ => rfl
  have happlied : ∀ id text, (∀ e ∈ (J.update id fun x => x.applied text).entries,
      e.project_id = p) → ∀ e ∈ J.entries, e.project_id = p :=
    fun id text => hupdate id _ fun e => e.applied_project_id text
  cases h with
  | prepare => exact fun e he => hone e (List.mem_cons_of_mem _ he)
  | intend => exact fun e he => hone e (List.mem_cons_of_mem _ he)
  | install => exact hone
  | restore => exact hone
  | note => exact happlied _ _ hone
  | restored => exact happlied _ _ hone
  | _ => exact hmark _ _ hone

/-- What the calls keep of a journal while nothing but them touches the target. -/
structure Undamaged (J : Journal Bytes) : Prop where
  rooted : J.Rooted
  backed : J.Backed
  saved : ∀ p, (∀ e ∈ J.entries, e.project_id = p) → J.Saved

end Journal

end jvc.recovery
