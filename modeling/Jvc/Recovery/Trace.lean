import Mathlib.Data.List.Sublists
import Jvc.Recovery.Settling
import Jvc.Recovery.Writing

namespace jvc.recovery

variable {Bytes : Type} [Text] [Host Bytes] {i : Pid} {t : Path} {l : Label}
  {J J' : Journal Bytes}

/-- Every step keeps ids unique and rollbacks linked to writes. -/
theorem Step.wf (h : Step i t l J J') (hwf : J.Wf) : J'.Wf := by
  cases h with
  | settle => exact hwf.mark _ _
  | finalize => exact hwf.mark _ _
  | audit => exact hwf.mark _ _
  | prepare hfresh hkind =>
    refine hwf.add hfresh fun id hsource => ?_
    rw [hkind] at hsource
    cases hsource
  | install => exact hwf.change _ _ _ _
  | note => exact hwf.update (Journal.keeps_applied _) _
  | verify => exact hwf.mark _ _
  | overtake => exact hwf.mark _ _
  | supersede => exact hwf.mark _ _
  | @intend _ r s post hfresh hkind hstate hcurrent hsettled hhead hclear =>
    refine hwf.add hfresh fun id hsource => ⟨s, hhead.1.1.1, ?_, hhead.1.1.2.2.1⟩
    rw [hkind] at hsource
    cases hsource
    rfl
  | restore => exact hwf.change _ _ _ _
  | restored => exact hwf.update (Journal.keeps_applied _) _
  | confirm => exact hwf.mark _ _
  | close => exact hwf.mark _ _
  | abandon => exact hwf.mark _ _

namespace Journal

/-- The receipts under which the target was replaced, latest first. -/
def installed (J : Journal Bytes) : List String := J.log.filterMap Change.receipt_id

/-- The log of changes and the receipts of a journal tell the same story. -/
structure Traced (J : Journal Bytes) : Prop where
  wf : J.Wf
  order : J.installed.Sublist (J.entries.map Entry.receipt_id)
  last : ∀ c log, J.log = c :: log → c.after = J.target
  preimage : ∀ c ∈ J.log, ∀ e ∈ J.entries, c.receipt_id = some e.receipt_id →
    e.kind.isWrite = true ∧ e.kind.pre = c.before.map sha256_bytes ∧ e.kind.backup = c.before
  postimage : ∀ c ∈ J.log, ∀ e ∈ J.entries, c.receipt_id = some e.receipt_id →
    ∀ post, e.kind.post = some post → c.after.map sha256_bytes = some post
  posted : ∀ e ∈ J.entries, e.kind.isWrite = true → e.kind.post.isSome = true →
    e.receipt_id ∈ J.installed
  pending : ∀ e ∈ J.entries, e.kind.isWrite = true → e.tx_state = .PREPARED → e.kind.post = none
  standing : ∀ e ∈ J.entries, e.kind.isWrite = true →
    e.tx_state = .APPLIED ∨ e.tx_state = .VERIFIED → e.kind.post.isSome = true

omit [Text] [Host Bytes] in
theorem mem_installed {id : String} :
    id ∈ J.installed ↔ ∃ c ∈ J.log, c.receipt_id = some id := List.mem_filterMap

theorem Traced.logged (h : J.Traced) : J.Logged := by
  intro c hc id hid
  exact h.order.subset (mem_installed.mpr ⟨c, hc, hid⟩)

theorem Traced.installed_nodup (h : J.Traced) : J.installed.Nodup := h.order.nodup h.wf.nodup

/-- A receipt in a new state, when it only stands with a postimage. -/
theorem Traced.mark {id : String} {s : TxState} (h : J.Traced) (hs : s ≠ .PREPARED)
    (hpost : ∀ e ∈ J.entries, e.receipt_id = id → e.kind.isWrite = true →
      s = .APPLIED ∨ s = .VERIFIED → e.kind.post.isSome = true) : (J.mark id s).Traced where
  wf := h.wf.mark id s
  order := by
    rw [show (J.mark id s).entries.map Entry.receipt_id = J.entries.map Entry.receipt_id from
      ids_update (keeps_mark s) id]
    exact h.order
  last := h.last
  preimage := by
    intro c hc x hx hid
    obtain ⟨e, he, ⟨_, rfl⟩ | ⟨_, rfl⟩⟩ := mem_mark.mp hx
    · exact h.preimage c hc e he hid
    · exact h.preimage c hc x he hid
  postimage := by
    intro c hc x hx hid
    obtain ⟨e, he, ⟨_, rfl⟩ | ⟨_, rfl⟩⟩ := mem_mark.mp hx
    · exact h.postimage c hc e he hid
    · exact h.postimage c hc x he hid
  posted := by
    intro x hx hw hsome
    obtain ⟨e, he, ⟨_, rfl⟩ | ⟨_, rfl⟩⟩ := mem_mark.mp hx
    · exact h.posted e he hw hsome
    · exact h.posted x he hw hsome
  pending := by
    intro x hx hw hstate
    obtain ⟨e, he, ⟨_, rfl⟩ | ⟨_, rfl⟩⟩ := mem_mark.mp hx
    · exact absurd hstate hs
    · exact h.pending x he hw hstate
  standing := by
    intro x hx hw hstate
    obtain ⟨e, he, ⟨hid, rfl⟩ | ⟨_, rfl⟩⟩ := mem_mark.mp hx
    · exact hpost e he hid hw hstate
    · exact h.standing x he hw hstate

/-- A fresh receipt, which no change names. -/
theorem Traced.add {e : Entry Bytes} (h : J.Traced) (hwf : (J.add e).Wf)
    (hfresh : e.receipt_id ∉ J.entries.map Entry.receipt_id) (hstate : e.tx_state = .PREPARED)
    (hpost : e.kind.isWrite = true → e.kind.post = none) : (J.add e).Traced where
  wf := hwf
  order := h.order.cons e.receipt_id
  last := h.last
  preimage := by
    intro c hc x hx hid
    rcases List.mem_cons.mp hx with rfl | hx
    · exact absurd (h.logged c hc _ hid) hfresh
    · exact h.preimage c hc x hx hid
  postimage := by
    intro c hc x hx hid
    rcases List.mem_cons.mp hx with rfl | hx
    · exact absurd (h.logged c hc _ hid) hfresh
    · exact h.postimage c hc x hx hid
  posted := by
    intro x hx hw hsome
    rcases List.mem_cons.mp hx with rfl | hx
    · rw [hpost hw] at hsome
      cases hsome
    · exact h.posted x hx hw hsome
  pending := by
    intro x hx hw hs
    rcases List.mem_cons.mp hx with rfl | hx
    · exact hpost hw
    · exact h.pending x hx hw hs
  standing := by
    intro x hx hw hs
    rcases List.mem_cons.mp hx with rfl | hx
    · rw [hstate] at hs
      rcases hs with hs | hs <;> cases hs
    · exact h.standing x hx hw hs

/-- A change of the target that no receipt stands for. -/
theorem Traced.change_none (h : J.Traced) (i : Pid) (t : Path) (after : Option Bytes) :
    (J.change i t after none).Traced where
  wf := h.wf.change _ _ _ _
  order := h.order
  last := by
    intro c log hlog
    cases hlog
    rfl
  preimage := by
    intro c hc x hx hid
    rcases List.mem_cons.mp hc with rfl | hc
    · cases hid
    · exact h.preimage c hc x hx hid
  postimage := by
    intro c hc x hx hid
    rcases List.mem_cons.mp hc with rfl | hc
    · cases hid
    · exact h.postimage c hc x hx hid
  posted := h.posted
  pending := h.pending
  standing := h.standing

/-- The replacement of the target under the newest receipt. -/
theorem Traced.install {e : Entry Bytes} {rest : List (Entry Bytes)} (h : J.Traced)
    (he : J.entries = e :: rest) (hw : e.kind.isWrite = true) (hstate : e.tx_state = .PREPARED)
    (hpre : e.kind.pre = J.current) (hbackup : e.kind.backup = J.target)
    (hnew : ∀ c ∈ J.log, c.receipt_id ≠ some e.receipt_id) (content : Bytes) (i : Pid) (t : Path) :
    (J.change i t (some content) (some e.receipt_id)).Traced := by
  have hmem : e ∈ J.entries := by
    rw [he]
    exact List.mem_cons_self
  have hsame : ∀ x ∈ J.entries, some e.receipt_id = some x.receipt_id → x = e := fun x hx hid =>
    h.wf.eq_of_id hx hmem (Option.some.inj hid).symm
  have hlog : (J.change i t (some content) (some e.receipt_id)).installed =
      e.receipt_id :: J.installed := rfl
  refine ⟨h.wf.change _ _ _ _, ?_, ?_, ?_, ?_, ?_, h.pending, h.standing⟩
  · have horder := h.order
    rw [hlog, Journal.change_entries, he, List.map_cons]
    rw [he, List.map_cons] at horder
    refine List.Sublist.cons_cons _ ?_
    rcases List.sublist_cons_iff.mp horder with hsub | ⟨r, hr, _⟩
    · exact hsub
    · have hin : e.receipt_id ∈ J.installed := by
        rw [hr]
        exact List.mem_cons_self
      obtain ⟨c, hc, hid⟩ := mem_installed.mp hin
      exact absurd hid (hnew c hc)
  · intro c log hc
    cases hc
    rfl
  · intro c hc x hx hid
    rcases List.mem_cons.mp hc with rfl | hc
    · rw [hsame x hx hid]
      exact ⟨hw, hpre, hbackup⟩
    · exact h.preimage c hc x hx hid
  · intro c hc x hx hid post hpost
    rcases List.mem_cons.mp hc with rfl | hc
    · rw [hsame x hx hid, h.pending e hmem hw hstate] at hpost
      cases hpost
    · exact h.postimage c hc x hx hid post hpost
  · intro x hx hwx hsome
    rw [hlog]
    exact List.mem_cons_of_mem _ (h.posted x hx hwx hsome)

/-- The postimage of the change made last is recorded. -/
theorem Traced.note {e : Entry Bytes} {c : Change Bytes} {log : List (Change Bytes)}
    {content : Bytes} (h : J.Traced) (he : e ∈ J.entries) (hw : e.kind.isWrite = true)
    (hlog : J.log = c :: log) (hid : c.receipt_id = some e.receipt_id)
    (ht : J.target = some content) :
    (J.update e.receipt_id fun x => x.applied (sha256_bytes content)).Traced := by
  have hkeeps : Keeps fun e : Entry Bytes => e.applied (sha256_bytes content) := keeps_applied _
  obtain ⟨prev, pre, old, backup, hk⟩ : ∃ prev pre old backup,
      e.kind = .write prev pre old backup := by
    cases hk : e.kind with
    | write prev pre old backup => exact ⟨prev, pre, old, backup, rfl⟩
    | rollback =>
      rw [hk] at hw
      cases hw
  have hkind : (e.applied (sha256_bytes content)).kind =
      .write prev pre (some (sha256_bytes content)) backup := by
    rw [e.applied_write hk]
  have hinstalled : e.receipt_id ∈ J.installed := by
    refine mem_installed.mpr ⟨c, ?_, hid⟩
    rw [hlog]
    exact List.mem_cons_self
  have hcases : ∀ x ∈ (J.update e.receipt_id fun x => x.applied (sha256_bytes content)).entries,
      x = e.applied (sha256_bytes content) ∨ x ∈ J.entries := by
    intro x hx
    obtain ⟨y, hy, ⟨hyid, rfl⟩ | ⟨_, rfl⟩⟩ := mem_update.mp hx
    · rw [h.wf.eq_of_id hy he hyid]
      exact .inl rfl
    · exact .inr hy
  refine ⟨h.wf.update hkeeps _, ?_, h.last, ?_, ?_, ?_, ?_, ?_⟩
  · rw [ids_update hkeeps]
    exact h.order
  · intro c' hc' x hx hid'
    rcases hcases x hx with rfl | hx
    · rw [Entry.applied_receipt_id] at hid'
      have hold := h.preimage c' hc' e he hid'
      rw [hk] at hold
      rw [hkind]
      exact hold
    · exact h.preimage c' hc' x hx hid'
  · intro c' hc' x hx hid' post hpost
    rcases hcases x hx with rfl | hx
    · rw [hkind] at hpost
      cases hpost
      rw [Entry.applied_receipt_id] at hid'
      have hcc : c' = c := by
        rw [Journal.update_log, hlog] at hc'
        rcases List.mem_cons.mp hc' with rfl | hc'
        · rfl
        · have hnodup := h.installed_nodup
          rw [installed, hlog, List.filterMap_cons_some hid, List.nodup_cons] at hnodup
          exact absurd (List.mem_filterMap.mpr ⟨c', hc', hid'⟩) hnodup.1
      rw [hcc, h.last c log hlog, ht]
      rfl
    · exact h.postimage c' hc' x hx hid' post hpost
  · intro x hx hwx hsome
    rcases hcases x hx with rfl | hx
    · rw [Entry.applied_receipt_id]
      exact hinstalled
    · exact h.posted x hx hwx hsome
  · intro x hx hwx hs
    rcases hcases x hx with rfl | hx
    · rw [Entry.applied_tx_state] at hs
      cases hs
    · exact h.pending x hx hwx hs
  · intro x hx hwx hs
    rcases hcases x hx with rfl | hx
    · rw [hkind]
      rfl
    · exact h.standing x hx hwx hs

/-- The restored digest of a rollback is recorded. -/
theorem Traced.restored {r : Entry Bytes} (h : J.Traced) (hr : r ∈ J.entries)
    (hw : r.kind.isWrite = false) (text : String) :
    (J.update r.receipt_id fun x => x.applied text).Traced := by
  have hkeeps : Keeps fun e : Entry Bytes => e.applied text := keeps_applied _
  have hcases : ∀ x ∈ (J.update r.receipt_id fun x => x.applied text).entries,
      x.kind.isWrite = true → x ∈ J.entries := by
    intro x hx hwx
    obtain ⟨y, hy, ⟨hyid, rfl⟩ | ⟨_, rfl⟩⟩ := mem_update.mp hx
    · rw [h.wf.eq_of_id hy hr hyid, Entry.applied_isWrite, hw] at hwx
      cases hwx
    · exact hy
  have hnever : ∀ c ∈ J.log, c.receipt_id ≠ some r.receipt_id := by
    intro c hc hid
    have hwrite := (h.preimage c hc r hr hid).1
    rw [hw] at hwrite
    cases hwrite
  have hnamed : ∀ c ∈ J.log,
      ∀ x ∈ (J.update r.receipt_id fun x => x.applied text).entries,
        c.receipt_id = some x.receipt_id → x ∈ J.entries := by
    intro c hc x hx hid
    obtain ⟨y, hy, ⟨hyid, rfl⟩ | ⟨_, rfl⟩⟩ := mem_update.mp hx
    · rw [Entry.applied_receipt_id, hyid] at hid
      exact absurd hid (hnever c hc)
    · exact hy
  refine ⟨h.wf.update hkeeps _, ?_, h.last, ?_, ?_, ?_, ?_, ?_⟩
  · rw [ids_update hkeeps]
    exact h.order
  · exact fun c hc x hx hid => h.preimage c hc x (hnamed c hc x hx hid) hid
  · exact fun c hc x hx hid => h.postimage c hc x (hnamed c hc x hx hid) hid
  · exact fun x hx hwx => h.posted x (hcases x hx hwx) hwx
  · exact fun x hx hwx => h.pending x (hcases x hx hwx) hwx
  · exact fun x hx hwx => h.standing x (hcases x hx hwx) hwx

end Journal

theorem Entry.settled_ne_prepared (e : Entry Bytes) (current : Option String) :
    e.settled current ≠ .PREPARED := by
  intro hs
  have hcomplete := e.settled_complete current
  rw [hs] at hcomplete
  cases hcomplete

/-- Only an applied write with its postimage in place is found finished. -/
theorem Entry.post_of_settled {e : Entry Bytes} {current : Option String}
    (hw : e.kind.isWrite = true) (hp : e.tx_state.incomplete = true)
    (hs : e.settled current = .VERIFIED) :
    e.tx_state = .APPLIED ∧ e.kind.post.isSome = true ∧ current = e.kind.post := by
  cases hk : e.kind with
  | rollback =>
    rw [hk] at hw
    cases hw
  | write prev pre post backup =>
    cases hstate : e.tx_state with
    | PREPARED =>
      rw [e.settled_write_of_prepared hk hstate] at hs
      split at hs <;> cases hs
    | APPLIED =>
      rw [e.settled_write_of_applied hk hstate] at hs
      split at hs
      · rename_i hcond
        simp only [Bool.and_eq_true, beq_iff_eq] at hcond
        exact ⟨rfl, hcond.2.1, hcond.2.2⟩
      · cases hs
    | _ =>
      rw [hstate] at hp
      cases hp

/-- Every step of the operations keeps log and receipts in agreement. -/
theorem Step.traced (h : Step i t l J J') (hJ : J.Traced) : J'.Traced := by
  have hwf := h.wf hJ.wf
  cases h with
  | @settle _ e he hp =>
    refine hJ.mark (e.settled_ne_prepared _) fun x hx hid hw hs => ?_
    rw [hJ.wf.eq_of_id hx he hid] at hw ⊢
    rcases hs with hs | hs
    · have hcomplete := e.settled_complete J.current
      rw [hs] at hcomplete
      cases hcomplete
    · exact (Entry.post_of_settled hw hp hs).2.1
  | finalize => exact hJ.mark (by decide) fun _ _ _ _ hs => by rcases hs with hs | hs <;> cases hs
  | audit => exact hJ.mark (by decide) fun _ _ _ _ hs => by rcases hs with hs | hs <;> cases hs
  | prepare hfresh hkind hstate =>
    exact hJ.add hwf hfresh hstate fun _ => by rw [hkind]; rfl
  | install he hw hstate hpre hbackup hnew content =>
    exact hJ.install he hw hstate hpre hbackup hnew content _ _
  | note he hw _ hlog hid ht =>
    exact hJ.note (by rw [he]; exact List.mem_cons_self) hw hlog hid ht
  | @verify _ e rest post he hw hstate hpost =>
    refine hJ.mark (by decide) fun x hx hid _ _ => ?_
    rw [hJ.wf.eq_of_id hx (by rw [he]; exact List.mem_cons_self) hid, hpost]
    rfl
  | @overtake _ e he hw hstate =>
    refine hJ.mark ?_ fun x hx hid _ _ => ?_
    · unfold Entry.overtaken
      split <;> decide
    · rw [hJ.wf.eq_of_id hx he hid]
      exact hJ.standing e he hw (.inl hstate)
  | supersede => exact hJ.mark (by decide) fun _ _ _ _ hs => by rcases hs with hs | hs <;> cases hs
  | intend hfresh hkind hstate =>
    refine hJ.add hwf hfresh hstate fun hw => ?_
    rw [hkind] at hw
    cases hw
  | restore => exact hJ.change_none _ _ _
  | @restored _ r s rest expected hr hs hkind =>
    exact hJ.restored (by rw [hr]; exact List.mem_cons_self) (by rw [hkind]; rfl) _
  | @confirm _ r rest source expected text hr hkind =>
    refine hJ.mark (by decide) fun x hx hid hw _ => ?_
    rw [hJ.wf.eq_of_id hx (by rw [hr]; exact List.mem_cons_self) hid, hkind] at hw
    cases hw
  | close => exact hJ.mark (by decide) fun _ _ _ _ hs => by rcases hs with hs | hs <;> cases hs
  | abandon => exact hJ.mark (by decide) fun _ _ _ _ hs => by rcases hs with hs | hs <;> cases hs

end jvc.recovery
