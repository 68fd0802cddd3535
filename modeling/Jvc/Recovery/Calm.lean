import Jvc.Recovery.Sources
import Jvc.Recovery.Undoing

namespace jvc.recovery

variable {Bytes : Type} [Text] [Host Bytes] {i : Pid} {t : Path} {l : Label}
  {J J' : Journal Bytes} {e : Entry Bytes}

/-- What becomes of a receipt while no call is interrupted: it is on its way, VERIFIED,
or closed by a rollback that is. -/
def Entry.Flows (J : Journal Bytes) (e : Entry Bytes) : Prop :=
  e.tx_state = .PREPARED ∨ e.tx_state = .APPLIED ∨ e.tx_state = .VERIFIED ∨
    e.tx_state = .ROLLED_BACK ∧
      ∃ r ∈ J.entries, r.kind.source = some e.receipt_id ∧ r.tx_state = .VERIFIED

/-- The log, latest change first, leads from one content of the target to another. -/
def Story (first : Option Bytes) : List (Change Bytes) → Option Bytes → Prop
  | [], last => last = first
  | c :: older, last => c.after = last ∧ Story first older c.before

omit [Text] [Host Bytes] in
/-- Of two changes of a target, the earlier one or one after it leaves what the later
one replaces. -/
theorem Story.between {first last : Option Bytes} {log : List (Change Bytes)}
    (h : Story first log last) {a b : Change Bytes} (ha : a ∈ log) (hb : b ∈ log) (hne : a ≠ b) :
    ∃ newer x older, log = newer ++ x :: older ∧
      (a ∈ newer ∧ b ∈ x :: older ∧ x.after = a.before ∨
        b ∈ newer ∧ a ∈ x :: older ∧ x.after = b.before) := by
  have hprevious : ∀ (newer : List (Change Bytes)) (c : Change Bytes) (older : List (Change Bytes))
      (last : Option Bytes), Story first (newer ++ c :: older) last → Story first older c.before := by
    intro newer
    induction newer with
    | nil => exact fun c older last h => h.2
    | cons n newer ih => exact fun c older last h => ih c older n.before h.2
  have hone : ∀ (a b : Change Bytes) (newer older : List (Change Bytes)),
      log = newer ++ a :: older → b ∈ older → ∃ newer x older, log = newer ++ x :: older ∧
        a ∈ newer ∧ b ∈ x :: older ∧ x.after = a.before := by
    intro a b newer older hlog hb
    rw [hlog] at h
    have holder := hprevious newer a older last h
    cases older with
    | nil => cases hb
    | cons x rest =>
      refine ⟨newer ++ [a], x, rest, ?_, ?_, hb, holder.1⟩
      · rw [hlog, List.append_assoc]
        rfl
      · exact List.mem_append_right _ List.mem_cons_self
  obtain ⟨newer, older, hlog⟩ := List.append_of_mem ha
  rw [hlog, List.mem_append, List.mem_cons] at hb
  rcases hb with hb | hb | hb
  · obtain ⟨front, back, hnewer⟩ := List.append_of_mem hb
    have hlog' : log = front ++ b :: (back ++ a :: older) := by
      rw [hlog, hnewer, List.append_assoc]
      rfl
    obtain ⟨s, x, l, hsplit, hmem⟩ := hone b a front _ hlog'
      (List.mem_append_right _ List.mem_cons_self)
    exact ⟨s, x, l, hsplit, .inr hmem⟩
  · exact absurd hb.symm hne
  · obtain ⟨s, x, l, hsplit, hmem⟩ := hone a b newer older hlog hb
    exact ⟨s, x, l, hsplit, .inl hmem⟩

namespace Journal

/-- The journal while process `i` works on the target: a receipt on its way is of a
change that `i` makes. -/
structure Busy (first : Option Bytes) (i : Pid) (J : Journal Bytes) : Prop where
  rooted : J.Rooted
  flows : ∀ e ∈ J.entries, e.Flows J
  own : ∀ e ∈ J.entries, e.tx_state.incomplete = true → ∀ c ∈ J.log,
    c.receipt_id = some e.receipt_id → c.by_process = i
  story : Story first J.log J.target

/-- The journal while nobody works on the target: no receipt is on its way. -/
structure Calm (first : Option Bytes) (J : Journal Bytes) : Prop where
  rooted : J.Rooted
  flows : ∀ e ∈ J.entries, e.Flows J
  complete : ∀ e ∈ J.entries, e.tx_state.incomplete = false
  story : Story first J.log J.target

variable {first : Option Bytes}

theorem Calm.busy (h : J.Calm first) (i : Pid) : J.Busy first i where
  rooted := h.rooted
  flows := h.flows
  own := fun e he hp => by
    rw [h.complete e he] at hp
    cases hp
  story := h.story

theorem Busy.calm (h : J.Busy first i) (hcomplete : ∀ e ∈ J.entries, e.tx_state.incomplete = false) :
    J.Calm first := ⟨h.rooted, h.flows, hcomplete, h.story⟩

omit [Text] [Host Bytes] in
/-- The rollback that closed a receipt stays VERIFIED while other receipts, or
writes, are rewritten. -/
theorem flows_update {id : String} {f : Entry Bytes → Entry Bytes}
    (h : ∀ e ∈ J.entries, e.Flows J)
    (hid : ∀ e ∈ J.entries, e.receipt_id = id → e.tx_state = .VERIFIED → e.kind.isWrite = true)
    (hnew : ∀ e ∈ J.entries, e.receipt_id = id → (f e).Flows J) :
    ∀ e ∈ (J.update id f).entries, e.Flows (J.update id f) := by
  have hkept : ∀ x : Entry Bytes, x.Flows J → x.Flows (J.update id f) := by
    rintro x (hx | hx | hx | ⟨hx, r, hr, hsource, hv⟩)
    · exact .inl hx
    · exact .inr (.inl hx)
    · exact .inr (.inr (.inl hx))
    · refine .inr (.inr (.inr ⟨hx, r, mem_update.mpr ⟨r, hr, .inr ⟨fun hown => ?_, rfl⟩⟩, hsource, hv⟩))
      have hw := hid r hr hown hv
      rw [Kind.isWrite_of_source hsource] at hw
      cases hw
  intro x hx
  obtain ⟨e, he, ⟨hown, rfl⟩ | ⟨_, rfl⟩⟩ := mem_update.mp hx
  · exact hkept _ (hnew e he hown)
  · exact hkept _ (h x he)

omit [Text] [Host Bytes] in
theorem flows_add (h : ∀ e ∈ J.entries, e.Flows J) (hstate : e.tx_state = .PREPARED) :
    ∀ x ∈ (J.add e).entries, x.Flows (J.add e) := by
  intro x hx
  rcases List.mem_cons.mp hx with rfl | hx
  · exact .inl hstate
  · rcases h x hx with hs | hs | hs | ⟨hs, r, hr, hsource⟩
    · exact .inl hs
    · exact .inr (.inl hs)
    · exact .inr (.inr (.inl hs))
    · exact .inr (.inr (.inr ⟨hs, r, List.mem_cons_of_mem _ hr, hsource⟩))

/-- A receipt is rewritten, and if it is on its way then it was before. -/
theorem Busy.update {id : String} {f : Entry Bytes → Entry Bytes} (h : J.Busy first i) (hf : Keeps f)
    (hroot : (J.update id f).Rooted)
    (hid : ∀ e ∈ J.entries, e.receipt_id = id → e.tx_state = .VERIFIED → e.kind.isWrite = true)
    (hnew : ∀ e ∈ J.entries, e.receipt_id = id → (f e).Flows J ∧
      ((f e).tx_state.incomplete = true → e.tx_state.incomplete = true)) :
    (J.update id f).Busy first i where
  rooted := hroot
  flows := flows_update h.flows hid fun e he hown => (hnew e he hown).1
  own := by
    intro x hx hp c hc hcid
    obtain ⟨e, he, ⟨hown, rfl⟩ | ⟨_, rfl⟩⟩ := mem_update.mp hx
    · rw [hf.receipt_id] at hcid
      exact h.own e he ((hnew e he hown).2 hp) c hc hcid
    · exact h.own x he hp c hc hcid
  story := h.story

/-- A receipt of the journal is closed, or becomes VERIFIED. -/
theorem Busy.mark {id : String} {s : TxState} (h : J.Busy first i) (hroot : (J.mark id s).Rooted)
    (hid : ∀ e ∈ J.entries, e.receipt_id = id → e.tx_state = .VERIFIED → e.kind.isWrite = true)
    (hs : s = .VERIFIED ∨ s = .ROLLED_BACK ∧
      ∃ r ∈ J.entries, r.kind.source = some id ∧ r.tx_state = .VERIFIED) :
    (J.mark id s).Busy first i := by
  refine h.update (keeps_mark s) hroot hid fun e he hown => ⟨?_, fun hp => ?_⟩
  · rcases hs with rfl | ⟨rfl, r, hr, hsource, hv⟩
    · exact .inr (.inr (.inl rfl))
    · exact .inr (.inr (.inr ⟨rfl, r, hr, by rw [Entry.mark_receipt_id, hown]; exact hsource, hv⟩))
  · rcases hs with rfl | ⟨rfl, _⟩ <;> cases hp

/-- The newest receipt is on its way: it becomes APPLIED. -/
theorem Busy.applied {rest : List (Entry Bytes)} {text : String} (h : J.Busy first i)
    (hroot : (J.update e.receipt_id fun x => x.applied text).Rooted) (he : J.entries = e :: rest)
    (hstate : e.tx_state = .PREPARED) :
    (J.update e.receipt_id fun x => x.applied text).Busy first i := by
  have hmem : e ∈ J.entries := by
    rw [he]
    exact List.mem_cons_self
  have hown : ∀ x ∈ J.entries, x.receipt_id = e.receipt_id → x = e :=
    fun x hx hid => h.rooted.sourced.wf.eq_of_id hx hmem hid
  refine h.update (keeps_applied text) hroot (fun x hx hid hv => ?_) fun x hx hid => ?_
  · rw [hown x hx hid, hstate] at hv
    cases hv
  · rw [hown x hx hid, hstate]
    exact ⟨.inr (.inl (Entry.applied_tx_state _ _)), fun _ => rfl⟩

/-- A receipt that no change names yet. -/
theorem Busy.add (h : J.Busy first i) (hroot : (J.add e).Rooted)
    (hfresh : e.receipt_id ∉ J.entries.map Entry.receipt_id) (hstate : e.tx_state = .PREPARED) :
    (J.add e).Busy first i where
  rooted := hroot
  flows := flows_add h.flows hstate
  own := by
    intro x hx hp c hc hid
    rcases List.mem_cons.mp hx with rfl | hx
    · exact absurd (h.rooted.logged c hc _ hid) hfresh
    · exact h.own x hx hp c hc hid
  story := h.story

/-- The process changes the target. -/
theorem Busy.change (h : J.Busy first i) (after : Option Bytes) (id : Option String)
    (hroot : (J.change i t after id).Rooted) : (J.change i t after id).Busy first i where
  rooted := hroot
  flows := h.flows
  own := by
    intro x hx hp c hc hid
    rcases List.mem_cons.mp hc with rfl | hc
    · rfl
    · exact h.own x hx hp c hc hid
  story := ⟨rfl, h.story⟩

end Journal

variable {first : Option Bytes}

/-- Every step of a write or a rollback of process `i`. -/
theorem Step.busy (h : Step i t l J J') (hl : l = .write ∨ l = .undo) (hJ : J.Busy first i) :
    J'.Busy first i := by
  have hroot := h.rooted hJ.rooted
  have hhead : ∀ {e : Entry Bytes} {rest : List (Entry Bytes)} {x : Entry Bytes},
      J.entries = e :: rest → x ∈ J.entries → x.receipt_id = e.receipt_id → x = e := by
    intro e rest x he hx hid
    refine hJ.rooted.sourced.wf.eq_of_id hx ?_ hid
    rw [he]
    exact List.mem_cons_self
  cases h with
  | install => exact hJ.change _ _ hroot
  | note he hw hstate => exact hJ.applied hroot he hstate
  | verify he hw hstate =>
    refine hJ.mark hroot (fun x hx hid hv => ?_) (.inl rfl)
    rw [hhead he hx hid, hstate] at hv
    cases hv
  | restore => exact hJ.change _ _ hroot
  | restored hr hs hkind hstate => exact hJ.applied hroot hr hstate
  | confirm hr hkind htext hstate =>
    refine hJ.mark hroot (fun x hx hid hv => ?_) (.inl rfl)
    rw [hhead hr hx hid, hstate] at hv
    cases hv
  | @close _ r rest source hr hs hstate =>
    have hmem : r ∈ J.entries := by
      rw [hr]
      exact List.mem_cons_self
    obtain ⟨s, hsmem, hsid, hw⟩ := hJ.rooted.sourced.wf.source r hmem source hs
    refine hJ.mark hroot (fun x hx hid _ => ?_) (.inr ⟨rfl, r, hmem, hs, hstate⟩)
    rw [hJ.rooted.sourced.wf.eq_of_id hx hsmem (hid.trans hsid.symm)]
    exact hw
  | abandon hr hs hkind hstate hlost =>
    rw [hJ.rooted.sourced.intact _ (by rw [hr]; exact List.mem_cons_of_mem _ hs)] at hlost
    cases hlost
  | _ => rcases hl with hl | hl <;> cases hl

/-- A write or a rollback is announced. -/
theorem Step.busy_of_calm {p : ProjectId} (h : Step i t l J J') (hl : l = .prepare p ∨ l = .intend p)
    (hJ : J.Calm first) (j : Pid) : J'.Busy first j := by
  have hroot := h.rooted hJ.rooted
  cases h with
  | prepare hfresh hkind hstate => exact (hJ.busy j).add hroot hfresh hstate
  | intend hfresh hkind hstate => exact (hJ.busy j).add hroot hfresh hstate
  | _ => rcases hl with hl | hl <;> cases hl

/-- Reconciliation finds nothing to decide where nothing is on its way: it only closes
what a rollback has closed. -/
theorem Step.calm (h : Step i t l J J') (hl : l = .settle ∨ l = .audit ∨ l = .overtake)
    (hJ : J.Calm first) : J'.Calm first := by
  have hroot := h.rooted hJ.rooted
  cases h with
  | settle he hp =>
    rw [hJ.complete _ he] at hp
    cases hp
  | @finalize _ r source hr hs hv =>
    obtain ⟨s, hsmem, hsid, hw⟩ := hJ.rooted.sourced.wf.source r hr source hs
    have hbusy : (J.mark source .ROLLED_BACK).Busy first i :=
      (hJ.busy i).mark hroot (fun x hx hid _ => by
        rw [hJ.rooted.sourced.wf.eq_of_id hx hsmem (hid.trans hsid.symm)]
        exact hw) (.inr ⟨rfl, r, hr, hs, hv⟩)
    refine hbusy.calm fun x hx => ?_
    obtain ⟨e, he, ⟨_, rfl⟩ | ⟨_, rfl⟩⟩ := Journal.mem_mark.mp hx
    · rfl
    · exact hJ.complete x he
  | audit he hw hv hlost =>
    rw [hJ.rooted.sourced.intact _ he] at hlost
    cases hlost
  | overtake he hw hstate =>
    have hcomplete := hJ.complete _ he
    rw [hstate] at hcomplete
    cases hcomplete
  | supersede he hw hstate =>
    rcases hJ.flows _ he with hs | hs | hs | ⟨hs, _⟩ <;> rw [hstate] at hs <;> cases hs
  | _ => rcases hl with hl | hl | hl <;> cases hl

end jvc.recovery
