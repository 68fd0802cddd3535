import Jvc.Recovery.Deciding
import Jvc.Recovery.Sources
import Jvc.Recovery.Undoing

namespace jvc.recovery

variable {Bytes : Type} [Text] [Host Bytes] {i : Pid} {t : Path} {l : Label} {J J' K R : Journal Bytes}
  {r s e : Entry Bytes}

namespace Journal

/-- Receipts reconciled: content, standing writes and finished rollbacks are as
they were, and a rollback counts as it did. -/
structure Reconciled (J J' : Journal Bytes) : Prop where
  sourced : J'.Sourced
  target : J'.target = J.target
  links : J'.entries.map Entry.link = J.entries.map Entry.link
  standing : J'.standing.map Entry.link = J.standing.map Entry.link
  reverted : ∀ id, J'.reverted id = J.reverted id
  rollbacks : ∀ e ∈ J.entries, e.kind.isWrite = false →
    ∃ x ∈ J'.entries, x.link = e.link ∧ x.settled J'.current = e.settled J.current

theorem Reconciled.refl (h : J.Sourced) : J.Reconciled J :=
  ⟨h, rfl, rfl, rfl, fun _ => rfl, fun e he _ => ⟨e, he, rfl, rfl⟩⟩

theorem Reconciled.trans (h : J.Reconciled J') (h' : J'.Reconciled K) : J.Reconciled K where
  sourced := h'.sourced
  target := h'.target.trans h.target
  links := h'.links.trans h.links
  standing := h'.standing.trans h.standing
  reverted := fun id => (h'.reverted id).trans (h.reverted id)
  rollbacks := fun e he hroll => by
    obtain ⟨x, hx, hlink, hsettled⟩ := h.rollbacks e he hroll
    have hkind : x.kind = e.kind := congrArg Prod.snd hlink
    obtain ⟨y, hy, hlink', hsettled'⟩ := h'.rollbacks x hx (by rw [hkind]; exact hroll)
    exact ⟨y, hy, hlink'.trans hlink, hsettled'.trans hsettled⟩

theorem Reconciled.ids (h : J.Reconciled J') :
    J'.entries.map Entry.receipt_id = J.entries.map Entry.receipt_id := by
  have hids := congrArg (List.map Prod.fst) h.links
  rw [List.map_map, List.map_map] at hids
  exact hids

omit [Text] [Host Bytes] in
theorem links_mark (id : String) (state : TxState) :
    (J.mark id state).entries.map Entry.link = J.entries.map Entry.link := by
  rw [mark, update, List.map_map]
  refine List.map_congr_left fun x _ => ?_
  simp only [Function.comp_apply]
  split <;> rfl

/-- A receipt that is marked as it counts already. -/
theorem Sourced.rollback_mark {id : String} {state : TxState} (he : e ∈ J.entries)
    (hself : e.receipt_id = id → (e.mark state).settled J.current = e.settled J.current) :
    ∃ x ∈ (J.mark id state).entries, x.link = e.link ∧ x.settled J.current = e.settled J.current := by
  by_cases hid : e.receipt_id = id
  · exact ⟨e.mark state, mem_mark.mpr ⟨e, he, .inl ⟨hid, rfl⟩⟩, rfl, hself hid⟩
  · exact ⟨e, mem_mark.mpr ⟨e, he, .inr ⟨hid, rfl⟩⟩, rfl, rfl⟩

/-- What reconciliation does in one step. -/
theorem Sourced.reconciled (h : J.Sourced) (hstep : Step i t l J J')
    (hl : l = .settle ∨ l = .overtake) : J.Reconciled J' := by
  have hsourced := hstep.sourced h
  obtain ⟨hlinks, _⟩ := h.settled hstep hl
  obtain ⟨id, s, hmark, hcounts⟩ := h.counts hstep hl
  have hreverted : ∀ id, J'.reverted id = J.reverted id := by
    rw [hmark]
    exact hcounts.reverted
  have htarget : J'.target = J.target := by
    rw [hmark]
    rfl
  refine ⟨hsourced, htarget, by rw [hmark, links_mark], hlinks, hreverted, fun e he hroll => ?_⟩
  have hcurrent : J'.current = J.current := by rw [current, current, htarget]
  rw [hcurrent]
  have hwrite : ∀ x ∈ J.entries, x.kind.isWrite = true → e.receipt_id ≠ x.receipt_id := by
    intro x hx hw hid
    rw [h.wf.eq_of_id he hx hid, hw] at hroll
    cases hroll
  cases hstep with
  | @settle _ e₀ he₀ hp =>
    refine rollback_mark he fun hid => ?_
    rw [h.wf.eq_of_id he he₀ hid]
    exact Entry.settled_of_complete (e₀.settled_complete _) _
  | finalize hr hs hv =>
    obtain ⟨x, hx, hxid, hw⟩ := h.wf.source _ hr _ hs
    exact rollback_mark he fun hid => absurd (hid.trans hxid.symm) (hwrite x hx hw)
  | overtake he₀ hw hstate => exact rollback_mark he fun hid => absurd hid (hwrite _ he₀ hw)
  | supersede he₀ hw hstate => exact rollback_mark he fun hid => absurd hid (hwrite _ he₀ hw)
  | _ => rcases hl with hl | hl <;> cases hl

theorem Sourced.reconciled_overtaking (h : J.Sourced) (hover : Overtaking i t J J') :
    J.Reconciled J' := by
  induction hover with
  | refl => exact .refl h
  | tail _ hone ih =>
    rcases hone with hstep | hstep
    · exact ih.trans (ih.sourced.reconciled hstep (.inl rfl))
    · exact ih.trans (ih.sourced.reconciled hstep (.inr rfl))

/-- Restart recovery where every backup is intact. -/
theorem Sourced.reconciled_recovering (h : J.Sourced) (hrec : Recovering i t J J') :
    J.Reconciled J' := by
  induction hrec with
  | refl => exact .refl h
  | tail _ hone ih =>
    rcases hone with hstep | hstep
    · exact ih.trans (ih.sourced.reconciled hstep (.inl rfl))
    · cases hstep with
      | audit he _ _ hlost =>
        rw [ih.sourced.intact _ he] at hlost
        cases hlost

/-- How far a rollback has come since its intent `r` to undo `s` was recorded. -/
inductive Midway (J : Journal Bytes) (r s : Entry Bytes) : Journal Bytes → Prop
  | prepared {K : Journal Bytes} (hentries : K.entries = r :: J.entries)
      (htarget : K.target = J.target ∨ K.target = s.kind.before) : Midway J r s K
  | applied {K : Journal Bytes} (hentries : K.entries = r.applied K.restoredText :: J.entries)
      (htarget : K.target = s.kind.before) : Midway J r s K
  | verified {K : Journal Bytes} (hentries : K.entries = r.verified K.restoredText :: J.entries)
      (htarget : K.target = s.kind.before) : Midway J r s K
  | closed {K : Journal Bytes}
      (hentries : K.entries =
        r.verified K.restoredText :: (J.mark s.receipt_id .ROLLED_BACK).entries)
      (htarget : K.target = s.kind.before) : Midway J r s K

omit [Text] [Host Bytes] in
/-- An older receipt is marked. -/
theorem mark_tail {id : String} (h : K.entries = e :: J.entries) (hne : e.receipt_id ≠ id)
    (state : TxState) : (K.mark id state).entries = e :: (J.mark id state).entries := by
  simp only [mark, update, h, List.map_cons, if_neg hne]

/-- The work of a rollback goes on from where it has come. -/
theorem Midway.step {p : ProjectId} {post : String} (h : J.Midway r s K)
    (hint : J.Intends p post r s) (hwf : J.Wf) (hK : K.Rooted) (hstep : Step i t .undo K J') :
    J.Midway r s J' := by
  have hfresh : ∀ text, ∀ x ∈ J.entries, x.receipt_id ≠ (r.applied text).receipt_id := by
    intro text
    rw [Entry.applied_receipt_id]
    exact hint.fresh
  have hsource : ∀ {s' : Entry Bytes}, s' ∈ J.entries → r.kind.source = some s'.receipt_id → s' = s := by
    intro s' hs' hsource
    rw [hint.kind] at hsource
    exact hwf.eq_of_id hs' hint.source (Option.some.inj hsource).symm
  have hintact : ∀ {e : Entry Bytes}, e ∈ K.entries → e.backup_ok = false → False := by
    intro e he hlost
    rw [hK.sourced.intact e he] at hlost
    cases hlost
  have hown : ∀ text, (r.verified text).receipt_id ≠ s.receipt_id := by
    intro text
    rw [Entry.verified, Entry.mark_receipt_id, Entry.applied_receipt_id]
    exact (hint.fresh s hint.source).symm
  have hclosing : ∀ {r' : Entry Bytes} {text source : String} {rest rest' : List (Entry Bytes)},
      K.entries = r.verified text :: rest → K.entries = r' :: rest' →
        r'.kind.source = some source → s.receipt_id = source := by
    intro r' text source rest rest' hentries hr hs
    rw [hentries] at hr
    cases hr
    rw [Entry.verified, Entry.mark_kind, Entry.applied_source, hint.kind] at hs
    exact Option.some.inj hs
  cases h with
  | prepared hentries htarget =>
    cases hstep with
    | @restore _ r' s' rest expected hr hs hkind =>
      rw [hentries] at hr
      cases hr
      obtain rfl := hsource hs (by rw [hkind]; rfl)
      exact .prepared hentries (.inr rfl)
    | @restored _ r' s' rest expected hr hs hkind hstate hsrc ht =>
      rw [hentries] at hr
      cases hr
      obtain rfl := hsource hs (by rw [hkind]; rfl)
      exact .applied (update_head hentries hint.fresh _) ht
    | confirm hr hkind =>
      rw [hentries] at hr
      cases hr
      rw [hint.kind] at hkind
      cases hkind
    | close hr hs hstate =>
      rw [hentries] at hr
      cases hr
      rw [hint.state] at hstate
      cases hstate
    | abandon hr hs hkind hstate hlost =>
      exact (hintact (by rw [hr]; exact List.mem_cons_of_mem _ hs) hlost).elim
  | applied hentries htarget =>
    cases hstep with
    | confirm hr hkind htext hstate =>
      rw [hentries] at hr
      cases hr
      exact .verified (update_head hentries (hfresh _) _) htarget
    | close hr hs hstate =>
      rw [hentries] at hr
      cases hr
      rw [Entry.applied_tx_state] at hstate
      cases hstate
    | restore hr hs hkind hstate =>
      rw [hentries] at hr
      cases hr
      rw [Entry.applied_tx_state] at hstate
      cases hstate
    | restored hr hs hkind hstate =>
      rw [hentries] at hr
      cases hr
      rw [Entry.applied_tx_state] at hstate
      cases hstate
    | abandon hr hs hkind hstate hlost =>
      exact (hintact (by rw [hr]; exact List.mem_cons_of_mem _ hs) hlost).elim
  | verified hentries htarget =>
    cases hstep with
    | close hr hs hstate =>
      obtain rfl := hclosing hentries hr hs
      exact .closed (mark_tail hentries (hown _) _) htarget
    | confirm hr hkind htext hstate =>
      rw [hentries] at hr
      cases hr
      cases hstate
    | restore hr hs hkind hstate =>
      rw [hentries] at hr
      cases hr
      cases hstate
    | restored hr hs hkind hstate =>
      rw [hentries] at hr
      cases hr
      cases hstate
    | abandon hr hs hkind hstate hlost =>
      exact (hintact (by rw [hr]; exact List.mem_cons_of_mem _ hs) hlost).elim
  | closed hentries htarget =>
    cases hstep with
    | close hr hs hstate =>
      obtain rfl := hclosing hentries hr hs
      refine .closed ?_ htarget
      rw [mark_tail (J := { J with entries := (J.mark s.receipt_id .ROLLED_BACK).entries }) hentries
        (hown _)]
      exact congrArg (List.cons _) (congrArg Journal.entries (J.mark_mark s.receipt_id _ _))
    | confirm hr hkind htext hstate =>
      rw [hentries] at hr
      cases hr
      cases hstate
    | restore hr hs hkind hstate =>
      rw [hentries] at hr
      cases hr
      cases hstate
    | restored hr hs hkind hstate =>
      rw [hentries] at hr
      cases hr
      cases hstate
    | abandon hr hs hkind hstate hlost =>
      exact (hintact (by rw [hr]; exact List.mem_cons_of_mem _ hs) hlost).elim

/-- A rollback of the receipt is in effect: it is VERIFIED, or APPLIED and the target
is as it left it. -/
def Undone (J : Journal Bytes) (id : String) : Prop :=
  ∃ r ∈ J.entries, r.kind.source = some id ∧ (r.tx_state = .VERIFIED ∨
    r.tx_state = .APPLIED ∧ ∃ expected, r.kind = .rollback id expected (some J.restoredText))

omit [Text] [Host Bytes] in
/-- What the reconciliation of an applied rollback compares. -/
theorem restored_iff {current restored : Option String} :
    (restored.isSome && (current == restored || (restored == some "__ABSENT__" && current.isNone))) =
      true ↔ restored = some (current.getD "__ABSENT__") := by
  cases restored with
  | none => simp
  | some text =>
    cases current with
    | none => simp
    | some digest => simp [eq_comm (a := digest)]

theorem reverted_iff_undone {id : String} : J.reverted id = true ↔ J.Undone id := by
  rw [reverted_iff]
  refine exists_congr fun r => and_congr_right fun _ => and_congr_right fun hsource => ?_
  cases hk : r.kind with
  | write prev pre post backup =>
    rw [hk] at hsource
    cases hsource
  | rollback source expected restored =>
    rw [hk] at hsource
    cases hsource
    constructor
    · intro hsettled
      rcases Entry.state_of_settled_verified hsettled with happlied | hverified
      · rw [Entry.settled_rollback_of_applied hk happlied] at hsettled
        split at hsettled
        · rename_i hmatch
          obtain rfl := restored_iff.mp hmatch
          exact .inr ⟨happlied, expected, rfl⟩
        · cases hsettled
      · exact .inl hverified
    · rintro (hverified | ⟨happlied, expected', hkind⟩)
      · rw [Entry.settled_of_complete (by rw [hverified]; rfl), hverified]
      · cases hkind
        rw [Entry.settled_rollback_of_applied hk happlied, restoredText, if_pos (restored_iff.mpr rfl)]

/-- The target is as it was, the source VERIFIED, and of the rollback there is at most
an intent found unapplied. -/
structure Unapplied (J R : Journal Bytes) (id : String) : Prop where
  target : R.target = J.target
  source : ∃ s ∈ R.entries, s.receipt_id = id ∧ s.tx_state = .VERIFIED
  receipt : ∀ r ∈ R.entries, r.receipt_id ∉ J.entries.map Entry.receipt_id →
    r.tx_state = .RECOVERED_UNAPPLIED

/-- The target is what the source found, the source ROLLED_BACK and the rollback
VERIFIED. -/
structure Completed (J R : Journal Bytes) (id : String) : Prop where
  source : ∃ s ∈ R.entries, s.receipt_id = id ∧ s.tx_state = .ROLLED_BACK ∧ R.target = s.kind.before
  receipt : ∃ r ∈ R.entries, r.receipt_id ∉ J.entries.map Entry.receipt_id ∧
    r.kind.source = some id ∧ r.tx_state = .VERIFIED

/-- The rollback is journaled as far as it has come: its receipt has been APPLIED, or
the target is as it was and no other rollback of the source is in effect. -/
def Covered (J K : Journal Bytes) (id : String) : Prop :=
  (∃ r ∈ K.entries, r.receipt_id ∉ J.entries.map Entry.receipt_id ∧ r.tx_state ≠ .PREPARED) ∨
    K.target = J.target ∧ ¬ J.Undone id

/-- Where a rollback of `s` is cut off: while the pending receipts are settled, or on
its way from its intent. -/
inductive Underway (i : Pid) (t : Path) (J : Journal Bytes) (s : Entry Bytes) :
    Journal Bytes → Prop
  | settling {K J' : Journal Bytes} (hover : Overtaking i t J K) (hchosen : Overtaking i t J J')
      (hs : s ∈ J'.entries) (hw : s.kind.isWrite = true) (hstate : s.tx_state = .VERIFIED) :
      Underway i t J s K
  | midway {K J' : Journal Bytes} {r : Entry Bytes} {p : ProjectId} {post : String}
      (hover : Overtaking i t J J') (hint : J'.Intends p post r s) (hmid : J'.Midway r s K) :
      Underway i t J s K

section Outcome

variable (hrec : K.Reconciled R) (hdecided : ∀ x ∈ R.entries, x.Decided R)
include hrec hdecided

/-- A rollback in effect leaves its source ROLLED_BACK. -/
theorem Reconciled.closed {id : String} (hrev : K.reverted id = true) {s : Entry Bytes}
    (hs : s ∈ R.entries) (hid : s.receipt_id = id) : s.tx_state = .ROLLED_BACK := by
  rw [← hrec.reverted] at hrev
  obtain ⟨r, hr, hsource, hsettled⟩ := reverted_iff.mp hrev
  have hdone := hdecided r hr
  rw [Entry.settled_of_complete hdone.complete] at hsettled
  exact hdone.closed id hsource hsettled s hs hid

/-- A standing write is VERIFIED. -/
theorem Reconciled.stands {e : Entry Bytes} (he : e ∈ K.standing) :
    ∃ x ∈ R.entries, x.receipt_id = e.receipt_id ∧ x.tx_state = .VERIFIED := by
  have hmem : e.link ∈ R.standing.map Entry.link := by
    rw [hrec.standing]
    exact List.mem_map_of_mem he
  obtain ⟨x, hx, hlink⟩ := List.mem_map.mp hmem
  obtain ⟨hxR, _, hsettled, _⟩ := mem_standing.mp hx
  rw [Entry.settled_of_complete (hdecided x hxR).complete] at hsettled
  exact ⟨x, hxR, congrArg Prod.fst hlink, hsettled⟩

/-- A rollback receipt is what it counts as. -/
theorem Reconciled.receipt {e x : Entry Bytes} (he : e ∈ K.entries) (hroll : e.kind.isWrite = false)
    (hx : x ∈ R.entries) (hid : x.receipt_id = e.receipt_id) :
    x.kind = e.kind ∧ x.tx_state = e.settled K.current := by
  obtain ⟨y, hy, hlink, hsettled⟩ := hrec.rollbacks e he hroll
  have hxy : x = y := hrec.sourced.wf.eq_of_id hx hy (hid.trans (congrArg Prod.fst hlink).symm)
  subst hxy
  refine ⟨congrArg Prod.snd hlink, ?_⟩
  rw [← hsettled, Entry.settled_of_complete (hdecided x hx).complete]

/-- Where the rollback has recorded at most its intent, and the target is as it was. -/
theorem Reconciled.outcome_of_unapplied {id : String} (htarget : K.target = J.target)
    (hnew : ∀ e ∈ K.entries, e.receipt_id ∉ J.entries.map Entry.receipt_id →
      e.kind.isWrite = false ∧ e.tx_state = .PREPARED ∧ e.settled K.current = .RECOVERED_UNAPPLIED)
    (hrev : K.reverted id = J.reverted id)
    (hstands : K.reverted id = false → ∃ e ∈ K.standing, e.receipt_id = id) :
    (Unapplied J R id ∨ Completed J R id) ↔ Covered J K id := by
  have hreceipt : ∀ x ∈ R.entries, x.receipt_id ∉ J.entries.map Entry.receipt_id →
      x.tx_state = .RECOVERED_UNAPPLIED := by
    intro x hx hxnew
    have hmem : x.receipt_id ∈ K.entries.map Entry.receipt_id := by
      rw [← hrec.ids]
      exact List.mem_map_of_mem hx
    obtain ⟨e, he, hid⟩ := List.mem_map.mp hmem
    obtain ⟨hroll, _, hsettled⟩ := hnew e he (by rw [hid]; exact hxnew)
    rw [(hrec.receipt hdecided he hroll hx hid.symm).2, hsettled]
  have hcovered : Covered J K id ↔ J.reverted id = false := by
    rw [Bool.eq_false_iff, ne_eq, reverted_iff_undone]
    constructor
    · rintro (⟨e, he, henew, hstate⟩ | ⟨_, hno⟩)
      · exact absurd (hnew e he henew).2.1 hstate
      · exact hno
    · exact fun hno => .inr ⟨htarget, hno⟩
  rw [hcovered]
  constructor
  · rintro (h | h)
    · rw [Bool.eq_false_iff]
      intro htrue
      obtain ⟨s, hs, hid, hverified⟩ := h.source
      rw [hrec.closed hdecided (hrev.trans htrue) hs hid] at hverified
      cases hverified
    · obtain ⟨x, hx, hxnew, _, hverified⟩ := h.receipt
      rw [hreceipt x hx hxnew] at hverified
      cases hverified
  · intro hfalse
    obtain ⟨e, he, hid⟩ := hstands (hrev.trans hfalse)
    obtain ⟨x, hx, hxid, hverified⟩ := hrec.stands hdecided he
    exact .inl ⟨hrec.target.trans htarget, ⟨x, hx, hxid.trans hid, hverified⟩, hreceipt⟩

/-- Where the rollback is in effect, recovery completes it. -/
theorem Reconciled.outcome_of_applied {r s : Entry Bytes} (hr : r ∈ K.entries)
    (hnew : r.receipt_id ∉ J.entries.map Entry.receipt_id)
    (hsource : r.kind.source = some s.receipt_id) (hsettled : r.settled K.current = .VERIFIED)
    (htarget : K.target = s.kind.before) (hs : s.link ∈ K.entries.map Entry.link) :
    Completed J R s.receipt_id := by
  have hrev : K.reverted s.receipt_id = true := reverted_iff.mpr ⟨r, hr, hsource, hsettled⟩
  constructor
  · rw [← hrec.links] at hs
    obtain ⟨x, hx, hlink⟩ := List.mem_map.mp hs
    have hid : x.receipt_id = s.receipt_id := congrArg Prod.fst hlink
    have hkind : x.kind = s.kind := congrArg Prod.snd hlink
    exact ⟨x, hx, hid, hrec.closed hdecided hrev hx hid, by rw [hrec.target, htarget, hkind]⟩
  · have hroll : r.kind.isWrite = false := Kind.isWrite_of_source hsource
    obtain ⟨x, hx, hlink, _⟩ := hrec.rollbacks r hr hroll
    have hid : x.receipt_id = r.receipt_id := congrArg Prod.fst hlink
    obtain ⟨hkind, hstate⟩ := hrec.receipt hdecided hr hroll hx hid
    exact ⟨x, hx, by rw [hid]; exact hnew, by rw [hkind]; exact hsource, hstate.trans hsettled⟩

/-- Where the target has changed and the rollback has recorded only its intent,
recovery comes to neither end. -/
theorem Reconciled.outcome_of_torn {r : Entry Bytes} {id : String}
    (hentries : ∀ e ∈ K.entries, e.receipt_id ∉ J.entries.map Entry.receipt_id → e = r)
    (hr : r ∈ K.entries) (hroll : r.kind.isWrite = false) (hstate : r.tx_state = .PREPARED)
    (htarget : K.target ≠ J.target) : ¬ (Unapplied J R id ∨ Completed J R id) ∧ ¬ Covered J K id := by
  refine ⟨?_, ?_⟩
  · rintro (h | h)
    · exact htarget (hrec.target.symm.trans h.target)
    · obtain ⟨x, hx, hxnew, _, hverified⟩ := h.receipt
      have hmem : x.receipt_id ∈ K.entries.map Entry.receipt_id := by
        rw [← hrec.ids]
        exact List.mem_map_of_mem hx
      obtain ⟨e, he, hid⟩ := List.mem_map.mp hmem
      obtain rfl := hentries e he (by rw [hid]; exact hxnew)
      rw [(hrec.receipt hdecided hr hroll hx hid.symm).2] at hverified
      rcases Entry.state_of_settled_verified hverified with happlied | hv
      · rw [hstate] at happlied
        cases happlied
      · rw [hstate] at hv
        cases hv
  · rintro (⟨e, he, henew, hne⟩ | ⟨hsame, _⟩)
    · obtain rfl := hentries e he henew
      exact hne hstate
    · exact htarget hsame

end Outcome

/-- An intent adds nothing that stands, and takes nothing away. -/
theorem standing_of_intent (hentries : K.entries = r :: J.entries) (hcurrent : K.current = J.current)
    (hroll : r.kind.isWrite = false) (hstate : r.tx_state = .PREPARED) :
    K.standing = J.standing ∧ ∀ id, K.reverted id = J.reverted id := by
  have hne : r.settled K.current ≠ .VERIFIED := by
    intro hv
    rcases Entry.state_of_settled_verified hv with h | h <;> rw [hstate] at h <;> cases h
  have hrev : ∀ id, K.reverted id = J.reverted id := by
    intro id
    rw [Bool.eq_iff_iff, reverted_iff, reverted_iff, hentries, hcurrent]
    rw [hcurrent] at hne
    constructor
    · rintro ⟨x, hx, hsource, hv⟩
      rcases List.mem_cons.mp hx with rfl | hold
      · exact absurd hv hne
      · exact ⟨x, hold, hsource, hv⟩
    · rintro ⟨x, hx, hsource, hv⟩
      exact ⟨x, List.mem_cons_of_mem _ hx, hsource, hv⟩
  refine ⟨?_, hrev⟩
  have hhead : K.stands r = false := by
    simp only [stands, hroll, Bool.false_and]
  rw [standing, standing, hentries, List.filter_cons_of_neg (by rw [hhead]; exact Bool.false_ne_true)]
  refine List.filter_congr fun x _ => ?_
  simp only [stands, hcurrent, hrev]

/-- Whatever becomes of an interrupted rollback, recovery ends it cleanly exactly
where it had recorded what it did. -/
theorem Underway.outcome_iff (h : Underway i t J s K) (hJ : J.Sourced) (hrec : K.Reconciled R)
    (hdecided : ∀ x ∈ R.entries, x.Decided R) :
    (Unapplied J R s.receipt_id ∨ Completed J R s.receipt_id) ↔ Covered J K s.receipt_id := by
  have hstanding : ∀ {J' : Journal Bytes}, J.Reconciled J' → s ∈ J'.entries →
      s.kind.isWrite = true → s.tx_state = .VERIFIED → J'.reverted s.receipt_id = false →
        s ∈ J'.standing := by
    intro J' _ hs hw hstate hrev
    exact mem_standing.mpr ⟨hs, hw, by rw [Entry.settled_of_complete (by rw [hstate]; rfl), hstate],
      hrev⟩
  cases h with
  | @settling J' hover hchosen hs hw hstate =>
    have hK := hJ.reconciled_overtaking hover
    have hJ' := hJ.reconciled_overtaking hchosen
    refine hrec.outcome_of_unapplied hdecided hK.target (fun e he hnew => ?_) (hK.reverted _)
      fun hrev => ?_
    · rw [← hK.ids] at hnew
      exact absurd (List.mem_map_of_mem he) hnew
    · rw [hK.reverted, ← hJ'.reverted] at hrev
      have hmem : s.link ∈ K.standing.map Entry.link := by
        rw [hK.standing, ← hJ'.standing]
        exact List.mem_map_of_mem (hstanding hJ' hs hw hstate hrev)
      obtain ⟨e, he, hlink⟩ := List.mem_map.mp hmem
      exact ⟨e, he, congrArg Prod.fst hlink⟩
  | @midway J' r p post hover hint hmid =>
    have hJ' := hJ.reconciled_overtaking hover
    have hroll : r.kind.isWrite = false := by
      rw [hint.kind]
      rfl
    have hrnew : r.receipt_id ∉ J.entries.map Entry.receipt_id := by
      rw [← hJ'.ids]
      intro hmem
      obtain ⟨x, hx, hid⟩ := List.mem_map.mp hmem
      exact hint.fresh x hx hid
    have hold : ∀ e ∈ J'.entries, e.receipt_id ∉ J.entries.map Entry.receipt_id → False := by
      intro e he hnew
      rw [← hJ'.ids] at hnew
      exact hnew (List.mem_map_of_mem he)
    have hslink : s.link ∈ J'.entries.map Entry.link := List.mem_map_of_mem hint.source
    have hdone : ∀ (r' : Entry Bytes) (rest : List (Entry Bytes)), K.entries = r' :: rest →
        r'.receipt_id = r.receipt_id → r'.kind.source = some s.receipt_id →
          r'.settled K.current = .VERIFIED → r'.tx_state ≠ .PREPARED → K.target = s.kind.before →
            rest.map Entry.link = J'.entries.map Entry.link →
              ((Unapplied J R s.receipt_id ∨ Completed J R s.receipt_id) ↔
                Covered J K s.receipt_id) := by
      intro r' rest hentries hid hsource hsettled hstate htarget hrest
      have hr' : r' ∈ K.entries := by
        rw [hentries]
        exact List.mem_cons_self
      refine iff_of_true (.inr (hrec.outcome_of_applied hdecided hr' (by rw [hid]; exact hrnew)
        hsource hsettled htarget ?_)) (.inl ⟨r', hr', by rw [hid]; exact hrnew, hstate⟩)
      rw [hentries, List.map_cons, hrest]
      exact List.mem_cons_of_mem _ hslink
    have hverified : ∀ text, (r.verified text).settled K.current = .VERIFIED :=
      fun text => Entry.settled_of_complete rfl _
    have hne : ∀ text, (r.verified text).tx_state ≠ .PREPARED := by
      intro text hstate
      cases hstate
    have hsource : ∀ text, (r.applied text).kind.source = some s.receipt_id := by
      intro text
      rw [Entry.applied_source, hint.kind]
      rfl
    cases hmid with
    | prepared hentries htarget =>
      have hr : r ∈ K.entries := by
        rw [hentries]
        exact List.mem_cons_self
      have honly : ∀ e ∈ K.entries, e.receipt_id ∉ J.entries.map Entry.receipt_id → e = r := by
        intro e he hnew
        rw [hentries] at he
        exact (List.mem_cons.mp he).resolve_right fun hin => hold e hin hnew
      by_cases hsame : K.target = J.target
      · have hcurrent : K.current = J'.current := by
          rw [current, current, hsame, hJ'.target]
        obtain ⟨hstands, hrev⟩ := standing_of_intent hentries hcurrent hroll hint.state
        refine hrec.outcome_of_unapplied hdecided hsame (fun e he hnew => ?_)
          ((hrev _).trans (hJ'.reverted _)) fun hfalse => ?_
        · obtain rfl := honly e he hnew
          refine ⟨hroll, hint.state, ?_⟩
          rw [Entry.settled_rollback_of_prepared hint.kind hint.state, hcurrent, hint.current, if_pos]
          exact beq_self_eq_true _
        · rw [hstands]
          rw [hrev] at hfalse
          exact ⟨s, hstanding hJ' hint.source hint.source_write hint.source_state hfalse, rfl⟩
      · have htorn : ¬ (Unapplied J R s.receipt_id ∨ Completed J R s.receipt_id) ∧
            ¬ Covered J K s.receipt_id :=
          hrec.outcome_of_torn hdecided honly hr hroll hint.state hsame
        exact iff_of_false htorn.1 htorn.2
    | applied hentries htarget =>
      refine hdone _ _ hentries (Entry.applied_receipt_id _ _) (hsource _) ?_ ?_ htarget rfl
      · have hkind : (r.applied K.restoredText).kind =
            .rollback s.receipt_id post (some K.restoredText) := by
          rw [Entry.applied, hint.kind]
        rw [Entry.settled_rollback_of_applied hkind (Entry.applied_tx_state _ _), restoredText,
          if_pos (restored_iff.mpr rfl)]
      · rw [Entry.applied_tx_state]
        decide
    | verified hentries htarget =>
      exact hdone _ _ hentries (Entry.applied_receipt_id _ _) (hsource _) (hverified _) (hne _)
        htarget rfl
    | closed hentries htarget =>
      exact hdone _ _ hentries (Entry.applied_receipt_id _ _) (hsource _) (hverified _) (hne _)
        htarget (links_mark _ _)

end Journal

end jvc.recovery
