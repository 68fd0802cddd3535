import Jvc.Recovery.Succession

namespace jvc.recovery

variable {Bytes : Type} [Text] [Host Bytes] {i : Pid} {t : Path} {p : ProjectId} {l : Label}
  {J J' : Journal Bytes}

namespace Journal

/-- The VERIFIED receipts of writes, latest first. -/
def verified (J : Journal Bytes) : List (Entry Bytes) :=
  J.entries.filter fun e => e.kind.isWrite && e.tx_state == .VERIFIED

/-- The VERIFIED receipts form a chain as well, also while a rollback is about to
close its source. -/
structure Orderly (J : Journal Bytes) : Prop where
  closed : ∀ r ∈ J.entries.tail, r.tx_state = .APPLIED ∨ r.tx_state = .VERIFIED →
    ∀ s ∈ J.entries, r.kind.source = some s.receipt_id → s.tx_state = .ROLLED_BACK
  applied : ∀ e ∈ J.entries, e.tx_state = .APPLIED → e.settled J.current = .VERIFIED
  linked : ∃ digest, Linked J.verified digest

omit [Text] [Host Bytes] in
theorem mem_verified {e : Entry Bytes} :
    e ∈ J.verified ↔ e ∈ J.entries ∧ e.kind.isWrite = true ∧ e.tx_state = .VERIFIED := by
  simp only [verified, List.mem_filter, Bool.and_eq_true, beq_iff_eq]

/-- With all rollbacks closed, an unapplied write stands if it is VERIFIED. -/
theorem Closed.stands_eq (h : J.Closed) {x : Entry Bytes} (hx : x ∈ J.entries)
    (happlied : x.tx_state ≠ .APPLIED) :
    J.stands x = (x.kind.isWrite && x.tx_state == .VERIFIED) := by
  have hiff := Entry.settled_verified_iff happlied J.current
  rw [Bool.eq_iff_iff]
  constructor
  · intro hstands
    obtain ⟨_, hw, hv, _⟩ := mem_standing.mp (List.mem_filter.mpr ⟨hx, hstands⟩)
    rw [hw, hiff.mp hv]
    rfl
  · intro hv
    rw [Bool.and_eq_true, beq_iff_eq] at hv
    have hmem := h.stands hx hv.1 (hiff.mpr hv.2)
    exact (List.mem_filter.mp hmem).2

theorem Closed.standing_eq (h : J.Closed) (happlied : ∀ e ∈ J.entries, e.tx_state ≠ .APPLIED) :
    J.standing = J.verified :=
  List.filter_congr fun x hx => h.stands_eq hx (happlied x hx)

/-- An applied write is the newest that stands, over those that are VERIFIED. -/
theorem Closed.standing_applied (h : J.Closed) {e : Entry Bytes} {rest : List (Entry Bytes)}
    (he : J.entries = e :: rest) (hstate : e.tx_state = .APPLIED) (hstands : e ∈ J.standing)
    (hrest : ∀ x ∈ rest, x.tx_state.incomplete = false) : J.standing = e :: J.verified := by
  have hkeep : J.stands e = true := (List.mem_filter.mp hstands).2
  have hno : (e.kind.isWrite && e.tx_state == .VERIFIED) = false := by
    rw [hstate]
    exact Bool.and_false _
  rw [standing, verified, he, List.filter_cons_of_pos hkeep,
    List.filter_cons_of_neg (by rw [hno]; exact Bool.false_ne_true)]
  congr 1
  refine List.filter_congr fun x hx => h.stands_eq ?_ fun hs => ?_
  · rw [he]
    exact List.mem_cons_of_mem _ hx
  · have hcomplete := hrest x hx
    rw [hs] at hcomplete
    cases hcomplete

/-- With an applied write all rollbacks are closed, for it is the newest receipt. -/
theorem Orderly.closed_of_write (h : J.Orderly) {e : Entry Bytes} {rest : List (Entry Bytes)}
    (he : J.entries = e :: rest) (hw : e.kind.isWrite = true) : J.Closed := by
  intro r hr hstate s hs hsource
  rw [he] at hr
  rcases List.mem_cons.mp hr with rfl | hold
  · rw [Kind.isWrite_of_source hsource] at hw
    cases hw
  · refine h.closed r ?_ hstate s hs hsource
    rw [he]
    exact hold

/-- Receipts marked without changing which writes are VERIFIED. -/
theorem Orderly.linked_mark (h : J.Orderly) {id : String} {s : TxState}
    (hsame : ∀ x ∈ J.entries, x.receipt_id = id → x.kind.isWrite = true →
      (s = .VERIFIED ↔ x.tx_state = .VERIFIED)) : ∃ digest, Linked (J.mark id s).verified digest := by
  obtain ⟨digest, hlinked⟩ := h.linked
  have hverified : (J.mark id s).verified =
      J.verified.map fun x => if x.receipt_id = id then x.mark s else x := by
    have hentries : (J.mark id s).entries =
        J.entries.map fun x => if x.receipt_id = id then x.mark s else x := rfl
    rw [verified, verified, hentries, List.filter_map]
    congr 1
    refine List.filter_congr fun x hx => ?_
    simp only [Function.comp_apply]
    split
    · rename_i hid
      rw [Entry.mark_kind, Entry.mark_tx_state]
      cases hw : x.kind.isWrite with
      | false => rfl
      | true =>
        rw [Bool.true_and, Bool.true_and, Bool.eq_iff_iff, beq_iff_eq, beq_iff_eq]
        exact hsame x hx hid hw
    · rfl
  rw [hverified]
  refine ⟨digest, hlinked.map (fun x => ?_) fun x => ?_⟩
  · split <;> rfl
  · split <;> rfl

/-- A pending receipt is the newest one. -/
theorem Chained.newest (h : J.Chained p) {e : Entry Bytes} (he : e ∈ J.entries)
    (hp : e.tx_state.incomplete = true) : ∃ rest, J.entries = e :: rest := by
  cases hentries : J.entries with
  | nil =>
    rw [hentries] at he
    cases he
  | cons a rest =>
    have htail := h.tail
    rw [hentries] at he htail
    rcases List.mem_cons.mp he with rfl | hold
    · exact ⟨rest, rfl⟩
    · rw [htail e hold] at hp
      cases hp

omit [Text] [Host Bytes] in
/-- A receipt of the tail that was marked. -/
theorem mem_tail_mark {id : String} {s : TxState} {x : Entry Bytes}
    (hx : x ∈ (J.mark id s).entries.tail) : ∃ y ∈ J.entries.tail,
      (y.receipt_id = id ∧ x = y.mark s) ∨ (y.receipt_id ≠ id ∧ x = y) := by
  change x ∈ (J.entries.map _).tail at hx
  rw [← List.map_tail] at hx
  obtain ⟨y, hy, rfl⟩ := List.mem_map.mp hx
  refine ⟨y, hy, ?_⟩
  split
  · exact .inl ⟨by assumption, rfl⟩
  · exact .inr ⟨by assumption, rfl⟩

theorem Orderly.settle {e : Entry Bytes} {s : TxState} (h : J.Orderly) (hJ : J.Chained p)
    (hJ' : (J.mark e.receipt_id s).Chained p) (he : e ∈ J.entries)
    (hp : e.tx_state.incomplete = true) (hs : s.incomplete = false) :
    (J.mark e.receipt_id s).Orderly := by
  obtain ⟨rest, hentries⟩ := hJ.newest he hp
  have hfresh := hJ.fresh hentries
  have htail := hJ.tail
  rw [hentries] at htail
  have hclosed : ∀ r ∈ (J.mark e.receipt_id s).entries.tail,
      r.tx_state = .APPLIED ∨ r.tx_state = .VERIFIED → ∀ x ∈ (J.mark e.receipt_id s).entries,
        r.kind.source = some x.receipt_id → x.tx_state = .ROLLED_BACK := by
    intro r hr hstate x hx hsource
    obtain ⟨y, hy, hry⟩ := mem_tail_mark hr
    rw [hentries] at hy
    rcases hry with ⟨hid, _⟩ | ⟨_, rfl⟩
    · exact absurd hid (hfresh y hy)
    · have hrJ : r ∈ J.entries := by
        rw [hentries]
        exact List.mem_cons_of_mem _ hy
      obtain ⟨z, hz, ⟨hid, rfl⟩ | ⟨_, rfl⟩⟩ := mem_mark.mp hx
      · rw [Entry.mark_receipt_id, hid] at hsource
        rcases hJ.sources r hrJ e he hsource with hs' | hs' <;> rw [hs'] at hp <;> cases hp
      · exact h.closed r (by rw [hentries]; exact hy) hstate x hz hsource
  have hdone : ∀ x ∈ (J.mark e.receipt_id s).entries, x.tx_state.incomplete = false := by
    intro x hx
    obtain ⟨y, hy, ⟨_, rfl⟩ | ⟨hid, rfl⟩⟩ := mem_mark.mp hx
    · exact hs
    · rw [hentries] at hy
      rcases List.mem_cons.mp hy with rfl | hold
      · exact absurd rfl hid
      · exact htail x hold
  have happlied : ∀ x ∈ (J.mark e.receipt_id s).entries, x.tx_state ≠ .APPLIED := by
    intro x hx hstate
    have hcomplete := hdone x hx
    rw [hstate] at hcomplete
    cases hcomplete
  refine ⟨hclosed, fun x hx hstate => absurd hstate (happlied x hx), ?_⟩
  by_cases hverify : e.kind.isWrite = true ∧ s = .VERIFIED
  · -- the newest receipt is a write, so every finished rollback is in the tail
    have hall : (J.mark e.receipt_id s).Closed := by
      intro r hr hstate x hx hsource
      have hlist : (J.mark e.receipt_id s).entries =
          e.mark s :: (J.mark e.receipt_id s).entries.tail := by
        simp only [Journal.mark, Journal.update, hentries, List.map_cons, if_true, List.tail_cons]
      have hr' := hr
      rw [hlist] at hr'
      rcases List.mem_cons.mp hr' with rfl | hold
      · rw [Entry.mark_kind] at hsource
        rw [Kind.isWrite_of_source hsource] at hverify
        cases hverify.1
      · exact hclosed r hold hstate x hx hsource
    obtain ⟨digest, hlinked, _⟩ := hJ'.linked
    rw [hall.standing_eq happlied] at hlinked
    exact ⟨digest, hlinked⟩
  · refine h.linked_mark fun x hx hid hw => ?_
    rw [hJ.wf.eq_of_id hx he hid] at hw ⊢
    constructor
    · intro hv
      exact absurd ⟨hw, hv⟩ hverify
    · intro hv
      rw [hv] at hp
      cases hp

/-- The source of a finished rollback is closed. -/
theorem Orderly.close {r : Entry Bytes} {source : String} (h : J.Orderly) (hJ : J.Chained p)
    (hJ' : (J.mark source .ROLLED_BACK).Chained p) (hr : r ∈ J.entries)
    (hsource : r.kind.source = some source) (hv : r.tx_state = .VERIFIED) :
    (J.mark source .ROLLED_BACK).Orderly := by
  obtain ⟨s, hs, hid, hw⟩ := hJ.wf.source r hr source hsource
  have hwrite : ∀ y ∈ J.entries, y.receipt_id = source → y.kind.isWrite = true := by
    intro y hy hyid
    rw [hJ.wf.eq_of_id hy hs (hyid.trans hid.symm)]
    exact hw
  have hclosed : ∀ a ∈ (J.mark source .ROLLED_BACK).entries.tail,
      a.tx_state = .APPLIED ∨ a.tx_state = .VERIFIED →
        ∀ x ∈ (J.mark source .ROLLED_BACK).entries, a.kind.source = some x.receipt_id →
          x.tx_state = .ROLLED_BACK := by
    intro a ha hstate x hx hax
    obtain ⟨y, hy, ⟨_, rfl⟩ | ⟨_, rfl⟩⟩ := mem_tail_mark ha
    · rcases hstate with hstate | hstate <;> cases hstate
    · obtain ⟨z, hz, ⟨_, rfl⟩ | ⟨_, rfl⟩⟩ := mem_mark.mp hx
      · rfl
      · exact h.closed a hy hstate x hz hax
  refine ⟨hclosed, fun x hx hstate => ?_, ?_⟩
  · obtain ⟨y, hy, ⟨_, rfl⟩ | ⟨_, rfl⟩⟩ := mem_mark.mp hx
    · cases hstate
    · exact h.applied x hy hstate
  · by_cases htail : r ∈ J.entries.tail
    · refine h.linked_mark fun x hx hxid _ => ?_
      have hrolled := h.closed r htail (.inr hv) x hx (by rw [hsource, hxid])
      rw [hrolled]
    · -- `r` is the newest receipt and was the last to be closed
      have hnewest : ∃ rest, J.entries = r :: rest := by
        cases hentries : J.entries with
        | nil =>
          rw [hentries] at hr
          cases hr
        | cons a rest =>
          rw [hentries] at hr htail
          rcases List.mem_cons.mp hr with rfl | hold
          · exact ⟨rest, rfl⟩
          · exact absurd hold htail
      obtain ⟨rest, hentries⟩ := hnewest
      have hrest := hJ.tail
      rw [hentries] at hrest
      have happlied : ∀ x ∈ (J.mark source .ROLLED_BACK).entries, x.tx_state ≠ .APPLIED := by
        intro x hx hstate
        obtain ⟨y, hy, ⟨_, rfl⟩ | ⟨_, rfl⟩⟩ := mem_mark.mp hx
        · cases hstate
        · rw [hentries] at hy
          rcases List.mem_cons.mp hy with rfl | hold
          · rw [hv] at hstate
            cases hstate
          · have hcomplete := hrest x hold
            rw [hstate] at hcomplete
            cases hcomplete
      have hall : (J.mark source .ROLLED_BACK).Closed := by
        intro a ha hstate x hx hax
        obtain ⟨y, hy, ⟨_, rfl⟩ | ⟨_, rfl⟩⟩ := mem_mark.mp ha
        · rcases hstate with hstate | hstate <;> cases hstate
        · obtain ⟨z, hz, ⟨_, rfl⟩ | ⟨hne, rfl⟩⟩ := mem_mark.mp hx
          · rfl
          · rw [hentries] at hy
            rcases List.mem_cons.mp hy with rfl | hold
            · rw [hsource] at hax
              exact absurd (Option.some.inj hax).symm hne
            · exact h.closed a (by rw [hentries]; exact hold) hstate x hz hax
      obtain ⟨digest, hlinked, _⟩ := hJ'.linked
      rw [hall.standing_eq happlied] at hlinked
      exact ⟨digest, hlinked⟩

/-- An intent that was found unapplied makes way for a rollback. -/
theorem Orderly.supersede {e : Entry Bytes} (h : J.Orderly) (hJ : J.Chained p)
    (he : e ∈ J.entries) (hstate : e.tx_state = .RECOVERED_UNAPPLIED) :
    (J.mark e.receipt_id .SUPERSEDED).Orderly := by
  refine ⟨fun r hr hs x hx hsource => ?_, fun x hx hs => ?_, ?_⟩
  · obtain ⟨y, hy, ⟨_, rfl⟩ | ⟨_, rfl⟩⟩ := mem_tail_mark hr
    · rcases hs with hs | hs <;> cases hs
    · obtain ⟨z, hz, ⟨hid, rfl⟩ | ⟨_, rfl⟩⟩ := mem_mark.mp hx
      · have hrolled := h.closed r hy hs z hz hsource
        rw [hJ.wf.eq_of_id hz he hid, hstate] at hrolled
        cases hrolled
      · exact h.closed r hy hs x hz hsource
  · obtain ⟨y, hy, ⟨_, rfl⟩ | ⟨_, rfl⟩⟩ := mem_mark.mp hx
    · cases hs
    · exact h.applied x hy hs
  · refine h.linked_mark fun x hx hid _ => ?_
    rw [hJ.wf.eq_of_id hx he hid, hstate]
    decide

/-- A new receipt, with all rollbacks closed. -/
theorem Orderly.add {e : Entry Bytes} (h : J.Orderly) (hwf : J.Wf) (hclosed : J.Closed)
    (hfresh : e.receipt_id ∉ J.entries.map Entry.receipt_id) (hstate : e.tx_state = .PREPARED) :
    (J.add e).Orderly := by
  refine ⟨fun r hr hs x hx hsource => ?_, fun x hx hs => ?_, ?_⟩
  · rcases List.mem_cons.mp hx with rfl | hold
    · obtain ⟨z, hz, hid, _⟩ := hwf.source r hr _ hsource
      exact absurd (hid ▸ List.mem_map_of_mem hz) hfresh
    · exact hclosed r hr hs x hold hsource
  · rcases List.mem_cons.mp hx with rfl | hold
    · rw [hstate] at hs
      cases hs
    · exact h.applied x hold hs
  · have hno : (e.kind.isWrite && e.tx_state == .VERIFIED) = false := by
      rw [hstate]
      exact Bool.and_false _
    rw [verified, add_entries, List.filter_cons_of_neg (by rw [hno]; exact Bool.false_ne_true)]
    exact h.linked

/-- The newest receipt of an applied transaction. -/
theorem Orderly.note {e : Entry Bytes} {rest : List (Entry Bytes)} {post : String}
    (h : J.Orderly) (hJ : J.Chained p) (hJ' : (J.update e.receipt_id fun x => x.applied post).Chained p)
    (he : J.entries = e :: rest) (hstate : e.tx_state = .PREPARED)
    (hverified : (e.applied post).settled J.current = .VERIFIED) :
    (J.update e.receipt_id fun x => x.applied post).Orderly := by
  have hentries : (J.update e.receipt_id fun x => x.applied post).entries =
      e.applied post :: rest := update_head he (hJ.fresh he) _
  have hrest : ∀ x ∈ rest, x ∈ J.entries := by
    intro x hx
    rw [he]
    exact List.mem_cons_of_mem _ hx
  have htail := hJ.tail
  have hclosed := h.closed
  rw [he] at htail hclosed
  refine ⟨fun r hr hs x hx hsource => ?_, fun x hx hs => ?_, ?_⟩
  · rw [hentries] at hr hx
    rcases List.mem_cons.mp hx with rfl | hold
    · rcases hJ'.sources r (by rw [hentries]; exact List.mem_cons_of_mem _ hr) _
        (by rw [hentries]; exact List.mem_cons_self) hsource with hs' | hs' <;>
        rw [Entry.applied_tx_state] at hs' <;> cases hs'
    · exact hclosed r hr hs x (List.mem_cons_of_mem _ hold) hsource
  · rw [hentries] at hx
    rcases List.mem_cons.mp hx with rfl | hold
    · exact hverified
    · have hcomplete := htail x hold
      rw [hs] at hcomplete
      cases hcomplete
  · have hold : J.verified = rest.filter fun x => x.kind.isWrite && x.tx_state == .VERIFIED := by
      have hno : (e.kind.isWrite && e.tx_state == .VERIFIED) = false := by
        rw [hstate]
        exact Bool.and_false _
      rw [verified, he, List.filter_cons_of_neg (by rw [hno]; exact Bool.false_ne_true)]
    have hnew : (J.update e.receipt_id fun x => x.applied post).verified = J.verified := by
      have hno : ((e.applied post).kind.isWrite && (e.applied post).tx_state == .VERIFIED) = false := by
        rw [Entry.applied_tx_state]
        exact Bool.and_false _
      rw [verified, hentries, List.filter_cons_of_neg (by rw [hno]; exact Bool.false_ne_true), hold]
    rw [hnew]
    exact h.linked

/-- A change of the target under a prepared receipt. -/
theorem Orderly.change {e : Entry Bytes} {rest : List (Entry Bytes)} (h : J.Orderly)
    (hJ : J.Chained p) (he : J.entries = e :: rest) (hstate : e.tx_state = .PREPARED)
    (after : Option Bytes) (id : Option String) : (J.change i t after id).Orderly := by
  refine ⟨h.closed, fun x hx hs => ?_, h.linked⟩
  have htail := hJ.tail
  rw [change_entries, he] at hx
  rw [he] at htail
  rcases List.mem_cons.mp hx with rfl | hold
  · rw [hstate] at hs
    cases hs
  · have hcomplete := htail x hold
    rw [hs] at hcomplete
    cases hcomplete

end Journal

section Step

variable (hopen : ∀ q, l = .prepare q ∨ l = .intend q → q = p ∧ J.Closed)
include hopen

/-- Every step keeps the chain of VERIFIED receipts. -/
theorem Step.orderly (h : Step i t l J J') (hJ : J.Chained p) (hO : J.Orderly) : J'.Orderly := by
  have hJ' := h.chained hopen hJ
  cases h with
  | settle he hp => exact hO.settle hJ hJ' he hp (Entry.settled_complete _ _)
  | finalize hr hs hv => exact hO.close hJ hJ' hr hs hv
  | audit he _ _ hlost =>
    rw [hJ.intact _ he] at hlost
    cases hlost
  | prepare hfresh _ hstate => exact hO.add hJ.wf (hopen _ (.inl rfl)).2 hfresh hstate
  | install he _ hstate => exact hO.change hJ he hstate _ _
  | @note _ e rest _ _ content he hw hstate _ _ ht =>
    refine hO.note hJ hJ' he hstate ?_
    have hok := hJ.intact e (by rw [he]; exact List.mem_cons_self)
    cases hk : e.kind with
    | rollback =>
      rw [hk] at hw
      cases hw
    | write prev pre post backup =>
      have hkind : (e.applied (sha256_bytes content)).kind =
          .write prev pre (some (sha256_bytes content)) backup := by rw [e.applied_write hk]
      rw [Entry.settled_write_of_applied hkind (Entry.applied_tx_state _ _),
        Entry.applied_backup_ok, hok, Journal.current, ht]
      simp
  | verify he hw hstate =>
    exact hO.settle hJ hJ' (by rw [he]; exact List.mem_cons_self) (by rw [hstate]; rfl) rfl
  | overtake he hw hstate =>
    exact hO.settle hJ hJ' he (by rw [hstate]; rfl) (Entry.overtaken_complete _ _)
  | supersede he hw hstate => exact hO.supersede hJ he hstate
  | intend hfresh _ hstate => exact hO.add hJ.wf (hopen _ (.inr rfl)).2 hfresh hstate
  | restore hr _ _ hstate => exact hO.change hJ hr hstate _ _
  | @restored _ r s rest expected hr hs hkind hstate =>
    refine hO.note hJ hJ' hr hstate ?_
    have hkind' : (r.applied J.restoredText).kind =
        .rollback s.receipt_id expected (some J.restoredText) := by rw [r.applied_rollback hkind]
    rw [Entry.settled_rollback_of_applied hkind' (Entry.applied_tx_state _ _), Journal.restoredText]
    cases J.current <;> simp
  | confirm hr hkind _ hstate =>
    exact hO.settle hJ hJ' (by rw [hr]; exact List.mem_cons_self) (by rw [hstate]; rfl) rfl
  | close hr hs hstate => exact hO.close hJ hJ' (by rw [hr]; exact List.mem_cons_self) hs hstate
  | abandon hr hs _ _ hlost =>
    rw [hJ.intact _ (by rw [hr]; exact List.mem_cons_of_mem _ hs)] at hlost
    cases hlost

end Step

namespace Journal

/-- The shape of a journal: one pending receipt at most, and the VERIFIED writes,
listed from the one applied last, each continue the next. -/
structure Shaped (J : Journal Bytes) : Prop where
  pending : ∀ a ∈ J.entries, ∀ b ∈ J.entries, a.tx_state.incomplete = true →
    b.tx_state.incomplete = true → a = b
  order : (J.verified.map Entry.receipt_id).Sublist J.installed
  chain : J.verified.IsChain fun later earlier =>
    later.kind.prev = some earlier.receipt_id ∧ later.kind.pre = earlier.kind.post
  last : ∀ v ∈ J.verified.head?, ∀ x ∈ J.entries, x.tx_state = .APPLIED ∨ x.tx_state = .VERIFIED →
    x.kind.prev = some v.receipt_id → x.tx_state = .APPLIED ∧ x.kind.isWrite = true ∧
      x.kind.pre = v.kind.post

end Journal

omit [Text] [Host Bytes] in
theorem Linked.isChain {list : List (Entry Bytes)} {digest : Option String}
    (h : Linked list digest) : list.IsChain fun later earlier =>
      later.kind.prev = some earlier.receipt_id ∧ later.kind.pre = earlier.kind.post := by
  induction list generalizing digest with
  | nil => exact .nil
  | cons v rest ih =>
    obtain ⟨_, _, hprev, hrest⟩ := h
    cases rest with
    | nil => exact .singleton v
    | cons u rest =>
      refine .cons_cons ⟨hprev u rfl, hrest.1.symm⟩ (ih hrest)

omit [Text] [Host Bytes] in
/-- Of two selections of a list without repetitions, the one contained in the
other is a selection of it. -/
theorem sublist_of_subset {α : Type} [DecidableEq α] {a b list : List α} (hnodup : list.Nodup)
    (ha : a.Sublist list) (hb : b.Sublist list) (hsub : ∀ x ∈ a, x ∈ b) : a.Sublist b := by
  have hfilter : (b.filter fun x => x ∈ a).Sublist b := List.filter_sublist
  have hperm : a.Perm (b.filter fun x => x ∈ a) := by
    refine (List.perm_ext_iff_of_nodup (ha.nodup hnodup) (hfilter.nodup (hb.nodup hnodup))).mpr
      fun x => ?_
    simp only [List.mem_filter, decide_eq_true_eq]
    exact ⟨fun hx => ⟨hsub x hx, hx⟩, fun hx => hx.2⟩
  rw [(hnodup.perm_iff_eq_of_sublist ha (hfilter.trans hb)).mp hperm]
  exact hfilter

theorem Journal.shaped (hJ : J.Chained p) (hO : J.Orderly) (htraced : J.Traced) : J.Shaped := by
  have hpending : ∀ a ∈ J.entries, ∀ b ∈ J.entries, a.tx_state.incomplete = true →
      b.tx_state.incomplete = true → a = b := by
    intro a ha b hb hpa hpb
    obtain ⟨rest, hentries⟩ := hJ.newest ha hpa
    obtain ⟨rest', hentries'⟩ := hJ.newest hb hpb
    rw [hentries] at hentries'
    exact (List.cons.inj hentries').1
  obtain ⟨digest, hlinked⟩ := hO.linked
  refine ⟨hpending, ?_, hlinked.isChain, ?_⟩
  · refine sublist_of_subset hJ.wf.nodup (List.filter_sublist.map _) htraced.order fun id hid => ?_
    obtain ⟨e, he, rfl⟩ := List.mem_map.mp hid
    obtain ⟨heJ, hw, hv⟩ := Journal.mem_verified.mp he
    exact htraced.posted e heJ hw (htraced.standing e heJ hw (.inr hv))
  · intro v hv x hx hstate hprev
    obtain ⟨tail, hverified⟩ : ∃ tail, J.verified = v :: tail := by
      cases hlist : J.verified with
      | nil =>
        rw [hlist] at hv
        cases hv
      | cons a tail =>
        rw [hlist] at hv
        cases hv
        exact ⟨tail, rfl⟩
    have hw : x.kind.isWrite = true := by
      cases hk : x.kind with
      | write => rfl
      | rollback =>
        rw [hk] at hprev
        cases hprev
    rcases hstate with hs | hs
    · refine ⟨hs, hw, ?_⟩
      obtain ⟨rest, hentries⟩ := hJ.newest hx (by rw [hs]; rfl)
      have hclosed := hO.closed_of_write hentries hw
      have hstands := hclosed.stands hx hw (hO.applied x hx hs)
      have hrest := hJ.tail
      rw [hentries] at hrest
      have hstanding := hclosed.standing_applied hentries hs hstands hrest
      obtain ⟨found, hchain, _⟩ := hJ.linked
      rw [hstanding, hverified] at hchain
      exact hchain.2.2.2.1.symm
    · have hmem : x ∈ J.verified := Journal.mem_verified.mpr ⟨hx, hw, hs⟩
      rw [hverified] at hmem
      exact absurd hprev (hJ.older.unpointed_of_filter hJ.wf.nodup hverified hmem)

end jvc.recovery
