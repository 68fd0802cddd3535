import Jvc.Recovery.Shape

namespace jvc.recovery

variable {Bytes : Type} [Text] [Host Bytes] {i : Pid} {t : Path} {p : ProjectId} {l : Label}
  {J J' : Journal Bytes}

namespace Journal

/-- Nothing is left of earlier rollbacks: none is pending, and those that are
finished have closed their sources. -/
structure Ready (J : Journal Bytes) : Prop where
  closed : J.Closed
  complete : ∀ r ∈ J.entries, r.kind.isWrite = false → r.tx_state.incomplete = false

/-- The journal of a target of one project; `interrupted` says that a rollback or
a recovery may have been cut off. -/
structure Lineage (p : ProjectId) (interrupted : Bool) (J : Journal Bytes) : Prop where
  chained : J.Chained p
  orderly : J.Orderly
  traced : J.Traced
  ready : interrupted = false → J.Ready

omit [Text] [Host Bytes] in
/-- Receipts of writes rewritten, where a closed one stays closed. -/
theorem Ready.update {id : String} {f : Entry Bytes → Entry Bytes} (h : J.Ready)
    (hf : Keeps f) (hwrite : ∀ x ∈ J.entries, x.receipt_id = id → x.kind.isWrite = true ∧
      (x.tx_state = .ROLLED_BACK → (f x).tx_state = .ROLLED_BACK)) : (J.update id f).Ready := by
  have hroll : ∀ r ∈ (J.update id f).entries, r.kind.isWrite = false → r ∈ J.entries := by
    intro r hr hw
    obtain ⟨y, hy, ⟨hid, rfl⟩ | ⟨_, rfl⟩⟩ := mem_update.mp hr
    · rw [hf.isWrite, (hwrite y hy hid).1] at hw
      cases hw
    · exact hy
  refine ⟨fun r hr hstate s hs hsource => ?_, fun r hr hw => h.complete r (hroll r hr hw) hw⟩
  have hrJ := hroll r hr (Kind.isWrite_of_source hsource)
  obtain ⟨y, hy, ⟨hid, rfl⟩ | ⟨_, rfl⟩⟩ := mem_update.mp hs
  · rw [hf.receipt_id] at hsource
    exact (hwrite y hy hid).2 (h.closed r hrJ hstate y hy hsource)
  · exact h.closed r hrJ hstate s hy hsource

omit [Text] [Host Bytes] in
theorem Ready.mark {e : Entry Bytes} {s : TxState} (h : J.Ready) (hwf : J.Wf) (he : e ∈ J.entries)
    (hw : e.kind.isWrite = true) (hs : e.tx_state = .ROLLED_BACK → s = .ROLLED_BACK) :
    (J.mark e.receipt_id s).Ready := by
  refine h.update (keeps_mark s) fun x hx hid => ?_
  rw [hwf.eq_of_id hx he hid]
  exact ⟨hw, hs⟩

omit [Text] [Host Bytes] in
/-- A pending receipt is a write. -/
theorem Ready.isWrite (h : J.Ready) {e : Entry Bytes} (he : e ∈ J.entries)
    (hp : e.tx_state.incomplete = true) : e.kind.isWrite = true := by
  cases hw : e.kind.isWrite with
  | true => rfl
  | false =>
    rw [h.complete e he hw] at hp
    cases hp

/-- Writes and reconciliation leave no rollback unfinished. -/
theorem Ready.step (h : J.Ready) (hJ : J.Chained p) (hstep : Step i t l J J')
    (hundo : l ≠ .undo) (hintend : ∀ q, l ≠ .intend q) : J'.Ready := by
  cases hstep with
  | @settle _ e he hp =>
    refine h.mark hJ.wf he (h.isWrite he hp) fun hs => ?_
    rw [hs] at hp
    cases hp
  | @finalize _ r source hr hs hv =>
    obtain ⟨x, hx, rfl, hw⟩ := hJ.wf.source r hr source hs
    exact h.mark hJ.wf hx hw fun _ => rfl
  | audit he _ _ hlost =>
    rw [hJ.intact _ he] at hlost
    cases hlost
  | @prepare _ e prev hfresh hkind hstate =>
    have hw : e.kind.isWrite = true := by
      rw [hkind]
      rfl
    refine ⟨fun r hr hs x hx hsource => ?_, fun r hr hroll => ?_⟩
    · have hrJ : r ∈ J.entries := by
        rcases List.mem_cons.mp hr with rfl | hold
        · rw [Kind.isWrite_of_source hsource] at hw
          cases hw
        · exact hold
      rcases List.mem_cons.mp hx with rfl | hold
      · obtain ⟨z, hz, hid, _⟩ := hJ.wf.source r hrJ _ hsource
        exact absurd (hid ▸ List.mem_map_of_mem hz) hfresh
      · exact h.closed r hrJ hs x hold hsource
    · rcases List.mem_cons.mp hr with rfl | hold
      · rw [hroll] at hw
        cases hw
      · exact h.complete r hold hroll
  | install => exact ⟨h.closed, h.complete⟩
  | @note _ e rest _ _ _ he hw hstate =>
    have hmem : e ∈ J.entries := by
      rw [he]
      exact List.mem_cons_self
    refine h.update (keeps_applied _) fun x hx hid => ?_
    rw [hJ.wf.eq_of_id hx hmem hid, hstate]
    exact ⟨hw, fun hs => by cases hs⟩
  | @verify _ e rest post he hw hstate =>
    refine h.mark hJ.wf (by rw [he]; exact List.mem_cons_self) hw fun hs => ?_
    rw [hstate] at hs
    cases hs
  | overtake he hw hstate =>
    refine h.mark hJ.wf he hw fun hs => ?_
    rw [hstate] at hs
    cases hs
  | supersede he hw hstate =>
    refine h.mark hJ.wf he hw fun hs => ?_
    rw [hstate] at hs
    cases hs
  | intend => exact absurd rfl (hintend _)
  | _ => exact absurd rfl hundo

omit [Text] [Host Bytes] in
/-- Recovery that has decided every receipt leaves nothing of earlier rollbacks. -/
theorem Ready.of_decided (h : ∀ x ∈ J.entries, x.Decided J) : J.Ready := by
  refine ⟨fun r hr hstate s hs hsource => ?_, fun r hr _ => (h r hr).complete⟩
  rcases hstate with happlied | hverified
  · have hcomplete := (h r hr).complete
    rw [happlied] at hcomplete
    cases hcomplete
  · exact (h r hr).closed _ hsource hverified s hs rfl

/-- A rollback that went through leaves nothing unfinished. -/
theorem Ready.undone {r s : Entry Bytes} {post : String} (h : J.Ready) (hwf : J.Wf)
    (hint : J.Intends p post r s) : (J.undone i t r s).Ready := by
  have hmarked : (J.mark s.receipt_id .ROLLED_BACK).Ready :=
    h.mark hwf hint.source hint.source_write fun _ => rfl
  have hsource : ∀ text, (r.verified text).kind.source = some s.receipt_id := by
    intro text
    rw [Entry.verified, Entry.mark_kind, Entry.applied_source, hint.kind]
    rfl
  refine ⟨fun a ha hstate x hx hax => ?_, fun a ha hw => ?_⟩
  · have hx' : x ∈ (J.mark s.receipt_id .ROLLED_BACK).entries := by
      rcases List.mem_cons.mp hx with rfl | hold
      · rcases List.mem_cons.mp ha with rfl | hold
        · rw [hsource] at hax
          have hid := (Option.some.inj hax).symm
          rw [Entry.verified, Entry.mark_receipt_id, Entry.applied_receipt_id] at hid
          exact absurd hid.symm (hint.fresh s hint.source)
        · obtain ⟨y, hy, hya⟩ : ∃ y ∈ J.entries, y.kind.source = a.kind.source := by
            obtain ⟨y, hy, ⟨_, rfl⟩ | ⟨_, rfl⟩⟩ := mem_mark.mp hold
            · exact ⟨y, hy, rfl⟩
            · exact ⟨a, hy, rfl⟩
          rw [← hya] at hax
          obtain ⟨z, hz, hid, _⟩ := hwf.source y hy _ hax
          rw [Entry.verified, Entry.mark_receipt_id, Entry.applied_receipt_id] at hid
          exact absurd hid (hint.fresh z hz)
      · exact hold
    rcases List.mem_cons.mp ha with rfl | hold
    · rw [hsource] at hax
      obtain ⟨z, hz, ⟨_, rfl⟩ | ⟨hne, rfl⟩⟩ := mem_mark.mp hx'
      · rfl
      · exact absurd (Option.some.inj hax).symm hne
    · exact hmarked.closed a hold hstate x hx' hax
  · rcases List.mem_cons.mp ha with rfl | hold
    · rfl
    · exact hmarked.complete a hold hw

/-- Every step keeps the lineage of a target; those of a rollback interrupt it. -/
theorem Lineage.step {interrupted : Bool} (h : J.Lineage p interrupted) (hstep : Step i t l J J')
    (hopen : ∀ q, l = .prepare q ∨ l = .intend q → q = p ∧ interrupted = false)
    (hundo : interrupted = false → l ≠ .undo ∧ ∀ q, l ≠ .intend q) : J'.Lineage p interrupted := by
  have hclosed : ∀ q, l = .prepare q ∨ l = .intend q → q = p ∧ J.Closed := fun q hq =>
    ⟨(hopen q hq).1, (h.ready (hopen q hq).2).closed⟩
  refine ⟨hstep.chained hclosed h.chained, hstep.orderly hclosed h.chained h.orderly,
    hstep.traced h.traced, fun hready => ?_⟩
  exact (h.ready hready).step h.chained hstep (hundo hready).1 (hundo hready).2

/-- The intent of a rollback, which interrupts the lineage until it is finished. -/
theorem Lineage.intend (h : J.Lineage p false) (hstep : Step i t (.intend p) J J') :
    J'.Lineage p true := by
  have hclosed : ∀ q, Label.intend p = .prepare q ∨ Label.intend p = .intend q →
      q = p ∧ J.Closed := by
    rintro q (hq | hq)
    · cases hq
    · cases hq
      exact ⟨rfl, (h.ready rfl).closed⟩
  exact ⟨hstep.chained hclosed h.chained, hstep.orderly hclosed h.chained h.orderly,
    hstep.traced h.traced, fun hready => by cases hready⟩

theorem Lineage.weaken {interrupted : Bool} (h : J.Lineage p interrupted) : J.Lineage p true :=
  ⟨h.chained, h.orderly, h.traced, fun hready => by cases hready⟩

theorem Lineage.shaped {interrupted : Bool} (h : J.Lineage p interrupted) : J.Shaped :=
  J.shaped h.chained h.orderly h.traced

/-- The journal of a target before any operation. -/
def start (target : Option Bytes) : Journal Bytes := ⟨[], target, []⟩

theorem lineage_start (p : ProjectId) (target : Option Bytes) :
    (start target).Lineage p false where
  chained := {
    wf := ⟨List.nodup_nil, fun _ h => absurd h List.not_mem_nil⟩
    project := fun _ h => absurd h List.not_mem_nil
    older := trivial
    tail := fun _ h => absurd h List.not_mem_nil
    intact := fun _ h => absurd h List.not_mem_nil
    sources := fun _ h => absurd h List.not_mem_nil
    linked := ⟨(start target).current, trivial, fun _ => rfl, fun _ => .inl rfl⟩
    prepared := fun _ _ h => by cases h }
  orderly := {
    closed := fun _ h => absurd h List.not_mem_nil
    applied := fun _ h => absurd h List.not_mem_nil
    linked := ⟨none, trivial⟩ }
  traced := {
    wf := ⟨List.nodup_nil, fun _ h => absurd h List.not_mem_nil⟩
    order := .slnil
    last := fun _ _ h => by cases h
    preimage := fun _ h => absurd h List.not_mem_nil
    postimage := fun _ h => absurd h List.not_mem_nil
    posted := fun _ h => absurd h List.not_mem_nil
    pending := fun _ h => absurd h List.not_mem_nil
    standing := fun _ h => absurd h List.not_mem_nil }
  ready := fun _ => ⟨fun _ h => absurd h List.not_mem_nil, fun _ h => absurd h List.not_mem_nil⟩

end Journal

end jvc.recovery
