import Jvc.Recovery.Deciding
import Jvc.Recovery.Trace
import Jvc.Recovery.Undoing

namespace jvc.recovery

variable {Bytes : Type} [Text] [Host Bytes] {i : Pid} {t : Path} {p : ProjectId}
  {J J' : Journal Bytes}

/-- The digest the target has while a transaction has not touched it. -/
def Kind.expects : Kind Bytes → Option String
  | .write _ pre _ _ => pre
  | .rollback _ expected _ => some expected

/-- Each receipt points at an older one. -/
def Older : List (Entry Bytes) → Prop
  | [] => True
  | e :: rest =>
    (∀ id, e.kind.prev = some id → id ∈ rest.map Entry.receipt_id) ∧ Older rest

/-- Writes that follow one upon another, the newest of which left content with
the given digest. -/
def Linked : List (Entry Bytes) → Option String → Prop
  | [], _ => True
  | v :: rest, digest =>
    v.kind.post = digest ∧ digest.isSome = true ∧
      (∀ u ∈ rest.head?, v.kind.prev = some u.receipt_id) ∧ Linked rest v.kind.pre

namespace Journal

/-- A rollback of the write has gone through, once the receipts are settled. -/
def reverted (J : Journal Bytes) (id : String) : Bool :=
  J.entries.any fun r => r.kind.source == some id && r.settled J.current == .VERIFIED

/-- The write is VERIFIED once the receipts are settled. -/
def stands (J : Journal Bytes) (e : Entry Bytes) : Bool :=
  e.kind.isWrite && e.settled J.current == .VERIFIED && !J.reverted e.receipt_id

def standing (J : Journal Bytes) : List (Entry Bytes) := J.entries.filter J.stands

/-- The lineage of a target in one project: at any time, also within a call, the
standing writes form one chain, and its newest end is the content of the target
unless the journal blocks. -/
structure Chained (p : ProjectId) (J : Journal Bytes) : Prop where
  wf : J.Wf
  project : ∀ e ∈ J.entries, e.project_id = p
  older : Older J.entries
  tail : ∀ e ∈ J.entries.tail, e.tx_state.incomplete = false
  intact : ∀ e ∈ J.entries, e.backup_ok = true
  sources : ∀ r ∈ J.entries, ∀ s ∈ J.entries, r.kind.source = some s.receipt_id →
    s.tx_state = .VERIFIED ∨ s.tx_state = .ROLLED_BACK
  linked : ∃ digest, Linked J.standing digest ∧ (J.Resolvable p.text → digest = J.current) ∧
    (¬ J.Resolvable p.text → J.standing = [] ∨ digest ≠ J.current)
  prepared : ∀ e rest, J.entries = e :: rest → e.tx_state = .PREPARED →
    Linked J.standing e.kind.expects ∧ (∀ x ∈ rest, x.tx_state ≠ .RECOVERY_REQUIRED) ∧
      (e.kind.isWrite = true → ∀ v ∈ J.standing.head?, e.kind.prev = some v.receipt_id) ∧
        ∀ id, e.kind.source = some id → ∃ v ∈ J.standing.head?, v.receipt_id = id

/-- Every finished rollback has closed its source. -/
def Closed (J : Journal Bytes) : Prop :=
  ∀ r ∈ J.entries, r.tx_state = .APPLIED ∨ r.tx_state = .VERIFIED →
    ∀ s ∈ J.entries, r.kind.source = some s.receipt_id → s.tx_state = .ROLLED_BACK

end Journal

omit [Text] [Host Bytes] in
theorem Kind.isWrite_of_source {k : Kind Bytes} {id : String} (h : k.source = some id) :
    k.isWrite = false := by
  cases k with
  | write => cases h
  | rollback => rfl

omit [Text] [Host Bytes] in
theorem Older.map {l : List (Entry Bytes)} {f : Entry Bytes → Entry Bytes} (h : Older l)
    (hid : ∀ e, (f e).receipt_id = e.receipt_id) (hprev : ∀ e, (f e).kind.prev = e.kind.prev) :
    Older (l.map f) := by
  induction l with
  | nil => trivial
  | cons e rest ih =>
    refine ⟨fun id hpointer => ?_, ih h.2⟩
    rw [hprev] at hpointer
    have hids : (rest.map f).map Entry.receipt_id = rest.map Entry.receipt_id := by
      rw [List.map_map]
      exact List.map_congr_left fun x _ => hid x
    rw [hids]
    exact h.1 id hpointer

omit [Text] [Host Bytes] in
theorem Older.mem {l : List (Entry Bytes)} (h : Older l) {e : Entry Bytes} (he : e ∈ l)
    {id : String} (hprev : e.kind.prev = some id) : id ∈ l.map Entry.receipt_id := by
  induction l with
  | nil => cases he
  | cons x rest ih =>
    rw [List.map_cons]
    rcases List.mem_cons.mp he with rfl | he
    · exact List.mem_cons_of_mem _ (h.1 id hprev)
    · exact List.mem_cons_of_mem _ (ih h.2 he)

omit [Text] [Host Bytes] in
theorem Older.right {l l' : List (Entry Bytes)} (h : Older (l ++ l')) : Older l' := by
  induction l with
  | nil => exact h
  | cons x rest ih => exact ih h.2

omit [Text] [Host Bytes] in
theorem Linked.map {l : List (Entry Bytes)} {digest : Option String}
    {f : Entry Bytes → Entry Bytes} (h : Linked l digest)
    (hid : ∀ e, (f e).receipt_id = e.receipt_id) (hkind : ∀ e, (f e).kind = e.kind) :
    Linked (l.map f) digest := by
  induction l generalizing digest with
  | nil => trivial
  | cons v rest ih =>
    obtain ⟨hpost, hsome, hprev, hrest⟩ := h
    refine ⟨by rw [hkind, hpost], hsome, fun u hu => ?_, ?_⟩
    · rw [List.head?_map] at hu
      obtain ⟨u', hu', rfl⟩ := Option.map_eq_some_iff.mp hu
      rw [hkind, hid]
      exact hprev u' hu'
    · rw [hkind]
      exact ih hrest

omit [Text] [Host Bytes] in
/-- Every write of the chain but the newest has a successor pointing at it. -/
theorem Linked.pointed {v e : Entry Bytes} {rest : List (Entry Bytes)} {digest : Option String}
    (h : Linked (v :: rest) digest) (he : e ∈ rest) :
    ∃ x ∈ v :: rest, x.kind.prev = some e.receipt_id := by
  induction rest generalizing v digest with
  | nil => cases he
  | cons u rest ih =>
    obtain ⟨_, _, hprev, hrest⟩ := h
    rcases List.mem_cons.mp he with rfl | he
    · exact ⟨v, List.mem_cons_self, hprev e rfl⟩
    · obtain ⟨x, hx, hpoints⟩ := ih hrest he
      exact ⟨x, List.mem_cons_of_mem _ hx, hpoints⟩

/-- Only what is applied or VERIFIED is found VERIFIED. -/
theorem Entry.state_of_settled_verified {e : Entry Bytes} {current : Option String}
    (h : e.settled current = .VERIFIED) : e.tx_state = .APPLIED ∨ e.tx_state = .VERIFIED := by
  cases hs : e.tx_state with
  | PREPARED =>
    cases hk : e.kind with
    | write =>
      rw [e.settled_write_of_prepared hk hs] at h
      split at h <;> cases h
    | rollback =>
      rw [e.settled_rollback_of_prepared hk hs] at h
      split at h <;> cases h
  | APPLIED => exact .inl rfl
  | _ =>
    rw [Entry.settled_of_complete (by rw [hs]; rfl), hs] at h
    first | exact .inr rfl | cases h

namespace Journal

theorem mem_standing {e : Entry Bytes} : e ∈ J.standing ↔
    e ∈ J.entries ∧ e.kind.isWrite = true ∧ e.settled J.current = .VERIFIED ∧
      J.reverted e.receipt_id = false := by
  simp only [standing, stands, List.mem_filter, Bool.and_eq_true, beq_iff_eq, Bool.not_eq_true',
    and_assoc]

theorem reverted_iff {id : String} : J.reverted id = true ↔
    ∃ r ∈ J.entries, r.kind.source = some id ∧ r.settled J.current = .VERIFIED := by
  simp only [reverted, List.any_eq_true, Bool.and_eq_true, beq_iff_eq]

/-- With all rollbacks closed, what has become VERIFIED stands. -/
theorem Closed.stands (h : J.Closed) {e : Entry Bytes} (he : e ∈ J.entries)
    (hw : e.kind.isWrite = true) (hs : e.settled J.current = .VERIFIED) : e ∈ J.standing := by
  refine mem_standing.mpr ⟨he, hw, hs, ?_⟩
  rw [Bool.eq_false_iff]
  intro hrev
  obtain ⟨r, hr, hsource, hv⟩ := reverted_iff.mp hrev
  have hrolled := h r hr (Entry.state_of_settled_verified hv) e he hsource
  rw [Entry.settled_of_complete (by rw [hrolled]; rfl), hrolled] at hs
  cases hs

/-- Receipts marked without changing what stands. -/
theorem standing_mark {id : String} {s : TxState}
    (h : ∀ x ∈ J.entries, (J.mark id s).stands (if x.receipt_id = id then x.mark s else x) =
      J.stands x) :
    (J.mark id s).standing =
      J.standing.map fun x => if x.receipt_id = id then x.mark s else x := by
  have hentries : (J.mark id s).entries =
      J.entries.map fun x => if x.receipt_id = id then x.mark s else x := rfl
  rw [standing, standing, hentries, List.filter_map]
  congr 1
  exact List.filter_congr fun x hx => h x hx

/-- A receipt marked as it counts already, or the closed source of a rollback. -/
structure Counts (J : Journal Bytes) (id : String) (s : TxState) : Prop where
  complete : s.incomplete = false
  verified : ∀ x ∈ J.entries, x.receipt_id = id →
    x.kind.isWrite = true ∧ J.reverted id = true ∧ s ≠ .VERIFIED ∨
      (s = .VERIFIED ↔ x.settled J.current = .VERIFIED)
  required : ∀ x ∈ J.entries, x.receipt_id = id →
    (s = .RECOVERY_REQUIRED ↔ x.settled J.current = .RECOVERY_REQUIRED)

theorem Counts.settled {id : String} {s : TxState} (h : J.Counts id s) (x : Entry Bytes) :
    (x.mark s).settled J.current = s := Entry.settled_of_complete h.complete _

theorem Counts.reverted {id : String} {s : TxState} (h : J.Counts id s) (a : String) :
    (J.mark id s).reverted a = J.reverted a := by
  have hentries : (J.mark id s).entries =
      J.entries.map fun x => if x.receipt_id = id then x.mark s else x := rfl
  simp only [Journal.reverted, hentries, List.any_map]
  rw [Bool.eq_iff_iff, List.any_eq_true, List.any_eq_true]
  refine exists_congr fun x => and_congr_right fun hx => ?_
  rw [← Bool.eq_iff_iff]
  simp only [Function.comp_apply]
  split
  · rename_i hid
    rw [Entry.mark_kind]
    by_cases hsrc : x.kind.source = some a
    · rcases h.verified x hx hid with ⟨hw, _⟩ | hiff
      · rw [Kind.isWrite_of_source hsrc] at hw
        cases hw
      · have hsame : (s == .VERIFIED) = (x.settled J.current == .VERIFIED) := by
          rw [Bool.eq_iff_iff, beq_iff_eq, beq_iff_eq]
          exact hiff
        change (_ && (x.mark s).settled J.current == .VERIFIED) = _
        rw [h.settled, hsame]
    · have hno : (x.kind.source == some a) = false := by simpa using hsrc
      rw [hno, Bool.false_and, Bool.false_and]
  · rfl

/-- What stands does not change. -/
theorem Counts.standing {id : String} {s : TxState} (h : J.Counts id s) : (J.mark id s).standing =
    J.standing.map fun x => if x.receipt_id = id then x.mark s else x := by
  refine standing_mark fun x hx => ?_
  simp only [stands, h.reverted]
  split
  · rename_i hid
    rw [Entry.mark_kind, Entry.mark_receipt_id]
    change (_ && (x.mark s).settled J.current == .VERIFIED && _) = _
    rw [h.settled]
    rcases h.verified x hx hid with ⟨_, hr, _⟩ | hiff
    · rw [hid, hr]
      simp
    · have hsame : (s == .VERIFIED) = (x.settled J.current == .VERIFIED) := by
        rw [Bool.eq_iff_iff, beq_iff_eq, beq_iff_eq]
        exact hiff
      rw [hsame]
  · rfl

theorem Counts.resolvable {id project_id : String} {s : TxState} (h : J.Counts id s) :
    (J.mark id s).Resolvable project_id ↔ J.Resolvable project_id := by
  constructor
  · intro hr x hx hproject hreq
    refine hr _ (List.mem_map_of_mem hx) (by split <;> exact hproject) ?_
    split
    · rename_i hxid
      change (x.mark s).settled J.current = _
      rw [h.settled]
      exact (h.required x hx hxid).mpr hreq
    · exact hreq
  · intro hr x hx hproject hreq
    obtain ⟨y, hy, ⟨hyid, rfl⟩ | ⟨_, rfl⟩⟩ := mem_mark.mp hx
    · refine hr y hy hproject ((h.required y hy hyid).mp ?_)
      change (y.mark s).settled J.current = _ at hreq
      rwa [h.settled] at hreq
    · exact hr x hy hproject hreq

theorem Chained.mark {id : String} {s : TxState} (h : J.Chained p) (hcounts : J.Counts id s)
    (hsource : ∀ r ∈ J.entries, r.kind.source = some id → s = .VERIFIED ∨ s = .ROLLED_BACK) :
    (J.mark id s).Chained p := by
  have hs := hcounts.complete
  have hsettled := hcounts.settled
  have hstanding := hcounts.standing
  have hid : ∀ x : Entry Bytes, (if x.receipt_id = id then x.mark s else x).receipt_id =
      x.receipt_id := by
    intro x
    split <;> rfl
  have hkind : ∀ x : Entry Bytes, (if x.receipt_id = id then x.mark s else x).kind = x.kind := by
    intro x
    split <;> rfl
  have hlinked : ∀ digest, Linked J.standing digest → Linked (J.mark id s).standing digest := by
    intro digest hd
    rw [hstanding]
    exact hd.map hid hkind
  have hres : (J.mark id s).Resolvable p.text ↔ J.Resolvable p.text := hcounts.resolvable
  refine ⟨h.wf.mark id s, ?_, h.older.map hid fun x => by rw [hkind], ?_, ?_, ?_, ?_, ?_⟩
  · intro x hx
    obtain ⟨y, hy, ⟨_, rfl⟩ | ⟨_, rfl⟩⟩ := mem_mark.mp hx
    · exact h.project y hy
    · exact h.project x hy
  · intro x hx
    change x ∈ (J.entries.map _).tail at hx
    rw [← List.map_tail] at hx
    obtain ⟨y, hy, rfl⟩ := List.mem_map.mp hx
    split
    · exact hs
    · exact h.tail y hy
  · intro x hx
    obtain ⟨y, hy, ⟨_, rfl⟩ | ⟨_, rfl⟩⟩ := mem_mark.mp hx
    · exact h.intact y hy
    · exact h.intact x hy
  · intro r hr x hx hsrc
    obtain ⟨r₀, hr₀, hr⟩ : ∃ r₀ ∈ J.entries, r₀.kind = r.kind := by
      obtain ⟨y, hy, ⟨_, rfl⟩ | ⟨_, rfl⟩⟩ := mem_mark.mp hr
      · exact ⟨y, hy, rfl⟩
      · exact ⟨r, hy, rfl⟩
    rw [← hr] at hsrc
    obtain ⟨y, hy, ⟨hyid, rfl⟩ | ⟨_, rfl⟩⟩ := mem_mark.mp hx
    · rw [Entry.mark_receipt_id, hyid] at hsrc
      exact hsource r₀ hr₀ hsrc
    · exact h.sources r₀ hr₀ x hy hsrc
  · obtain ⟨digest, hd, hfree, hblocked⟩ := h.linked
    refine ⟨digest, hlinked digest hd, fun hr => hfree (hres.mp hr), fun hr => ?_⟩
    refine (hblocked fun h => hr (hres.mpr h)).imp_left fun hnil => ?_
    rw [hstanding, hnil]
    rfl
  · intro e rest hentries hstate
    cases hJ : J.entries with
    | nil =>
      rw [Journal.mark, Journal.update, hJ] at hentries
      cases hentries
    | cons e₀ rest₀ =>
      simp only [Journal.mark, update, hJ, List.map_cons, List.cons.injEq] at hentries
      obtain ⟨he, hrest⟩ := hentries
      have hne : e₀.receipt_id ≠ id := by
        intro heq
        rw [if_pos heq] at he
        rw [← he, Entry.mark_tx_state] at hstate
        rw [hstate] at hs
        cases hs
      rw [if_neg hne] at he
      subst he
      obtain ⟨hd, hclear, hwrite, hsrc⟩ := h.prepared e₀ rest₀ hJ hstate
      refine ⟨hlinked _ hd, ?_, fun hw v hv => ?_, fun a ha => ?_⟩
      · intro x hx hreq
        rw [← hrest] at hx
        obtain ⟨y, hy, rfl⟩ := List.mem_map.mp hx
        have hyJ : y ∈ J.entries := by
          rw [hJ]
          exact List.mem_cons_of_mem _ hy
        by_cases hyid : y.receipt_id = id
        · rw [if_pos hyid, Entry.mark_tx_state] at hreq
          have hold := (hcounts.required y hyJ hyid).mp hreq
          rw [Entry.settled_of_complete (h.tail y (by rw [hJ]; exact hy))] at hold
          exact hclear y hy hold
        · rw [if_neg hyid] at hreq
          exact hclear y hy hreq
      · rw [hstanding, List.head?_map] at hv
        obtain ⟨v₀, hv₀, rfl⟩ := Option.map_eq_some_iff.mp hv
        rw [hid]
        exact hwrite hw v₀ hv₀
      · obtain ⟨v, hv, hva⟩ := hsrc a ha
        refine ⟨_, ?_, (hid v).trans hva⟩
        rw [hstanding, List.head?_map]
        exact Option.mem_map_of_mem _ hv

end Journal

end jvc.recovery
