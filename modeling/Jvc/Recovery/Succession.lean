import Jvc.Recovery.Sources

namespace jvc.recovery

variable {Bytes : Type} [Text] [Host Bytes] {i : Pid} {t : Path} {p : ProjectId} {l : Label}
  {J J' : Journal Bytes}

/-- Only an applied receipt is found VERIFIED without being so already. -/
theorem Entry.settled_verified_iff {e : Entry Bytes} (h : e.tx_state ≠ .APPLIED)
    (current : Option String) : e.settled current = .VERIFIED ↔ e.tx_state = .VERIFIED := by
  constructor
  · intro hv
    exact (Entry.state_of_settled_verified hv).resolve_left h
  · intro hv
    rw [Entry.settled_of_complete (by rw [hv]; rfl), hv]

/-- A prepared transaction blocks unless the target is as it was. -/
theorem Entry.settled_prepared {e : Entry Bytes} (hs : e.tx_state = .PREPARED)
    (hok : e.backup_ok = true) (current : Option String) :
    e.settled current = .RECOVERY_REQUIRED ↔ current ≠ e.kind.expects := by
  cases hk : e.kind with
  | write prev pre post backup =>
    rw [e.settled_write_of_prepared hk hs, hok, Bool.true_and]
    by_cases h : current = pre
    · simp [h, Kind.expects]
    · simp [h, Kind.expects]
  | rollback source expected restored =>
    rw [e.settled_rollback_of_prepared hk hs]
    by_cases h : current = some expected
    · simp [h, Kind.expects]
    · simp [h, Kind.expects]

/-- A target that holds what a write found, with its backup intact. -/
theorem Entry.current_of_before {s : Entry Bytes} (hok : s.backup_ok = true)
    (ht : J.target = s.kind.before) : J.current = s.kind.pre := by
  rw [Journal.current, ht]
  cases hk : s.kind with
  | rollback => rfl
  | write prev pre post backup =>
    cases pre with
    | none => rfl
    | some pre =>
      simp only [Entry.backup_ok, hk, beq_iff_eq] at hok
      exact hok

omit [Text] [Host Bytes] in
theorem TxState.verified_of_effective {s : TxState} (h : RecoveryStore.effectiveState s = true)
    (hs : s.incomplete = false) : s = .VERIFIED := by
  cases s <;> first | rfl | exact absurd hs (by decide) | exact absurd h (by decide)

omit [Text] [Host Bytes] in
/-- Nothing points at the newest receipt. -/
theorem Older.unpointed {v x : Entry Bytes} {l : List (Entry Bytes)} (h : Older (v :: l))
    (hnodup : ((v :: l).map Entry.receipt_id).Nodup) (hx : x ∈ v :: l) :
    x.kind.prev ≠ some v.receipt_id := by
  intro hprev
  rw [List.map_cons, List.nodup_cons] at hnodup
  rcases List.mem_cons.mp hx with rfl | hx
  · exact hnodup.1 (h.1 _ hprev)
  · exact hnodup.1 (h.2.mem hx hprev)

omit [Text] [Host Bytes] in
/-- Of some receipts, none points at the newest. -/
theorem Older.unpointed_of_filter {v x : Entry Bytes} {l rest : List (Entry Bytes)}
    {f : Entry Bytes → Bool} (h : Older l) (hnodup : (l.map Entry.receipt_id).Nodup)
    (hv : l.filter f = v :: rest) (hx : x ∈ v :: rest) : x.kind.prev ≠ some v.receipt_id := by
  obtain ⟨l₁, l₂, rfl, _, _, hrest⟩ := List.filter_eq_cons_iff.mp hv
  rw [List.map_append, List.nodup_append] at hnodup
  refine h.right.unpointed hnodup.2.1 ?_
  rcases List.mem_cons.mp hx with rfl | hx
  · exact List.mem_cons_self
  · rw [← hrest] at hx
    exact List.mem_cons_of_mem _ (List.mem_of_mem_filter hx)

namespace Journal

theorem Chained.sourced (h : J.Chained p) : J.Sourced := ⟨h.wf, h.intact, h.sources⟩

/-- No receipt is pending or blocks. -/
def Clean (J : Journal Bytes) : Prop :=
  ∀ e ∈ J.entries, e.tx_state.incomplete = false ∧ e.tx_state ≠ .RECOVERY_REQUIRED

omit [Text] [Host Bytes] in
theorem clean_of_settled (hproject : ∀ e ∈ J.entries, e.project_id = p)
    (hsettled : J.Settled p.text) (hfree : J.Unblocked p.text) : J.Clean := by
  intro e he
  have hp : e.project_id.text = p.text := by rw [hproject e he]
  refine ⟨hsettled e he hp, fun hreq => ?_⟩
  have hblocking := hfree e he hp
  rw [hreq] at hblocking
  cases hblocking

theorem Clean.settled (h : J.Clean) {e : Entry Bytes} (he : e ∈ J.entries) :
    e.settled J.current = e.tx_state := Entry.settled_of_complete (h e he).1 _

theorem Clean.resolvable (h : J.Clean) (project_id : String) : J.Resolvable project_id := by
  intro e he _
  rw [h.settled he]
  exact (h e he).2

section Standing

theorem reverted_cons {e : Entry Bytes} {rest : List (Entry Bytes)} (h : J.entries = e :: rest)
    (id : String) : J.reverted id =
      ((e.kind.source == some id && e.settled J.current == .VERIFIED) ||
        rest.any fun r => r.kind.source == some id && r.settled J.current == .VERIFIED) := by
  simp only [reverted, h, List.any_cons]

/-- A receipt that is not found VERIFIED neither stands nor reverts. -/
theorem standing_add {e : Entry Bytes} (h : e.settled J.current ≠ .VERIFIED) :
    (J.add e).standing = J.standing := by
  have hrev : ∀ id, (J.add e).reverted id = J.reverted id := by
    intro id
    have hno : (e.settled J.current == .VERIFIED) = false := by simpa using h
    have hentries : (J.add e).entries = e :: J.entries := rfl
    rw [reverted_cons hentries]
    change ((_ && e.settled J.current == .VERIFIED) || _) = _
    rw [hno, Bool.and_false, Bool.false_or]
    rfl
  have hstands : ∀ x, (J.add e).stands x = J.stands x := by
    intro x
    simp only [stands, hrev]
    rfl
  have he : (J.add e).stands e = false := by
    rw [hstands]
    have hno : (e.settled J.current == .VERIFIED) = false := by simpa using h
    simp only [stands, hno, Bool.and_false, Bool.false_and]
  rw [standing, add_entries, List.filter_cons_of_neg (by rw [he]; exact Bool.false_ne_true)]
  exact List.filter_congr fun x _ => hstands x

/-- What stands does not depend on the target while nothing is applied. -/
theorem standing_change (happlied : ∀ e ∈ J.entries, e.tx_state ≠ .APPLIED) (after : Option Bytes)
    (id : Option String) : (J.change i t after id).standing = J.standing := by
  have hsame : ∀ x ∈ J.entries, (x.settled (J.change i t after id).current == .VERIFIED) =
      (x.settled J.current == .VERIFIED) := by
    intro x hx
    rw [Bool.eq_iff_iff, beq_iff_eq, beq_iff_eq, Entry.settled_verified_iff (happlied x hx),
      Entry.settled_verified_iff (happlied x hx)]
  have hrev : ∀ a, (J.change i t after id).reverted a = J.reverted a := by
    intro a
    simp only [reverted, change_entries]
    rw [Bool.eq_iff_iff, List.any_eq_true, List.any_eq_true]
    refine exists_congr fun x => and_congr_right fun hx => ?_
    rw [hsame x hx]
  simp only [standing, change_entries]
  refine List.filter_congr fun x hx => ?_
  simp only [stands, hrev, hsame x hx]

end Standing

section Head

/-- What stands does not point at its newest write. -/
theorem Chained.unpointed (h : J.Chained p) {v x : Entry Bytes} {rest : List (Entry Bytes)}
    (hv : J.standing = v :: rest) (hx : x ∈ J.standing) : x.kind.prev ≠ some v.receipt_id := by
  rw [hv] at hx
  exact h.older.unpointed_of_filter h.wf.nodup hv hx

/-- With all rollbacks closed and nothing pending, the head is the newest write
that stands. -/
theorem Chained.head_iff (h : J.Chained p) (hclosed : J.Closed) (hsettled : J.Settled p.text)
    {post : String} {e : Entry Bytes} : J.Head p.text post e ↔
      (∃ rest, J.standing = e :: rest) ∧ e.kind.post = some post := by
  have hstate : ∀ x ∈ J.entries, x.settled J.current = x.tx_state := by
    intro x hx
    exact Entry.settled_of_complete (hsettled x hx (by rw [h.project x hx])) _
  constructor
  · rintro ⟨⟨he, _, hw, hv, hpost⟩, hfree⟩
    have hstands := hclosed.stands he hw (by rw [hstate e he, hv])
    refine ⟨?_, hpost⟩
    cases hstanding : J.standing with
    | nil =>
      rw [hstanding] at hstands
      cases hstands
    | cons v rest =>
      rw [hstanding] at hstands
      rcases List.mem_cons.mp hstands with rfl | hold
      · exact ⟨rest, rfl⟩
      · obtain ⟨digest, hlinked, _⟩ := h.linked
        rw [hstanding] at hlinked
        obtain ⟨x, hx, hpoints⟩ := hlinked.pointed hold
        rw [← hstanding] at hx
        obtain ⟨hxJ, _, hxv, _⟩ := mem_standing.mp hx
        rw [hstate x hxJ] at hxv
        exact absurd ⟨x, hxJ, by rw [h.project x hxJ], by rw [hxv]; rfl, hpoints⟩ hfree
  · rintro ⟨⟨rest, hstanding⟩, hpost⟩
    have hmem : e ∈ J.standing := by
      rw [hstanding]
      exact List.mem_cons_self
    obtain ⟨he, hw, hv, _⟩ := mem_standing.mp hmem
    rw [hstate e he] at hv
    refine ⟨⟨he, by rw [h.project e he], hw, hv, hpost⟩, ?_⟩
    rintro ⟨x, hx, _, heffective, hpoints⟩
    have hxw : x.kind.isWrite = true := by
      cases hk : x.kind with
      | write => rfl
      | rollback =>
        rw [hk] at hpoints
        cases hpoints
    have hxv : x.settled J.current = .VERIFIED := by
      have hcomplete := hsettled x hx (by rw [h.project x hx])
      rw [hstate x hx]
      exact TxState.verified_of_effective heffective hcomplete
    exact h.unpointed hstanding (hclosed.stands hx hxw hxv) hpoints

theorem Chained.theHead_iff (h : J.Chained p) (hclosed : J.Closed) (hsettled : J.Settled p.text)
    {post : String} {e : Entry Bytes} : J.TheHead p.text post e ↔
      (∃ rest, J.standing = e :: rest) ∧ e.kind.post = some post := by
  refine ⟨fun hhead => (h.head_iff hclosed hsettled).mp hhead.1, fun hhead => ?_⟩
  refine ⟨(h.head_iff hclosed hsettled).mpr hhead, fun x hx => ?_⟩
  obtain ⟨rest, hstanding⟩ := hhead.1
  obtain ⟨⟨rest', hstanding'⟩, _⟩ := (h.head_iff hclosed hsettled).mp hx
  rw [hstanding] at hstanding'
  cases hstanding'
  rfl

/-- What an unblocked journal has verified last is the content of the target. -/
theorem Chained.linked_current (h : J.Chained p) (hres : J.Resolvable p.text) :
    Linked J.standing J.current := by
  obtain ⟨digest, hlinked, hfree, _⟩ := h.linked
  rw [← hfree hres]
  exact hlinked

/-- A journal whose newest standing write left the present content does not block. -/
theorem Chained.resolvable_of_current (h : J.Chained p) {v : Entry Bytes}
    {rest : List (Entry Bytes)} (hv : J.standing = v :: rest) (hpost : v.kind.post = J.current) :
    J.Resolvable p.text := by
  obtain ⟨digest, hlinked, _, hblocked⟩ := h.linked
  by_contra hno
  rw [hv] at hlinked
  rcases hblocked hno with hnil | hne
  · rw [hv] at hnil
    cases hnil
  · exact hne (hlinked.1.symm.trans hpost)

/-- A new write points at the newest one that stands. -/
theorem Chained.supersedes (h : J.Chained p) (hclosed : J.Closed) (hsettled : J.Settled p.text)
    (hres : J.Resolvable p.text) {prev : Option String} (hprev : J.Supersedes p.text prev) :
    ∀ v ∈ J.standing.head?, prev = some v.receipt_id := by
  intro v hv
  obtain ⟨rest, hstanding⟩ : ∃ rest, J.standing = v :: rest := by
    cases hs : J.standing with
    | nil =>
      rw [hs] at hv
      cases hv
    | cons a rest =>
      rw [hs] at hv
      cases hv
      exact ⟨rest, rfl⟩
  have hlinked := h.linked_current hres
  rw [hstanding] at hlinked
  obtain ⟨hpost, hsome, _⟩ := hlinked
  obtain ⟨pre, hpre⟩ := Option.isSome_iff_exists.mp hsome
  have hhead : J.TheHead p.text pre v :=
    (h.theHead_iff hclosed hsettled).mpr ⟨⟨rest, hstanding⟩, by rw [hpost, hpre]⟩
  simp only [Supersedes, hpre] at hprev
  rcases hprev with ⟨e, he, rfl⟩ | ⟨hno, _⟩
  · rw [he.unique hhead]
  · exact absurd ⟨v, hhead⟩ hno

end Head

section Open

/-- A new receipt that continues the chain. -/
theorem Chained.add {e : Entry Bytes} (h : J.Chained p) (hwf : (J.add e).Wf)
    (hfresh : e.receipt_id ∉ J.entries.map Entry.receipt_id) (hproject : e.project_id = p)
    (hstate : e.tx_state = .PREPARED) (hok : e.backup_ok = true) (hclean : J.Clean)
    (hexpects : e.kind.expects = J.current)
    (holder : ∀ id, e.kind.prev = some id → id ∈ J.entries.map Entry.receipt_id)
    (hprev : e.kind.isWrite = true → ∀ v ∈ J.standing.head?, e.kind.prev = some v.receipt_id)
    (hsource : ∀ id, e.kind.source = some id → ∃ v ∈ J.standing.head?, v.receipt_id = id) :
    (J.add e).Chained p := by
  have hpending : e.settled J.current ≠ .VERIFIED := by
    rw [Ne, Entry.settled_verified_iff (by rw [hstate]; decide), hstate]
    decide
  have hstanding := standing_add hpending
  have hres : (J.add e).Resolvable p.text := by
    intro x hx hp
    rcases List.mem_cons.mp hx with rfl | hx
    · rw [Ne, Entry.settled_prepared hstate hok, hexpects]
      exact fun hne => hne rfl
    · exact hclean.resolvable _ x hx hp
  have hlinked : Linked J.standing J.current := h.linked_current (hclean.resolvable _)
  refine ⟨hwf, ?_, ⟨holder, h.older⟩, fun x hx => (hclean x hx).1, ?_, ?_, ?_, ?_⟩
  · intro x hx
    rcases List.mem_cons.mp hx with rfl | hx
    · exact hproject
    · exact h.project x hx
  · intro x hx
    rcases List.mem_cons.mp hx with rfl | hx
    · exact hok
    · exact h.intact x hx
  · intro r hr s hs hsrc
    rcases List.mem_cons.mp hr with rfl | hold
    · obtain ⟨v, hv, hvid⟩ := hsource _ hsrc
      obtain ⟨hvJ, _, hvv, _⟩ := mem_standing.mp (List.mem_of_mem_head? hv)
      have hsv : s = v := hwf.eq_of_id hs (List.mem_cons_of_mem _ hvJ) hvid.symm
      rw [hsv, ← hclean.settled hvJ]
      exact .inl hvv
    · rcases List.mem_cons.mp hs with rfl | hs
      · obtain ⟨x, hx, hxid, _⟩ := h.wf.source r hold _ hsrc
        exact absurd (hxid ▸ List.mem_map_of_mem hx) hfresh
      · exact h.sources r hold s hs hsrc
  · rw [hstanding]
    exact ⟨J.current, hlinked, fun _ => rfl, fun hno => absurd hres hno⟩
  · intro x rest hx _
    obtain ⟨rfl, rfl⟩ := List.cons.inj hx
    rw [hstanding, hexpects]
    exact ⟨hlinked, fun y hy => (hclean y hy).2, hprev, hsource⟩

/-- A change of the target under a prepared receipt. -/
theorem Chained.change {e : Entry Bytes} {rest : List (Entry Bytes)} (h : J.Chained p)
    (he : J.entries = e :: rest) (hstate : e.tx_state = .PREPARED) (after : Option Bytes)
    (id : Option String) : (J.change i t after id).Chained p := by
  have hmem : e ∈ J.entries := by
    rw [he]
    exact List.mem_cons_self
  have htail : ∀ x ∈ rest, x.tx_state.incomplete = false := by
    have hcomplete := h.tail
    rwa [he] at hcomplete
  have happlied : ∀ x ∈ J.entries, x.tx_state ≠ .APPLIED := by
    intro x hx hs
    rw [he] at hx
    rcases List.mem_cons.mp hx with rfl | hx
    · rw [hstate] at hs
      cases hs
    · have hcomplete := htail x hx
      rw [hs] at hcomplete
      cases hcomplete
  have hstanding := standing_change (i := i) (t := t) happlied after id
  obtain ⟨hlinked, hclear, hprev, hsource⟩ := h.prepared e rest he hstate
  have hres : (J.change i t after id).Resolvable p.text ↔
      (J.change i t after id).current = e.kind.expects := by
    constructor
    · intro hres
      have hsettled := hres e hmem (by rw [h.project e hmem])
      rw [Ne, Entry.settled_prepared hstate (h.intact e hmem), not_not] at hsettled
      exact hsettled
    · intro hcurrent x hx _
      rw [change_entries, he] at hx
      rcases List.mem_cons.mp hx with rfl | hx
      · rw [Ne, Entry.settled_prepared hstate (h.intact x hmem), not_not]
        exact hcurrent
      · rw [Entry.settled_of_complete (htail x hx)]
        exact hclear x hx
  refine ⟨h.wf.change _ _ _ _, h.project, h.older, h.tail, h.intact, h.sources, ?_, ?_⟩
  · rw [hstanding]
    refine ⟨e.kind.expects, hlinked, fun hr => (hres.mp hr).symm, fun hno => .inr fun heq => ?_⟩
    exact hno (hres.mpr heq.symm)
  · intro x rest' hx _
    rw [change_entries, he] at hx
    obtain ⟨rfl, rfl⟩ := List.cons.inj hx
    rw [hstanding]
    exact ⟨hlinked, hclear, hprev, hsource⟩

end Open

section Applied

theorem Chained.fresh {e : Entry Bytes} {rest : List (Entry Bytes)} (h : J.Chained p)
    (he : J.entries = e :: rest) : ∀ x ∈ rest, x.receipt_id ≠ e.receipt_id := by
  have hnodup := h.wf.nodup
  rw [he, List.map_cons, List.nodup_cons] at hnodup
  intro x hx hid
  exact hnodup.1 (hid ▸ List.mem_map_of_mem hx)

/-- A prepared receipt neither stands nor reverts, and no rollback names it. -/
theorem Chained.standing_prepared {e : Entry Bytes} {rest : List (Entry Bytes)} (h : J.Chained p)
    (he : J.entries = e :: rest) (hstate : e.tx_state = .PREPARED) :
    J.standing = rest.filter J.stands ∧ J.reverted e.receipt_id = false ∧
      ∀ id, J.reverted id =
        rest.any fun r => r.kind.source == some id && r.settled J.current == .VERIFIED := by
  have hmem : e ∈ J.entries := by
    rw [he]
    exact List.mem_cons_self
  have hno : (e.settled J.current == .VERIFIED) = false := by
    have hiff := Entry.settled_verified_iff (e := e) (by rw [hstate]; decide) J.current
    rw [hstate] at hiff
    simpa using hiff
  refine ⟨?_, ?_, fun id => ?_⟩
  · rw [standing, he, List.filter_cons_of_neg]
    simp only [stands, hno, Bool.and_false, Bool.false_and]
    exact Bool.false_ne_true
  · rw [Bool.eq_false_iff]
    intro hrev
    obtain ⟨r, hr, hsource, _⟩ := reverted_iff.mp hrev
    rcases h.sources r hr e hmem hsource with hs | hs <;> rw [hstate] at hs <;> cases hs
  · rw [reverted_cons he, hno, Bool.and_false, Bool.false_or]

/-- The receipt of a transaction that has been applied. -/
theorem Chained.applied {e : Entry Bytes} {rest : List (Entry Bytes)} {post : String}
    (h : J.Chained p) (he : J.entries = e :: rest) (hstate : e.tx_state = .PREPARED)
    (hverified : (e.applied post).settled J.current = .VERIFIED)
    (hlinked : Linked (J.update e.receipt_id fun x => x.applied post).standing J.current) :
    (J.update e.receipt_id fun x => x.applied post).Chained p := by
  have hmem : e ∈ J.entries := by
    rw [he]
    exact List.mem_cons_self
  have htail : ∀ x ∈ rest, x.tx_state.incomplete = false := by
    have hcomplete := h.tail
    rwa [he] at hcomplete
  have hentries : (J.update e.receipt_id fun x => x.applied post).entries =
      e.applied post :: rest := update_head he (h.fresh he) _
  have hcases : ∀ x ∈ (J.update e.receipt_id fun x => x.applied post).entries,
      x = e.applied post ∨ x ∈ rest := by
    intro x hx
    rw [hentries] at hx
    exact List.mem_cons.mp hx
  have hrest : ∀ x ∈ rest, x ∈ J.entries := by
    intro x hx
    rw [he]
    exact List.mem_cons_of_mem _ hx
  have holder := h.older
  rw [he] at holder
  refine ⟨h.wf.update (keeps_applied _) _, ?_, ?_, ?_, ?_, ?_, ?_, ?_⟩
  · intro x hx
    rcases hcases x hx with rfl | hx
    · rw [Entry.applied_project_id]
      exact h.project e hmem
    · exact h.project x (hrest x hx)
  · rw [hentries]
    refine ⟨fun id hid => ?_, holder.2⟩
    rw [Entry.applied_prev] at hid
    exact holder.1 id hid
  · rw [hentries]
    exact htail
  · intro x hx
    rcases hcases x hx with rfl | hx
    · rw [Entry.applied_backup_ok]
      exact h.intact e hmem
    · exact h.intact x (hrest x hx)
  · intro r hr s hs hsource
    have hr' : ∃ r' ∈ J.entries, r'.kind.source = r.kind.source := by
      rcases hcases r hr with rfl | hold
      · exact ⟨e, hmem, (Entry.applied_source e post).symm⟩
      · exact ⟨r, hrest r hold, rfl⟩
    obtain ⟨r', hr', hsame⟩ := hr'
    rw [← hsame] at hsource
    rcases hcases s hs with rfl | hold
    · rw [Entry.applied_receipt_id] at hsource
      have hnot := h.sources r' hr' e hmem hsource
      rw [hstate] at hnot
      rcases hnot with hnot | hnot <;> cases hnot
    · exact h.sources r' hr' s (hrest s hold) hsource
  · refine ⟨J.current, hlinked, fun _ => rfl, fun hno => (hno ?_).elim⟩
    intro x hx _
    change x.settled J.current ≠ _
    rcases hcases x hx with rfl | hold
    · rw [hverified]
      decide
    · rw [Entry.settled_of_complete (htail x hold)]
      exact (h.prepared e rest he hstate).2.1 x hold
  · intro x rest' hx hs
    rw [hentries] at hx
    obtain ⟨rfl, _⟩ := List.cons.inj hx
    rw [Entry.applied_tx_state] at hs
    cases hs

/-- The write whose replacement is recorded is the newest that stands. -/
theorem Chained.note {e : Entry Bytes} {rest : List (Entry Bytes)} {content : Bytes}
    (h : J.Chained p) (he : J.entries = e :: rest) (hw : e.kind.isWrite = true)
    (hstate : e.tx_state = .PREPARED) (ht : J.target = some content) :
    (J.update e.receipt_id fun x => x.applied (sha256_bytes content)).Chained p := by
  have hmem : e ∈ J.entries := by
    rw [he]
    exact List.mem_cons_self
  obtain ⟨prev, pre, old, backup, hk⟩ : ∃ prev pre old backup,
      e.kind = .write prev pre old backup := by
    cases hk : e.kind with
    | write prev pre old backup => exact ⟨prev, pre, old, backup, rfl⟩
    | rollback =>
      rw [hk] at hw
      cases hw
  obtain ⟨hstanding, hnot, hrev⟩ := h.standing_prepared he hstate
  obtain ⟨hlinked, _, hprev, _⟩ := h.prepared e rest he hstate
  have hcontent : J.current = some (sha256_bytes content) := by rw [Journal.current, ht]; rfl
  have hkind : (e.applied (sha256_bytes content)).kind =
      .write prev pre (some (sha256_bytes content)) backup := by rw [e.applied_write hk]
  have hverified : (e.applied (sha256_bytes content)).settled J.current = .VERIFIED := by
    rw [Entry.settled_write_of_applied hkind (Entry.applied_tx_state _ _), Entry.applied_backup_ok,
      h.intact e hmem, hcontent]
    simp
  refine h.applied he hstate hverified ?_
  generalize hJ' : J.update e.receipt_id (fun x => x.applied (sha256_bytes content)) = J'
  have hentries : J'.entries = e.applied (sha256_bytes content) :: rest := by
    rw [← hJ']
    exact update_head he (h.fresh he) _
  have hcurrent : J'.current = J.current := by rw [← hJ']; rfl
  have hstands : ∀ x, J'.stands x = J.stands x := by
    intro x
    have hno : ((e.applied (sha256_bytes content)).kind.source == some x.receipt_id) = false := by
      rw [hkind]
      rfl
    simp only [stands, hcurrent]
    rw [reverted_cons hentries, hcurrent, hno, Bool.false_and, Bool.false_or, hrev]
  have hnew : J.stands (e.applied (sha256_bytes content)) = true := by
    simp only [stands, hverified, Entry.applied_receipt_id, hnot, Entry.applied_isWrite, hw]
    rfl
  have hsame : J'.standing = e.applied (sha256_bytes content) :: J.standing := by
    rw [standing, hentries, List.filter_cons_of_pos (by rw [hstands]; exact hnew), hstanding]
    congr 1
    exact List.filter_congr fun x _ => hstands x
  rw [hsame, hcontent]
  refine ⟨by rw [hkind]; rfl, rfl, fun v hv => ?_, ?_⟩
  · rw [Entry.applied_prev]
    exact hprev hw v hv
  · rw [hk] at hlinked
    rw [hkind]
    exact hlinked

/-- The rollback whose replacement is recorded takes the newest standing write away. -/
theorem Chained.restored {r s : Entry Bytes} {rest : List (Entry Bytes)} {expected : String}
    (h : J.Chained p) (hr : J.entries = r :: rest) (hs : s ∈ rest)
    (hkind : r.kind = .rollback s.receipt_id expected none) (hstate : r.tx_state = .PREPARED)
    (ht : J.target = s.kind.before) :
    (J.update r.receipt_id fun x => x.applied J.restoredText).Chained p := by
  have hmem : r ∈ J.entries := by
    rw [hr]
    exact List.mem_cons_self
  have hsmem : s ∈ J.entries := by
    rw [hr]
    exact List.mem_cons_of_mem _ hs
  obtain ⟨hstanding, _, hrev⟩ := h.standing_prepared hr hstate
  obtain ⟨hlinked, _, _, hsource⟩ := h.prepared r rest hr hstate
  obtain ⟨v, hv, hvid⟩ := hsource s.receipt_id (by rw [hkind]; rfl)
  have hvs : v = s := h.wf.eq_of_id (mem_standing.mp (List.mem_of_mem_head? hv)).1 hsmem hvid
  subst hvs
  obtain ⟨tail, htail⟩ : ∃ tail, J.standing = v :: tail := by
    cases hst : J.standing with
    | nil =>
      rw [hst] at hv
      cases hv
    | cons a tail =>
      rw [hst] at hv
      cases hv
      exact ⟨tail, rfl⟩
  have hcurrent : J.current = v.kind.pre := v.current_of_before (h.intact v hsmem) ht
  have hkind' : (r.applied J.restoredText).kind =
      .rollback v.receipt_id expected (some J.restoredText) := by rw [r.applied_rollback hkind]
  have hverified : (r.applied J.restoredText).settled J.current = .VERIFIED := by
    rw [Entry.settled_rollback_of_applied hkind' (Entry.applied_tx_state _ _), restoredText]
    cases hc : J.current <;> simp
  refine h.applied hr hstate hverified ?_
  generalize hJ' : J.update r.receipt_id (fun x => x.applied J.restoredText) = J'
  have hentries : J'.entries = r.applied J.restoredText :: rest := by
    rw [← hJ']
    exact update_head hr (h.fresh hr) _
  have hcurrent' : J'.current = J.current := by rw [← hJ']; rfl
  have hstands : ∀ x, J'.stands x = (J.stands x && x.receipt_id != v.receipt_id) := by
    intro x
    have hown : ((r.applied J.restoredText).kind.source == some x.receipt_id) =
        (x.receipt_id == v.receipt_id) := by
      rw [hkind', Bool.eq_iff_iff, beq_iff_eq, beq_iff_eq]
      exact ⟨fun heq => (Option.some.inj heq).symm, fun heq => by rw [heq]; rfl⟩
    have hv' : ((r.applied J.restoredText).settled J.current == .VERIFIED) = true := by
      rw [hverified]
      rfl
    simp only [stands, hcurrent']
    rw [reverted_cons hentries, hcurrent', hown, hv', Bool.and_true, hrev, Bool.not_or]
    rw [bne]
    cases x.receipt_id == v.receipt_id <;>
      simp only [Bool.not_false, Bool.not_true, Bool.true_and, Bool.and_true, Bool.false_and,
        Bool.and_false]
  have hnew : J'.stands (r.applied J.restoredText) = false := by
    have hroll : (r.applied J.restoredText).kind.isWrite = false := by
      rw [hkind']
      rfl
    simp only [stands, hroll, Bool.false_and]
  have hnodup : (J.standing.map Entry.receipt_id).Nodup :=
    h.wf.nodup.sublist (List.filter_sublist.map _)
  have hsame : J'.standing = tail := by
    have hfilter : J'.standing = J.standing.filter fun x => x.receipt_id != v.receipt_id := by
      rw [standing, hentries, List.filter_cons_of_neg (by rw [hnew]; exact Bool.false_ne_true),
        hstanding, List.filter_filter]
      exact List.filter_congr fun x _ => by rw [hstands, Bool.and_comm]
    rw [htail, List.map_cons, List.nodup_cons] at hnodup
    rw [hfilter, htail, List.filter_cons_of_neg (by simp), List.filter_eq_self]
    intro x hx
    rw [bne_iff_ne]
    exact fun hid => hnodup.1 (hid ▸ List.mem_map_of_mem hx)
  rw [hsame, hcurrent]
  rw [htail] at hlinked
  exact hlinked.2.2.2

end Applied

section Marked

/-- A pending receipt that is settled. -/
theorem Chained.settle {e : Entry Bytes} (h : J.Chained p) (he : e ∈ J.entries)
    (hp : e.tx_state.incomplete = true) :
    (J.mark e.receipt_id (e.settled J.current)).Chained p := by
  refine h.mark (h.sourced.counts_settle he) fun r hr hsource => ?_
  rcases h.sources r hr e he hsource with hs | hs <;> rw [hs] at hp <;> cases hp

/-- The source of a finished rollback is closed. -/
theorem Chained.close {r : Entry Bytes} {source : String} (h : J.Chained p) (hr : r ∈ J.entries)
    (hsource : r.kind.source = some source) (hv : r.tx_state = .VERIFIED) :
    (J.mark source .ROLLED_BACK).Chained p :=
  h.mark (h.sourced.counts_close hr hsource hv) fun _ _ _ => .inr rfl

/-- An applied receipt that is found in order. -/
theorem Chained.verify {e : Entry Bytes} (h : J.Chained p) (he : e ∈ J.entries)
    (hstate : e.tx_state = .APPLIED) (hs : e.settled J.current = .VERIFIED) :
    (J.mark e.receipt_id .VERIFIED).Chained p := by
  have hsettled := h.settle he (by rw [hstate]; rfl)
  rwa [hs] at hsettled

end Marked

end Journal

section Step

variable (hopen : ∀ q, l = .prepare q ∨ l = .intend q → q = p ∧ J.Closed)
include hopen

/-- Every step of the operations keeps the chain of what stands. -/
theorem Step.chained (h : Step i t l J J') (hJ : J.Chained p) : J'.Chained p := by
  have hwf := h.wf hJ.wf
  cases h with
  | settle he hp => exact hJ.settle he hp
  | finalize hr hs hv => exact hJ.close hr hs hv
  | audit he _ _ hlost =>
    rw [hJ.intact _ he] at hlost
    cases hlost
  | @prepare _ e prev hfresh hkind hstate hsettled hfree hprev =>
    obtain ⟨hp, hclosed⟩ := hopen e.project_id (.inl rfl)
    rw [hp] at hsettled hfree hprev
    have hclean := Journal.clean_of_settled hJ.project hsettled hfree
    refine hJ.add hwf hfresh hp hstate ?_ hclean ?_ (fun id hid => ?_) (fun _ v hv => ?_)
      fun id hid => ?_
    · rw [Entry.backup_ok, hkind, Journal.current]
      cases J.target <;> simp
    · rw [hkind]
      rfl
    · rw [hkind] at hid
      exact hprev.mem hid
    · rw [hkind]
      exact hJ.supersedes hclosed hsettled (hclean.resolvable _) hprev v hv
    · rw [hkind] at hid
      cases hid
  | install he _ hstate => exact hJ.change he hstate _ _
  | note he hw hstate _ _ ht => exact hJ.note he hw hstate ht
  | @verify _ e rest post he hw hstate hpost hcurrent hok =>
    refine hJ.verify (by rw [he]; exact List.mem_cons_self) hstate ?_
    cases hk : e.kind with
    | rollback =>
      rw [hk] at hw
      cases hw
    | write prev pre found backup =>
      rw [hk] at hpost
      cases hpost
      rw [e.settled_write_of_applied hk hstate, hok, hcurrent]
      simp
  | @overtake _ e he hw hstate =>
    rw [Entry.overtaken_eq_settled hw hstate (hJ.intact e he)]
    exact hJ.settle he (by rw [hstate]; rfl)
  | @supersede _ e he hw hstate =>
    refine hJ.mark (hJ.sourced.counts_supersede he hstate) fun r hr hsource => ?_
    rcases hJ.sources r hr e he hsource with hs | hs <;> rw [hstate] at hs <;> cases hs
  | @intend _ r s post hfresh hkind hstate hcurrent hsettled hhead hclear =>
    obtain ⟨hp, hclosed⟩ := hopen r.project_id (.inr rfl)
    rw [hp] at hsettled hhead
    obtain ⟨⟨rest, hstanding⟩, hpost⟩ := (hJ.theHead_iff hclosed hsettled).mp hhead
    have hres : J.Resolvable p.text := hJ.resolvable_of_current hstanding (by rw [hpost, hcurrent])
    have hclean : J.Clean := by
      intro e he
      have hcomplete := hsettled e he (by rw [hJ.project e he])
      refine ⟨hcomplete, ?_⟩
      rw [← Entry.settled_of_complete hcomplete J.current]
      exact hres e he (by rw [hJ.project e he])
    refine hJ.add hwf hfresh hp hstate ?_ hclean ?_ (fun id hid => ?_) (fun hw => ?_)
      fun id hid => ?_
    · rw [Entry.backup_ok, hkind]
    · rw [hkind, hcurrent]
      rfl
    · rw [hkind] at hid
      cases hid
    · rw [hkind] at hw
      cases hw
    · rw [hkind] at hid
      rw [hstanding]
      exact ⟨s, rfl, Option.some.inj hid⟩
  | restore hr _ _ hstate => exact hJ.change hr hstate _ _
  | restored hr hs hkind hstate _ ht => exact hJ.restored hr hs hkind hstate ht
  | @confirm _ r rest source expected text hr hkind htext hstate =>
    refine hJ.verify (by rw [hr]; exact List.mem_cons_self) hstate ?_
    rw [Entry.settled_rollback_of_applied hkind hstate, ← htext, Journal.restoredText]
    cases J.current <;> simp
  | close hr hs hstate => exact hJ.close (by rw [hr]; exact List.mem_cons_self) hs hstate
  | abandon hr hs _ _ hlost =>
    rw [hJ.intact _ (by rw [hr]; exact List.mem_cons_of_mem _ hs)] at hlost
    cases hlost

end Step

end jvc.recovery
