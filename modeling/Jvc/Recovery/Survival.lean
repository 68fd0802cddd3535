import Jvc.Recovery.Report

open program program.Prog

namespace jvc

/-- The world without some of its files. -/
def World.without {Bytes : Type} (w : World Bytes) (gone : List Path) : World Bytes :=
  { w with files := gone.foldr (fun p files => files.erase p) w.files }

theorem World.lookup_without {Bytes : Type} (w : World Bytes) (gone : List Path) (p : Path) :
    (w.without gone).lookup p = if p ∈ gone then none else w.lookup p := by
  induction gone with
  | nil => rfl
  | cons q rest ih =>
    by_cases hp : p = q
    · subst hp
      rw [if_pos List.mem_cons_self]
      exact AList.lookup_erase _ _
    · have hrest : (w.without (q :: rest)).lookup p = (w.without rest).lookup p :=
        AList.lookup_erase_ne hp
      rw [hrest, ih]
      simp [hp]

namespace recovery

variable {Bytes : Type} [Text] [Host Bytes] {store : RecoveryStore} {i : Pid} {w w' v : World Bytes}
  {p q : Path} {gone : List Path} {s : Summary}

omit [Text] [Host Bytes] in
theorem globbed_without {dir front back : String} : (w.without gone).globbed dir front back =
    (w.globbed dir front back).filter fun p => p ∉ gone := by
  have hperm : ((w.without gone).globbed dir front back).Perm
      ((w.globbed dir front back).filter fun p => p ∉ gone) := by
    refine (List.perm_ext_iff_of_nodup (World.globbed_nodup _ _ _ _)
      ((World.globbed_nodup _ _ _ _).filter _)).mpr fun p => ?_
    rw [List.mem_filter, World.mem_globbed, World.mem_globbed, World.lookup_without]
    by_cases hp : p ∈ gone <;> simp [hp]
  exact hperm.eq_of_pairwise' (List.pairwise_insertionSort _ _)
    ((List.pairwise_insertionSort _ _).filter _)

omit [Text] [Host Bytes] in
theorem receiptFiles_without : receiptFiles store (w.without gone) =
    (receiptFiles store w).filter fun p => p ∉ gone := by
  simp only [receiptFiles, globbed_without, List.filter_append]

def Shape.isValid : Shape → Bool
  | .valid _ => true
  | _ => false

/-- The receipt files that hold no schema-valid receipt. -/
def badFiles (store : RecoveryStore) (w : World Bytes) : List Path :=
  (receiptFiles store w).filter fun p => !(Shape.of (w.lookup p)).isValid

/-- Recovery and the journal checks get through. Every bad file is listed for
the operator and counted nowhere else, and the valid receipts end as they would
without the bad files. -/
structure Survives (store : RecoveryStore) (i : Pid) (w : World Bytes) : Prop where
  recovers : ∃ s w' s₀ w₀, (store.recover none).run (machine Bytes) i w = (.ok s, w') ∧
    (store.recover none).run (machine Bytes) i (w.without (badFiles store w)) = (.ok s₀, w₀) ∧
    s.recovered = s₀.recovered ∧ s.verified = s₀.verified ∧ s.deferred = s₀.deferred ∧
    s.recovery_required.Perm (s₀.recovery_required ++
      (badFiles store w).map fun p => (Shape.of (w.lookup p)).label p) ∧
    ∀ p ∈ receiptFiles store w, p ∉ badFiles store w → w'.lookup p = w₀.lookup p
  listed : ∃ names, (store.corrupt_receipt_files : Jvc Bytes _).run (machine Bytes) i w =
    (.ok names, w)
  gate : ∀ project_id target, ∃ blocker,
    (store.has_blocking_state project_id target : Jvc Bytes _).run (machine Bytes) i w =
      (.ok blocker, w)

/-- No receipt file makes reading, parsing or validating raise anything but the
exceptions the scans expect. -/
def Digestible (store : RecoveryStore) (w : World Bytes) : Prop :=
  ∀ p, store.isReceiptFile p = true → (Shape.of (w.lookup p)).Harmless

/-- The decision on the receipt in file `p` would be another one without the given files. -/
def TurnsOn (w : World Bytes) (gone : List Path) (p : Path) : Prop :=
  ∃ r, Shape.of (w.lookup p) = .valid r ∧ verdict (w.without gone) r ≠ verdict w r

instance : Decidable (TurnsOn w gone p) :=
  match hshape : Shape.of (w.lookup p) with
  | .valid r =>
    decidable_of_iff (verdict (w.without gone) r ≠ verdict w r) (by
      constructor
      · exact fun hne => ⟨r, hshape, hne⟩
      · rintro ⟨r', hshape', hne⟩
        rw [hshape] at hshape'
        cases hshape'
        exact hne)
  | .unreadable | .foreign | .invalid _ | .raises _ => .isFalse (by
      rintro ⟨r', hshape', _⟩
      rw [hshape] at hshape'
      cases hshape')

/-- No decision of the scan turns on the given files. -/
def Indifferent (store : RecoveryStore) (i : Pid) (gone files : List Path) (w : World Bytes) :
    Prop :=
  ∀ done p todo, files = done ++ p :: todo → ¬ TurnsOn (scan store i done w) gone p

/-- Two worlds with the same files, but for the bad ones, which the second lacks. -/
structure Without (gone : List Path) (w v : World Bytes) : Prop where
  same : ∀ q, q ∉ gone → v.lookup q = w.lookup q
  absent : ∀ q, q ∈ gone → v.lookup q = none

section Simulation

variable {r : Receipt} {files : List Path}

omit [Text] [Host Bytes] in
theorem Without.refl (w : World Bytes) : Without gone w (w.without gone) :=
  ⟨fun q hq => by rw [World.lookup_without, if_neg hq],
    fun q hq => by rw [World.lookup_without, if_pos hq]⟩

/-- A decision only depends on what the files hold. -/
theorem Without.verdict (h : Without gone w v) :
    recovery.verdict v r = recovery.verdict (w.without gone) r := by
  have hsame : ∀ q, v.lookup q = (w.without gone).lookup q := by
    intro q
    by_cases hq : q ∈ gone
    · rw [h.absent q hq, (Without.refl w).absent q hq]
    · rw [h.same q hq, (Without.refl w).same q hq]
  unfold recovery.verdict backupHolds unseen refused digest
  simp only [hsame]

theorem Without.rewrite (h : Without gone w v) (hp : p ∉ gone) (state : TxState) :
    Without gone (rewrite i w p r state) (rewrite i v p r state) := by
  refine ⟨fun q hq => ?_, fun q hq => ?_⟩
  · rw [lookup_rewrite, lookup_rewrite, h.same q hq]
  · have hne : q ≠ p := fun heq => hp (heq ▸ hq)
    rw [lookup_rewrite_ne hne, h.absent q hq]

/-- A bad source is closed on one side only, among the bad files. -/
theorem Without.closeSource (h : Without gone w v) (source_id : String) :
    Without gone (closeSource store i w source_id) (closeSource store i v source_id) := by
  unfold recovery.closeSource
  split
  · exact h
  · by_cases hgone : store.source_path source_id ∈ gone
    · rw [h.absent _ hgone]
      split
      · rename_i source _
        refine ⟨fun q hq => ?_, h.absent⟩
        have hne : q ≠ store.source_path source_id := fun heq => hq (heq ▸ hgone)
        rw [lookup_rewrite_ne hne]
        exact h.same q hq
      · exact h
    · rw [h.same _ hgone]
      split
      · exact h.rewrite hgone .ROLLED_BACK
      · exact h

/-- The files that the scan has yet to come to are receipts, but for the bad ones. -/
def Parted (gone : List Path) (w : World Bytes) (q : Path) : Prop :=
  (∃ r, Shape.of (w.lookup q) = .valid r) ↔ q ∉ gone

theorem Parted.step (h : Parted gone w q) (hq : q ≠ p) : Parted gone (scanned store i w p) q := by
  have hchange : (scanned store i w p).lookup q = w.lookup q ∨ _ := lookup_scanned_ne hq
  unfold Parted
  rcases hchange with hsame | ⟨_, source, _, _, _, _, hsource, hnew⟩
  · rw [hsame]
    exact h
  · rw [hnew, Shape.of_receipt]
    exact iff_of_true ⟨_, rfl⟩ (h.mp ⟨source, hsource⟩)

theorem Parted.invalid (h : Parted gone w p) (hp : p ∈ gone) (r : Receipt) :
    Shape.of (w.lookup p) ≠ .valid r :=
  fun hshape => h.mp ⟨r, hshape⟩ hp

/-- The good receipt that both scans come to, and the one decision on it. -/
theorem Without.decision (h : Without gone w v) (hw : Parted gone w p) (hp : p ∉ gone)
    (hsame : ¬ TurnsOn w gone p) : ∃ r, Shape.of (w.lookup p) = .valid r ∧
      Shape.of (v.lookup p) = .valid r ∧ recovery.verdict v r = recovery.verdict w r := by
  obtain ⟨r, hshape⟩ := hw.mpr hp
  refine ⟨r, hshape, by rw [h.same p hp, hshape], ?_⟩
  rw [h.verdict]
  by_contra hne
  exact hsame ⟨r, hshape, hne⟩

theorem Without.scanned_good (h : Without gone w v) (hw : Parted gone w p) (hp : p ∉ gone)
    (hsame : ¬ TurnsOn w gone p) : Without gone (scanned store i w p) (scanned store i v p) := by
  obtain ⟨r, hshape, hshape', hverdict⟩ := h.decision hw hp hsame
  simp only [scanned, hshape, hshape', settle, hverdict]
  split
  · exact h
  · exact h.rewrite hp _
  · exact (h.rewrite hp .VERIFIED).closeSource _

theorem Without.scanned_bad (h : Without gone w v) (hw : Parted gone w p) (hp : p ∈ gone) :
    Without gone (scanned store i w p) v := by
  refine ⟨fun q hq => ?_, h.absent⟩
  have hne : q ≠ p := fun heq => hq (heq ▸ hp)
  unfold scanned
  split
  · rename_i r hshape
    exact absurd hshape (hw.invalid hp r)
  · rw [World.lookup_write, if_neg hne]
    exact h.same q hq
  · exact h.same q hq

theorem Indifferent.head (h : Indifferent store i gone (p :: files) w) : ¬ TurnsOn w gone p :=
  h [] p files rfl

theorem Indifferent.tail (h : Indifferent store i gone (p :: files) w) :
    Indifferent store i gone files (scanned store i w p) :=
  fun done q todo hsplit => h (p :: done) q todo (by rw [hsplit, List.cons_append])

/-- The scan with the bad files and the scan without them stay in step. -/
theorem Without.scan (h : Without gone w v) (hnodup : files.Nodup)
    (hw : ∀ p ∈ files, Parted gone w p) (hsame : Indifferent store i gone files w) :
    Without gone (scan store i files w) (scan store i (files.filter fun p => p ∉ gone) v) := by
  induction files generalizing w v with
  | nil => exact h
  | cons p rest ih =>
    obtain ⟨hnotin, hnodup⟩ := List.nodup_cons.mp hnodup
    have hfirst := hw p List.mem_cons_self
    have hrest : ∀ q ∈ rest, Parted gone (scanned store i w p) q := fun q hq =>
      (hw q (List.mem_cons_of_mem p hq)).step fun heq => hnotin (heq ▸ hq)
    by_cases hp : p ∈ gone
    · have hfilter : (p :: rest).filter (fun q => q ∉ gone) = rest.filter fun q => q ∉ gone :=
        List.filter_cons_of_neg (by simpa using hp)
      rw [hfilter]
      exact ih (h.scanned_bad hfirst hp) hnodup hrest hsame.tail
    · have hfilter : (p :: rest).filter (fun q => q ∉ gone) = p :: rest.filter fun q => q ∉ gone :=
        List.filter_cons_of_pos (by simpa using hp)
      rw [hfilter]
      exact ih (h.scanned_good hfirst hp hsame.head) hnodup hrest hsame.tail

end Simulation

section Tallying

variable {files : List Path} {labels : List String} {s₀ : Summary}

/-- The two summaries, apart from what was reported of the bad files. -/
structure Tallies (labels : List String) (s s₀ : Summary) : Prop where
  recovered : s.recovered = s₀.recovered
  verified : s.verified = s₀.verified
  deferred : s.deferred = s₀.deferred
  required : s.recovery_required.Perm (s₀.recovery_required ++ labels)

theorem Tallies.good (hs : Tallies labels s s₀) (h : Without gone w v) (hw : Parted gone w p)
    (hp : p ∉ gone) (hsame : ¬ TurnsOn w gone p) :
    Tallies labels (report w p s) (report v p s₀) := by
  obtain ⟨r, hshape, hshape', hverdict⟩ := h.decision hw hp hsame
  simp only [report, hshape, hshape', hverdict]
  cases outcome ((recovery.verdict w r).state r) with
  | recovered =>
    exact ⟨by simp only [RecoveryStore.Summary.add, hs.recovered], hs.verified, hs.deferred,
      hs.required⟩
  | verified =>
    exact ⟨hs.recovered, by simp only [RecoveryStore.Summary.add, hs.verified], hs.deferred,
      hs.required⟩
  | required =>
    refine ⟨hs.recovered, hs.verified, hs.deferred, (hs.required.append_right _).trans ?_⟩
    simp only [RecoveryStore.Summary.add, List.append_assoc]
    exact List.perm_append_comm.append_left _

theorem Tallies.bad (hs : Tallies labels s s₀) (hw : Parted gone w p) (hp : p ∈ gone) :
    Tallies (labels ++ [reportName w p]) (report w p s) s₀ := by
  have hreport : report w p s = RecoveryStore.Summary.add s (reportName w p) .required := by
    unfold report
    split
    · rename_i r hshape
      exact absurd hshape (hw.invalid hp r)
    · rfl
  rw [hreport]
  refine ⟨hs.recovered, hs.verified, hs.deferred, ?_⟩
  simp only [RecoveryStore.Summary.add, ← List.append_assoc]
  exact hs.required.append_right _

/-- A scan does not rename the files that it has yet to come to. -/
theorem reportName_scanned (hq : q ≠ p) : reportName (scanned store i w p) q = reportName w q := by
  have hchange : (scanned store i w p).lookup q = w.lookup q ∨ _ := lookup_scanned_ne hq
  unfold reportName
  rcases hchange with hsame | ⟨_, source, _, _, _, _, hsource, hnew⟩
  · rw [hsame]
  · rw [hnew, Shape.of_receipt, hsource]
    rfl

theorem reportName_scan (hq : q ∉ files) : reportName (scan store i files w) q = reportName w q := by
  induction files generalizing w with
  | nil => rfl
  | cons p rest ih =>
    obtain ⟨hne, hrest⟩ := not_or.mp (mt List.mem_cons.mpr hq)
    exact (ih hrest).trans (reportName_scanned hne)

theorem mem_required_summarize {id : String} :
    id ∈ (summarize store i files w s).recovery_required ↔ id ∈ s.recovery_required ∨
      ∃ done p todo, files = done ++ p :: todo ∧ id = reportName (scan store i done w) p ∧
        reported (scan store i done w) p = .required := by
  induction files generalizing w s with
  | nil =>
    refine ⟨.inl, fun h => h.resolve_right ?_⟩
    rintro ⟨done, p, todo, hsplit, -⟩
    exact List.append_ne_nil_of_right_ne_nil done (List.cons_ne_nil p todo) hsplit.symm
  | cons q rest ih =>
    rw [summarize, ih, mem_required_report, or_assoc]
    refine or_congr_right ⟨?_, ?_⟩
    · rintro (⟨hid, hrequired⟩ | ⟨done, p, todo, hsplit, hid, hrequired⟩)
      · exact ⟨[], q, rest, rfl, hid, hrequired⟩
      · exact ⟨q :: done, p, todo, by rw [hsplit, List.cons_append], hid, hrequired⟩
    · rintro ⟨done, p, todo, hsplit, hid, hrequired⟩
      cases done with
      | nil =>
        cases hsplit
        exact .inl ⟨hid, hrequired⟩
      | cons _ done =>
        cases hsplit
        exact .inr ⟨done, p, todo, rfl, hid, hrequired⟩

/-- A file whose name no other file has is listed for the operator if the scan finds it so. -/
theorem required_summarize {done todo : List Path} (hsplit : files = done ++ p :: todo)
    (hnodup : files.Nodup) (hname : ∀ q ∈ files, reportName w q = reportName w p → q = p) :
    reportName w p ∈ (summarize store i files w {}).recovery_required ↔
      reported (scan store i done w) p = .required := by
  have hfresh : ∀ {before q after}, files = before ++ q :: after → q ∉ before ∧ q ∉ after := by
    intro before q after heq
    rw [heq, List.nodup_middle, List.nodup_cons, List.mem_append, not_or] at hnodup
    exact hnodup.1
  rw [mem_required_summarize]
  constructor
  · rintro (hno | ⟨done', q, todo', hsplit', hid, hrequired⟩)
    · exact absurd hno List.not_mem_nil
    · rw [reportName_scan (hfresh hsplit').1] at hid
      have hmem : q ∈ files := by
        rw [hsplit']
        exact List.mem_append_right done' List.mem_cons_self
      obtain rfl := hname q hmem hid.symm
      obtain ⟨rfl, -, -⟩ := (List.append_cons_inj_of_notMem (hfresh hsplit').1
        (hfresh hsplit').2).mp (hsplit'.symm.trans hsplit)
      exact hrequired
  · intro hrequired
    exact .inr ⟨done, p, todo, hsplit, (reportName_scan (hfresh hsplit).1).symm, hrequired⟩

/-- What the scan with the bad files tells more than the scan without them. -/
theorem Tallies.scan (hs : Tallies labels s s₀) (h : Without gone w v) (hnodup : files.Nodup)
    (hw : ∀ p ∈ files, Parted gone w p) (hsame : Indifferent store i gone files w) :
    Tallies (labels ++ (files.filter fun p => p ∈ gone).map (reportName w))
      (summarize store i files w s) (summarize store i (files.filter fun p => p ∉ gone) v s₀) := by
  induction files generalizing w v labels s s₀ with
  | nil => simpa [summarize] using hs
  | cons p rest ih =>
    obtain ⟨hnotin, hnodup⟩ := List.nodup_cons.mp hnodup
    have hfirst := hw p List.mem_cons_self
    have hrest : ∀ q ∈ rest, Parted gone (scanned store i w p) q := fun q hq =>
      (hw q (List.mem_cons_of_mem p hq)).step fun heq => hnotin (heq ▸ hq)
    have hnames : (rest.filter fun q => q ∈ gone).map (reportName (scanned store i w p)) =
        (rest.filter fun q => q ∈ gone).map (reportName w) := by
      refine List.map_congr_left fun q hq => reportName_scanned fun heq => hnotin ?_
      exact heq ▸ (List.mem_filter.mp hq).1
    by_cases hp : p ∈ gone
    · have hsummary := ih (hs.bad hfirst hp) (h.scanned_bad hfirst hp) hnodup hrest hsame.tail
      have hfilter : (p :: rest).filter (fun q => q ∉ gone) = rest.filter fun q => q ∉ gone :=
        List.filter_cons_of_neg (by simpa using hp)
      have hbad : (p :: rest).filter (fun q => q ∈ gone) = p :: rest.filter fun q => q ∈ gone :=
        List.filter_cons_of_pos (by simpa using hp)
      rw [hfilter, hbad]
      rw [hnames, List.append_assoc] at hsummary
      exact hsummary
    · have hsummary := ih (hs.good h hfirst hp hsame.head)
        (h.scanned_good hfirst hp hsame.head) hnodup hrest hsame.tail
      have hfilter : (p :: rest).filter (fun q => q ∉ gone) = p :: rest.filter fun q => q ∉ gone :=
        List.filter_cons_of_pos (by simpa using hp)
      have hbad : (p :: rest).filter (fun q => q ∈ gone) = rest.filter fun q => q ∈ gone :=
        List.filter_cons_of_neg (by simpa using hp)
      rw [hfilter, hbad]
      rw [hnames] at hsummary
      exact hsummary

theorem Parted.scan (h : Parted gone w q) (hq : q ∉ files) :
    Parted gone (recovery.scan store i files w) q := by
  induction files generalizing w with
  | nil => exact h
  | cons p rest ih =>
    obtain ⟨hne, hrest⟩ := not_or.mp (mt List.mem_cons.mpr hq)
    exact ih (h.step hne) hrest

/-- Two decisions on one receipt differ only in whether the operator is asked. -/
theorem verdict_eq_of_required {r : Receipt}
    (h : outcome ((verdict w r).state r) = .required ↔ outcome ((verdict v r).state r) = .required) :
    verdict v r = verdict w r := by
  cases hop : r.original_operation <;> cases hs : r.tx_state <;>
    simp only [verdict, hop, hs] at h ⊢ <;> split <;> split <;> try rfl
  all_goals
    rename_i hv hw
    first
      | rw [if_pos hv, if_neg hw] at h
      | rw [if_neg hv, if_pos hw] at h
    simp [Verdict.state, outcome, hs] at h

/-- Where the two scans tell the same of the receipts, and no two files have one name, no
decision turned on a bad file. -/
theorem Tallies.indifferent (h : Without gone w v) (hnodup : files.Nodup)
    (hw : ∀ p ∈ files, Parted gone w p)
    (hname : ∀ p ∈ files, ∀ q ∈ files, reportName w p = reportName w q → p = q)
    (hs : Tallies ((files.filter fun p => p ∈ gone).map (reportName w)) (summarize store i files w {})
      (summarize store i (files.filter fun p => p ∉ gone) v {})) :
    Indifferent store i gone files w := by
  intro done
  -- what comes before `p` is the shorter list, for which the two scans stay in step
  induction hlength : done.length using Nat.strong_induction_on generalizing done with
  | _ n ih =>
    rintro p todo hsplit ⟨r, hshape, hne⟩
    have hp : p ∈ files := by
      rw [hsplit]
      exact List.mem_append_right done List.mem_cons_self
    have hdone : done.Nodup ∧ p ∉ done := by
      rw [hsplit, List.nodup_middle, List.nodup_cons, List.mem_append, not_or] at hnodup
      exact ⟨hnodup.2.of_append_left, hnodup.1.1⟩
    have hbefore : Indifferent store i gone done w := by
      intro before q after hprefix
      refine ih before.length ?_ before rfl q (after ++ p :: todo) ?_
      · rw [← hlength, hprefix, List.length_append, List.length_cons]
        omega
      · rw [hsplit, hprefix, List.append_assoc, List.cons_append]
    have hmem : ∀ q ∈ done, q ∈ files := fun q hq => by
      rw [hsplit]
      exact List.mem_append_left _ hq
    have hstep : Without gone (recovery.scan store i done w)
        (recovery.scan store i (done.filter fun q => q ∉ gone) v) :=
      h.scan hdone.1 (fun q hq => hw q (hmem q hq)) hbefore
    have hgood : p ∉ gone := ((hw p hp).scan hdone.2).mp ⟨r, hshape⟩
    have hshape' : Shape.of ((recovery.scan store i (done.filter fun q => q ∉ gone) v).lookup p) =
        .valid r := by rw [hstep.same p hgood, hshape]
    have hsame : ∀ q, q ∉ gone → reportName v q = reportName w q := fun q hq => by
      rw [reportName, reportName, h.same q hq]
    have hrequired : reportName w p ∈ (summarize store i files w {}).recovery_required ↔
        reported (recovery.scan store i done w) p = .required :=
      required_summarize hsplit hnodup fun q hq heq => hname q hq p hp heq
    have hrequired' : reportName v p ∈
        (summarize store i (files.filter fun q => q ∉ gone) v {}).recovery_required ↔
          reported (recovery.scan store i (done.filter fun q => q ∉ gone) v) p = .required := by
      have hsplit' : files.filter (fun q => q ∉ gone) =
          done.filter (fun q => q ∉ gone) ++ p :: todo.filter (fun q => q ∉ gone) := by
        rw [hsplit, List.filter_append, List.filter_cons_of_pos (by simpa using hgood)]
      apply required_summarize hsplit' (hnodup.filter _)
      intro q hq heq
      obtain ⟨hq, hgone⟩ := List.mem_filter.mp hq
      rw [hsame p hgood, hsame q (by simpa using hgone)] at heq
      exact hname q hq p hp heq
    have hlabel : reportName w p ∉ (files.filter fun q => q ∈ gone).map (reportName w) := by
      intro hlabel
      obtain ⟨q, hq, heq⟩ := List.mem_map.mp hlabel
      obtain ⟨hq, hgone⟩ := List.mem_filter.mp hq
      obtain rfl := hname q hq p hp heq
      exact hgood (by simpa using hgone)
    have hboth : reported (recovery.scan store i done w) p = .required ↔
        reported (recovery.scan store i (done.filter fun q => q ∉ gone) v) p = .required := by
      rw [← hrequired, ← hrequired', hsame p hgood, hs.required.mem_iff, List.mem_append]
      exact or_iff_left hlabel
    rw [reported_valid hshape, reported_valid hshape'] at hboth
    refine hne ?_
    rw [← hstep.verdict]
    exact verdict_eq_of_required hboth

end Tallying

section Checks

theorem run_corrupt_cons {rest : List Path} {found : Option Receipt}
    (h : (Shape.of (w.lookup p)).found = .ok found) :
    (∃ names, (RecoveryStore.corrupt_among (p :: rest) : Jvc Bytes _).run (machine Bytes) i w =
      (.ok names, w)) ↔
    ∃ names, (RecoveryStore.corrupt_among rest : Jvc Bytes _).run (machine Bytes) i w =
      (.ok names, w) := by
  have hread : (attempt (RecoveryStore.load_validated p : Jvc Bytes Receipt) journalError).run
      (machine Bytes) i w = _ := run_attempt_load
  rw [h] at hread
  have hfirst : (RecoveryStore.corrupt_among (p :: rest) : Jvc Bytes _).run (machine Bytes) i w =
      _ := run_seq (machine Bytes) i hread
  rw [hfirst]
  cases hrest : (RecoveryStore.corrupt_among rest : Jvc Bytes _).run (machine Bytes) i w with
  | mk result w₁ =>
    cases result with
    | ok more =>
      rw [run_seq (machine Bytes) i hrest]
      cases found <;> simp
    | error e =>
      rw [run_seq_error (machine Bytes) i hrest]

/-- The scan for corrupt files returns exactly where no file makes it raise. -/
theorem run_corrupt_among {files : List Path} :
    (∃ names, (RecoveryStore.corrupt_among files : Jvc Bytes _).run (machine Bytes) i w =
      (.ok names, w)) ↔ ∀ p ∈ files, (Shape.of (w.lookup p)).Harmless := by
  induction files with
  | nil => exact ⟨fun _ p hp => absurd hp List.not_mem_nil, fun _ => ⟨[], rfl⟩⟩
  | cons p rest ih =>
    rw [List.forall_mem_cons]
    cases hshape : Shape.of (w.lookup p) with
    | raises e =>
      refine ⟨?_, fun h => absurd rfl (h.1 e)⟩
      rintro ⟨names, hrun⟩
      have hread : (attempt (RecoveryStore.load_validated p : Jvc Bytes Receipt)
          journalError).run (machine Bytes) i w = _ := run_attempt_load
      rw [hshape] at hread
      have hfirst : (RecoveryStore.corrupt_among (p :: rest) : Jvc Bytes _).run (machine Bytes) i
          w = _ := run_seq_error (machine Bytes) i hread
      rw [hfirst] at hrun
      cases hrun
    | valid r =>
      have hfound : (Shape.of (w.lookup p)).found = .ok (some r) := by rw [hshape]; rfl
      rw [run_corrupt_cons hfound, ih]
      exact ⟨fun h => ⟨nofun, h⟩, fun h => h.2⟩
    | unreadable | foreign | invalid =>
      have hfound : (Shape.of (w.lookup p)).found = .ok none := by rw [hshape]; rfl
      rw [run_corrupt_cons hfound, ih]
      exact ⟨fun h => ⟨nofun, h⟩, fun h => h.2⟩

theorem run_corrupt_receipt_files :
    (∃ names, (store.corrupt_receipt_files : Jvc Bytes _).run (machine Bytes) i w =
      (.ok names, w)) ↔ Digestible store w := by
  have hrun : (store.corrupt_receipt_files : Jvc Bytes _).run (machine Bytes) i w =
      (RecoveryStore.corrupt_among (receiptFiles store w) : Jvc Bytes _).run (machine Bytes) i w :=
    run_seq (machine Bytes) i run_iter_receipt_files
  rw [hrun, run_corrupt_among]
  refine ⟨fun h p hp => ?_, fun h p hp => h p (mem_receiptFiles.mp hp).1⟩
  cases hfile : w.lookup p with
  | none => exact nofun
  | some data =>
    rw [← hfile]
    exact h p (mem_receiptFiles.mpr ⟨hp, by rw [hfile]; rfl⟩)

theorem run_blocking_among {files : List Path} {project_id : String} {target : Path}
    (h : ∀ p ∈ files, (Shape.of (w.lookup p)).Harmless) :
    ∃ blocker, (RecoveryStore.blocking_among project_id target files : Jvc Bytes _).run
      (machine Bytes) i w = (.ok blocker, w) := by
  induction files with
  | nil => exact ⟨none, rfl⟩
  | cons p rest ih =>
    obtain ⟨hp, hrest⟩ := List.forall_mem_cons.mp h
    have hread : (attempt (RecoveryStore.load_validated p : Jvc Bytes Receipt) journalError).run
        (machine Bytes) i w = _ := run_attempt_load
    cases hshape : Shape.of (w.lookup p) with
    | raises e => exact absurd hshape (hp e)
    | valid r =>
      rw [hshape] at hread
      have hfirst : (RecoveryStore.blocking_among project_id target (p :: rest) : Jvc Bytes _).run
          (machine Bytes) i w = _ := run_seq (machine Bytes) i hread
      rw [hfirst]
      simp only
      split
      · exact ⟨_, rfl⟩
      · exact ih hrest
    | unreadable | foreign | invalid =>
      rw [hshape] at hread
      have hfirst : (RecoveryStore.blocking_among project_id target (p :: rest) : Jvc Bytes _).run
          (machine Bytes) i w = _ := run_seq (machine Bytes) i hread
      rw [hfirst]
      exact ih hrest

theorem run_has_blocking_state {project_id : String} {target : Path} (h : Digestible store w) :
    ∃ blocker, (store.has_blocking_state project_id target : Jvc Bytes _).run (machine Bytes) i w =
      (.ok blocker, w) := by
  obtain ⟨names, hnames⟩ := (run_corrupt_receipt_files (i := i)).mpr h
  have hfirst : (store.has_blocking_state project_id target : Jvc Bytes _).run (machine Bytes) i w =
      _ := run_seq (machine Bytes) i hnames
  rw [hfirst]
  cases names with
  | cons file more => exact ⟨_, rfl⟩
  | nil =>
    have hfiles : ∀ p ∈ receiptFiles store w, (Shape.of (w.lookup p)).Harmless :=
      fun p hp => h p (mem_receiptFiles.mp hp).1
    obtain ⟨blocker, hblocking⟩ := run_blocking_among hfiles
    exact ⟨blocker, (run_seq (machine Bytes) i run_iter_receipt_files).trans hblocking⟩

end Checks

theorem Passable.harmless (h : Passable store i w p) : (Shape.of (w.lookup p)).Harmless := by
  intro e he
  rw [Passable, he] at h
  exact h

/-- A file that makes the journal checks raise stops the scan as well. -/
theorem Clear.harmless {files : List Path} (h : Clear store i files w) (hp : p ∈ files) :
    (Shape.of (w.lookup p)).Harmless := by
  induction h with
  | nil => cases hp
  | @cons q rest w head tail ih =>
    by_cases hq : p = q
    · rw [hq]
      exact head.harmless
    · have hafter := ih ((List.mem_cons.mp hp).resolve_left hq)
      have hchange : (scanned store i w q).lookup p = w.lookup p ∨ _ := lookup_scanned_ne hq
      rcases hchange with hsame | ⟨_, source, _, _, _, _, hsource, _⟩
      · rwa [hsame] at hafter
      · rw [hsource]
        intro e he
        cases he

theorem Clear.digestible (h : Clear store i (receiptFiles store w) w) : Digestible store w := by
  intro p hp
  cases hfile : w.lookup p with
  | none =>
    intro e he
    cases he
  | some data =>
    rw [← hfile]
    exact h.harmless (mem_receiptFiles.mpr ⟨hp, by rw [hfile]; rfl⟩)

omit [Text] [Host Bytes] in
theorem mem_badFiles [Text] [Host Bytes] {w : World Bytes} : p ∈ badFiles store w ↔
    store.isReceiptFile p = true ∧ (w.lookup p).isSome = true ∧
      ∀ r, Shape.of (w.lookup p) ≠ .valid r := by
  rw [badFiles, List.mem_filter, mem_receiptFiles, and_assoc]
  refine and_congr_right fun _ => and_congr_right fun _ => ?_
  cases hshape : Shape.of (w.lookup p) <;> simp [Shape.isValid]

/-- Nothing stops the scan, with the bad files or without them. -/
def Unstopped (store : RecoveryStore) (i : Pid) (w : World Bytes) : Prop :=
  Clear store i (receiptFiles store w) w ∧
    Clear store i (receiptFiles store (w.without (badFiles store w))) (w.without (badFiles store w))

theorem filter_badFiles :
    ((receiptFiles store w).filter fun p => p ∈ badFiles store w) = badFiles store w := by
  refine List.filter_congr fun p hp => ?_
  rw [badFiles, ← Bool.coe_iff_coe, decide_eq_true_iff, List.mem_filter]
  simp [hp]

theorem parted_badFiles (hp : p ∈ receiptFiles store w) : Parted (badFiles store w) w p := by
  obtain ⟨hreceipt, hsome⟩ := mem_receiptFiles.mp hp
  rw [Parted, mem_badFiles]
  constructor
  · rintro ⟨r, hshape⟩ ⟨-, -, hbad⟩
    exact hbad r hshape
  · intro hgood
    by_contra hno
    exact hgood ⟨hreceipt, hsome, fun r hr => hno ⟨r, hr⟩⟩

end recovery

namespace recovery

section Samples

attribute [local instance] asciiText sampleHost

/-- A store whose only receipt file is not UTF-8. -/
def sampleUndecodable : World SampleBytes := sampleWorld
  [("/store/recovery-a.json", .undecodable)]

/-- Two bad files, a closed write that names one of them as its backup, and an interrupted
write. -/
def sampleMixed : World SampleBytes := sampleWorld
  [("/store/recovery-a.json", .object (sampleWrite "recovery-a" .ROLLED_BACK
      (.str "/store/recovery-b.json") (.str "0A") (.str "1A"))),
   ("/store/recovery-b.json", .object {}),
   ("/store/recovery-c.json", .other),
   ("/store/recovery-d.json", .object (sampleWrite "recovery-d" .PREPARED .null .null .null))]

end Samples

end recovery

end jvc
