import Jvc.Recovery.Rules
import Jvc.Recovery.Scan

open program program.Prog

namespace jvc.recovery

variable {Bytes : Type} [Text] [Host Bytes] {store : RecoveryStore} {i : Pid} {w w' : World Bytes}
  {p q : Path}

/-- What the object in a receipt file may be: a write receipt in `recovery-*`,
a rollback receipt in `rollback-*` that names a write receipt, if any, and nothing that is
too deep to be written back. -/
structure Fits (store : RecoveryStore) (p : Path) (data : Dict) : Prop where
  flat : data.deep = false
  state : ∀ v, data.tx_state = some v → ∃ s, v = .str s
  write : globMatch store.root "recovery-" ".json" p = true →
    data.original_operation ≠ some (.str Operation.ROLLBACK.value)
  rollback : globMatch store.root "rollback-" ".json" p = true →
    data.original_operation ≠ some (.str Operation.FS_WRITE.value) ∧
      (textOf data.rollback_of = "" ∨
        too_long (store.source_text (textOf data.rollback_of)) = false ∧
          globMatch store.root "recovery-" ".json"
            (store.source_path (textOf data.rollback_of)) = true)

/-- Every receipt file is JSON text, of the kind its name says. -/
def Ordered (store : RecoveryStore) (w : World Bytes) : Prop :=
  ∀ p data, store.isReceiptFile p = true → w.lookup p = some data →
    ∃ doc, Host.loads data = .ok doc ∧ ∀ object, doc = .obj object → Fits store p object

/-- No receipt names a receipt file as its backup, however it spells the name. -/
def BackupsApart (store : RecoveryStore) (w : World Bytes) : Prop :=
  ∀ p data object, store.isReceiptFile p = true → w.lookup p = some data →
    Host.loads data = .ok (.obj object) →
      store.isReceiptFile (located Bytes (get object.backup_file).text) = false

theorem Ordered.restates (h : Ordered store w) (hw : Restates w w') : Ordered store w' := by
  intro p data hp hdata
  rcases hw p with hsame | ⟨data₀, object, state, hdata₀, hload, hnew⟩
  · rw [hsame] at hdata
    exact h p data hp hdata
  · rw [hdata] at hnew
    cases hnew
    obtain ⟨doc, hdoc, hfits⟩ := h p data₀ hp hdata₀
    rw [hload] at hdoc
    cases hdoc
    refine ⟨_, Host.loads_dumps _, ?_⟩
    rintro _ ⟨⟩
    have hold := hfits object rfl
    exact ⟨hold.flat, fun v hv => ⟨_, (Option.some.inj hv).symm⟩, hold.write, hold.rollback⟩

theorem BackupsApart.restates (h : BackupsApart store w) (hw : Restates w w') :
    BackupsApart store w' := by
  intro p data object hp hdata hload
  rcases hw p with hsame | ⟨data₀, object₀, state, hdata₀, hload₀, hnew⟩
  · rw [hsame] at hdata
    exact h p data object hp hdata hload
  · rw [hdata] at hnew
    cases hnew
    rw [Host.loads_dumps] at hload
    cases hload
    exact h p data₀ object₀ hp hdata₀ hload₀

section Shapes

variable {r : Receipt}

/-- A file of JSON text whose state, if any, is text stops no scan. -/
theorem Shape.harmless_of_text {data : Bytes} {doc : Document} (hload : Host.loads data = .ok doc)
    (hstate : ∀ object, doc = .obj object → ∀ v, object.tx_state = some v → ∃ s, v = .str s) :
    (Shape.of (some data)).Harmless := by
  intro e he
  simp only [Shape.of, hload] at he
  cases doc with
  | other v => cases he
  | obj object =>
    simp only [Shape.ofDocument] at he
    split at he
    · cases he
    · rename_i e' hinvalid
      split at he
      · cases he
      · rename_i hno
        rcases validate_receipt_error hinvalid with hrecovery | ⟨_, object', hobject, hhash⟩
        · exact hno hrecovery
        · cases hobject
          cases htx : object.tx_state with
          | none =>
            rw [htx] at hhash
            cases hhash
          | some v =>
            obtain ⟨text, rfl⟩ := hstate object rfl v htx
            rw [htx] at hhash
            cases hhash

theorem Ordered.harmless (h : Ordered store w) (hp : store.isReceiptFile p = true) :
    (Shape.of (w.lookup p)).Harmless := by
  cases hfile : w.lookup p with
  | none => intro e he; cases he
  | some data =>
    obtain ⟨doc, hload, hfits⟩ := h p data hp hfile
    exact Shape.harmless_of_text hload fun object hobject => (hfits object hobject).state

theorem Ordered.fits (h : Ordered store w) (hp : store.isReceiptFile p = true)
    (hshape : Shape.of (w.lookup p) = .valid r) : Fits store p r.dict := by
  obtain ⟨data, hdata, hload⟩ := Shape.of_eq_valid hshape
  obtain ⟨doc, hdoc, hfits⟩ := h p data hp hdata
  rw [hload] at hdoc
  cases hdoc
  exact hfits _ rfl

theorem BackupsApart.backup (h : BackupsApart store w) (hp : store.isReceiptFile p = true)
    (hshape : Shape.of (w.lookup p) = .valid r) :
    store.isReceiptFile (located Bytes (get r.backup_file).text) = false := by
  obtain ⟨data, hdata, hload⟩ := Shape.of_eq_valid hshape
  exact h p data r.dict hp hdata hload

omit [Text] [Host Bytes] in
theorem Fits.is_write (h : Fits store p r.dict)
    (hp : globMatch store.root "recovery-" ".json" p = true) : r.original_operation = .FS_WRITE := by
  cases hop : r.original_operation with
  | FS_WRITE => rfl
  | ROLLBACK =>
    refine absurd ?_ (h.write hp)
    rw [Receipt.dict, hop]

theorem verdict_finalize (h : verdict w r = .finalize) : r.original_operation = .ROLLBACK := by
  cases hop : r.original_operation with
  | ROLLBACK => rfl
  | FS_WRITE =>
    cases hs : r.tx_state <;> simp only [verdict, hop, hs] at h <;> try cases h
    split at h <;> cases h

/-- A receipt that is kept is decided. -/
theorem verdict_keep (h : verdict w r = .keep) : r.tx_state.incomplete = false := by
  cases hs : r.tx_state <;> first
    | rfl
    | cases hop : r.original_operation <;> simp only [verdict, hop, hs] at h <;> try cases h
      try split at h <;> cases h

/-- A receipt is marked as settled, or as VERIFIED with its backup intact. -/
theorem verdict_mark {state : TxState} (h : verdict w r = .mark state) :
    state = .RECOVERED_UNAPPLIED ∨ state = .RECOVERY_REQUIRED ∨
      state = .VERIFIED ∧ r.original_operation = .FS_WRITE ∧ backupHolds w r = true := by
  cases hop : r.original_operation with
  | FS_WRITE =>
    cases hs : r.tx_state <;> simp only [verdict, hop, hs] at h <;> try cases h
    · split
      · exact .inl rfl
      · exact .inr (.inl rfl)
    · split
      · rename_i hboth
        exact .inr (.inr ⟨rfl, rfl, (Bool.and_eq_true_iff.mp
        (Bool.and_eq_true_iff.mp hboth).1).2⟩)
      · exact .inr (.inl rfl)
    · split at h
      · cases h
      · cases h
        exact .inr (.inl rfl)
  | ROLLBACK =>
    cases hs : r.tx_state <;> simp only [verdict, hop, hs] at h <;> try cases h
    · split
      · exact .inl rfl
      · exact .inr (.inl rfl)
    · split at h
      · cases h
      · cases h
        exact .inr (.inl rfl)

/-- The decision on a decided receipt only looks at its backup. -/
theorem verdict_congr (hr : r.tx_state.incomplete = false)
    (hbackup : w'.lookup (located Bytes (get r.backup_file).text) =
      w.lookup (located Bytes (get r.backup_file).text)) : verdict w' r = verdict w r := by
  have hholds : backupHolds w' r = backupHolds w r := by
    simp only [backupHolds, digest, hbackup]
  cases hop : r.original_operation <;> cases hs : r.tx_state <;> rw [hs] at hr <;> first
    | exact absurd hr (by decide)
    | simp only [verdict, hop, hs, hholds]

end Shapes

/-- The source of a finished rollback, if there is one, is ROLLED_BACK. -/
def SourceClosed (store : RecoveryStore) (w : World Bytes) (source_id : String) : Prop :=
  source_id ≠ "" → ∀ source, Shape.of (w.lookup (store.source_path source_id)) = .valid source →
    w.lookup (store.source_path source_id) = some (Host.dumps source.dict) ∧
      source.tx_state = .ROLLED_BACK

/-- Recovery has nothing left to change in a file. -/
def Resting (store : RecoveryStore) (w : World Bytes) (p : Path) : Prop :=
  match Shape.of (w.lookup p) with
  | .valid r => verdict w r = .keep ∨
      r.tx_state = .VERIFIED ∧ verdict w r = .finalize ∧
        w.lookup p = some (Host.dumps r.dict) ∧ SourceClosed store w (textOf r.rollback_of)
  | .invalid object => w.lookup p = some (Host.dumps (marked object))
  | _ => True

section Rest

variable {r : Receipt}

/-- Scanning a file at rest leaves all files as they are. -/
theorem Resting.scan_same (h : Resting store w p) : (scanned store i w p).lookup q = w.lookup q := by
  unfold Resting at h
  unfold scanned
  cases hshape : Shape.of (w.lookup p) with
  | valid r =>
    simp only [hshape] at h
    simp only [settle]
    rcases h with hkeep | ⟨hstate, hfinal, hcontent, hclosed⟩
    · rw [hkeep]
    · have hsame : { r with tx_state := .VERIFIED } = r := by rw [← hstate]
      have hfiles : ∀ x, (rewrite i w p r .VERIFIED).lookup x = w.lookup x := by
        intro x
        rw [lookup_rewrite, hsame]
        split
        · rename_i hx
          rw [hx, hcontent]
        · rfl
      rw [hfinal]
      simp only [closeSource]
      split
      · exact hfiles q
      · rename_i hempty
        rw [hfiles]
        split
        · rename_i source hsource
          obtain ⟨hcontent', hrolled⟩ := hclosed hempty source hsource
          have hsame' : { source with tx_state := .ROLLED_BACK } = source := by rw [← hrolled]
          rw [lookup_rewrite, hsame']
          split
          · rename_i hq
            rw [hq, hcontent']
          · exact hfiles q
        · exact hfiles q
  | invalid object =>
    simp only [hshape] at h
    rw [World.lookup_write]
    split
    · rename_i hq
      rw [hq, h]
    · rfl
  | unreadable => rfl
  | foreign => rfl
  | raises e => rfl

omit [Text] [Host Bytes] in
theorem isReceiptFile_cases (hp : store.isReceiptFile p = true) :
    globMatch store.root "recovery-" ".json" p = true ∨
      globMatch store.root "rollback-" ".json" p = true :=
  Bool.or_eq_true_iff.mp hp

/-- Only a rollback receipt is finished. -/
theorem Ordered.finalize_rollback (hw : Ordered store w) (hp : store.isReceiptFile p = true)
    (hshape : Shape.of (w.lookup p) = .valid r) (hfinal : verdict w r = .finalize) :
    globMatch store.root "rollback-" ".json" p = true := by
  rcases isReceiptFile_cases hp with h | h
  · have hop := (hw.fits hp hshape).is_write h
    rw [verdict_finalize hfinal] at hop
    cases hop
  · exact h

/-- In an ordered journal only a rollback receipt's scan writes another file,
and that is a write receipt. -/
theorem Ordered.lookup_scanned_ne (hw : Ordered store w) (hp : store.isReceiptFile p = true)
    (hq : q ≠ p) :
    (scanned store i w p).lookup q = w.lookup q ∨
      globMatch store.root "rollback-" ".json" p = true ∧
        globMatch store.root "recovery-" ".json" q = true ∧
          ∃ source : Receipt, (scanned store i w p).lookup q =
            some (Host.dumps { source with tx_state := .ROLLED_BACK : Receipt }.dict) := by
  refine (recovery.lookup_scanned_ne hq).imp_right ?_
  rintro ⟨r, source, hshape, hfinal, hempty, rfl, _, hnew⟩
  have hback := hw.finalize_rollback hp hshape hfinal
  exact ⟨hback, (((hw.fits hp hshape).rollback hback).2.resolve_left hempty).2, source, hnew⟩

theorem lookup_scanned_outside (hw : Ordered store w) (hp : store.isReceiptFile p = true)
    (hq : store.isReceiptFile q = false) : (scanned store i w p).lookup q = w.lookup q := by
  have hne : q ≠ p := by
    rintro rfl
    rw [hp] at hq
    cases hq
  refine (hw.lookup_scanned_ne hp hne).resolve_right ?_
  rintro ⟨_, hrecovery, _⟩
  rw [RecoveryStore.isReceiptFile, hrecovery] at hq
  cases hq

/-- A receipt in a terminal state other than VERIFIED is at rest. -/
theorem verdict_terminal {state : TxState}
    (h : state = .RECOVERED_UNAPPLIED ∨ state = .RECOVERY_REQUIRED ∨ state = .ROLLED_BACK) :
    verdict w { r with tx_state := state } = .keep := by
  rcases h with rfl | rfl | rfl <;> cases r.original_operation <;> rfl

theorem verdict_verified (hop : r.original_operation = .FS_WRITE) (hs : r.tx_state = .VERIFIED)
    (hholds : backupHolds w r = true) : verdict w r = .keep := by
  simp only [verdict, hop, hs, hholds, if_true]

theorem verdict_rollback (hop : r.original_operation = .ROLLBACK) (hs : r.tx_state = .VERIFIED) :
    verdict w r = .finalize := by
  simp only [verdict, hop, hs]

theorem Resting.of_keep (hcontent : w.lookup p = some (Host.dumps r.dict))
    (h : verdict w r = .keep) : Resting store w p := by
  unfold Resting
  rw [hcontent, Shape.of_receipt]
  exact .inl h

theorem Resting.marked {object : Dict}
    (hcontent : w.lookup p = some (Host.dumps (marked object))) : Resting store w p := by
  unfold Resting
  rw [hcontent]
  rcases @Shape.of_marked Bytes _ _ object with hshape | ⟨r, hshape, hstate⟩
  · rw [hshape]
    rfl
  · rw [hshape]
    have hsame : { r with tx_state := .RECOVERY_REQUIRED } = r := by rw [← hstate]
    have hkeep := verdict_terminal (w := w) (r := r) (.inr (.inl rfl))
    rw [hsame] at hkeep
    exact .inl hkeep

theorem closeSource_closed {source_id : String} :
    SourceClosed store (closeSource store i w source_id) source_id := by
  intro hempty source hsource
  simp only [closeSource, hempty, if_false] at hsource ⊢
  split at hsource
  · rename_i found hfound
    rw [lookup_rewrite_self, Shape.of_receipt] at hsource
    cases hsource
    exact ⟨lookup_rewrite_self, rfl⟩
  · rename_i hno
    exact absurd hsource (hno source)

/-- A scanned file is at rest. -/
theorem scanned_resting (hw : Ordered store w) (hbackups : BackupsApart store w)
    (hp : store.isReceiptFile p = true) : Resting store (scanned store i w p) p := by
  cases hshape : Shape.of (w.lookup p) with
  | valid r =>
    have hbackup : (scanned store i w p).lookup (located Bytes (get r.backup_file).text) =
        w.lookup (located Bytes (get r.backup_file).text) :=
      lookup_scanned_outside hw hp (hbackups.backup hp hshape)
    have hsettle : scanned store i w p = settle store i w p r := by rw [scanned, hshape]
    rw [hsettle] at hbackup ⊢
    unfold settle at hbackup ⊢
    cases hverdict : verdict w r with
    | keep =>
      unfold Resting
      rw [hshape]
      exact .inl hverdict
    | mark state =>
      rw [hverdict] at hbackup
      refine .of_keep lookup_rewrite_self ?_
      rcases verdict_mark hverdict with rfl | rfl | ⟨rfl, hop, hholds⟩
      · exact verdict_terminal (.inl rfl)
      · exact verdict_terminal (.inr (.inl rfl))
      · have hsame : backupHolds (rewrite i w p r .VERIFIED) { r with tx_state := .VERIFIED } =
            backupHolds w r := by
          simp only [backupHolds, digest, hbackup]
        exact verdict_verified hop rfl (hsame.trans hholds)
    | finalize =>
      have hop : r.original_operation = .ROLLBACK := verdict_finalize hverdict
      have hback := hw.finalize_rollback hp hshape hverdict
      have hcontent : (closeSource store i (rewrite i w p r .VERIFIED)
          (textOf r.rollback_of)).lookup p =
            some (Host.dumps { r with tx_state := .VERIFIED : Receipt }.dict) := by
        unfold closeSource
        split
        · exact lookup_rewrite_self
        · rename_i hempty
          have hnames := ((((hw.fits hp hshape).rollback hback).2).resolve_left hempty).2
          split
          · rw [lookup_rewrite_ne, lookup_rewrite_self]
            rintro rfl
            exact glob_exclusive hnames hback
          · exact lookup_rewrite_self
      unfold Resting
      rw [hcontent, Shape.of_receipt]
      exact .inr ⟨rfl, verdict_rollback hop rfl, rfl, closeSource_closed⟩
  | invalid object =>
    have hcontent : (scanned store i w p).lookup p = some (Host.dumps (marked object)) := by
      simp only [scanned, hshape, World.lookup_write, if_true]
    exact .marked hcontent
  | raises e => exact absurd hshape (hw.harmless hp e)
  | unreadable | foreign =>
    unfold Resting
    simp only [scanned, hshape]

theorem Resting.of_lookup (h : Resting store w p) (hsame : ∀ q, w'.lookup q = w.lookup q) :
    Resting store w' p := by
  have hdigest : digest w' = digest w := funext fun x => by rw [digest, digest, hsame]
  have hverdict : ∀ r, verdict w' r = verdict w r := fun r => by
    unfold verdict backupHolds unseen refused
    rw [hdigest, hsame]
  unfold Resting SourceClosed at h ⊢
  simpa only [hsame, hverdict] using h

/-- A file at rest stays at rest while other files are scanned, where the
write receipts come first. -/
theorem Resting.step (h : Resting store w q) (hw : Ordered store w)
    (hbackups : BackupsApart store w) (hp : store.isReceiptFile p = true)
    (hq : store.isReceiptFile q = true) (hne : q ≠ p)
    (horder : globMatch store.root "recovery-" ".json" q = true ∨
      globMatch store.root "rollback-" ".json" p = true) :
    Resting store (scanned store i w p) q := by
  rcases hw.lookup_scanned_ne hp hne with hsame | ⟨_, _, source, hnew⟩
  · unfold Resting at h ⊢
    rw [hsame]
    split at h
    · rename_i r hshape
      rcases h with hkeep | ⟨hstate, hfinal, hcontent, hclosed⟩
      · left
        rw [verdict_congr (verdict_keep hkeep)
          (lookup_scanned_outside hw hp (hbackups.backup hq hshape))]
        exact hkeep
      · have hop := verdict_finalize hfinal
        refine .inr ⟨hstate, verdict_rollback hop hstate, hcontent, fun hempty => ?_⟩
        have hback := hw.finalize_rollback hq hshape hfinal
        have hnames := (((hw.fits hq hshape).rollback hback).2.resolve_left hempty).2
        have hbackp := horder.resolve_left fun hrecovery => glob_exclusive hrecovery hback
        have hsource : store.source_path (textOf r.rollback_of) ≠ p := fun heq =>
          glob_exclusive (heq ▸ hnames) hbackp
        rcases hw.lookup_scanned_ne hp hsource with hkept | ⟨_, _, found, hnew⟩
        · rw [hkept]
          exact hclosed hempty
        · rw [hnew, Shape.of_receipt]
          rintro source ⟨⟩
          exact ⟨rfl, rfl⟩
    · exact h
    · exact h
  · exact .of_keep hnew (verdict_terminal (.inr (.inr rfl)))

/-- After the scan of a list of files they are at rest, and so are the files
that were at rest before. -/
theorem scan_resting {files : List Path} (hw : Ordered store w) (hbackups : BackupsApart store w)
    (hfiles : ∀ p ∈ files, store.isReceiptFile p = true) (hnodup : files.Nodup)
    (hpairs : files.Pairwise fun a b => globMatch store.root "recovery-" ".json" a = true ∨
      globMatch store.root "rollback-" ".json" b = true) (rested : Path → Prop)
    (hrested : ∀ q, rested q → Resting store w q ∧ store.isReceiptFile q = true ∧
      ∀ p ∈ files, q ≠ p ∧ (globMatch store.root "recovery-" ".json" q = true ∨
        globMatch store.root "rollback-" ".json" p = true)) :
    ∀ q, rested q ∨ q ∈ files → Resting store (scan store i files w) q := by
  induction files generalizing w rested with
  | nil => exact fun q hq => (hrested q (hq.resolve_right (List.not_mem_nil))).1
  | cons p rest ih =>
    have hp := hfiles p List.mem_cons_self
    have hrestates : Restates w (scanned store i w p) := scanned_restates
    obtain ⟨hnotin, hnodup⟩ := List.nodup_cons.mp hnodup
    obtain ⟨hfirst, hpairs⟩ := List.pairwise_cons.mp hpairs
    intro q hq
    refine ih (hw.restates hrestates) (hbackups.restates hrestates)
      (fun x hx => hfiles x (List.mem_cons_of_mem p hx)) hnodup hpairs
      (fun x => rested x ∨ x = p) (fun x hx => ?_) q ?_
    · rcases hx with hx | rfl
      · have hrest : Resting store w x := (hrested x hx).1
        have hreceipt := (hrested x hx).2.1
        have hothers := (hrested x hx).2.2
        obtain ⟨hne, horder⟩ := hothers p List.mem_cons_self
        exact ⟨hrest.step hw hbackups hp hreceipt hne horder, hreceipt,
          fun y hy => hothers y (List.mem_cons_of_mem p hy)⟩
      · refine ⟨scanned_resting hw hbackups hp, hp, fun y hy => ⟨?_, hfirst y hy⟩⟩
        rintro rfl
        exact hnotin hy
    · rcases hq with hq | hq
      · exact .inl (.inl hq)
      · rcases List.mem_cons.mp hq with rfl | hq
        · exact .inl (.inr rfl)
        · exact .inr hq

end Rest

theorem Ordered.flat_invalid (h : Ordered store w) (hp : store.isReceiptFile p = true)
    {object : Dict} (hshape : Shape.of (w.lookup p) = .invalid object) : object.deep = false := by
  obtain ⟨data, _, hdata, hload, _⟩ := Shape.of_eq_invalid hshape
  obtain ⟨doc, hdoc, hfits⟩ := h p data hp hdata
  rw [hload] at hdoc
  cases hdoc
  exact (hfits object rfl).flat

/-- Nothing stops the decision on a receipt of an ordered journal. -/
theorem Ordered.writable {r : Receipt} (hw : Ordered store w) (hp : store.isReceiptFile p = true)
    (hshape : Shape.of (w.lookup p) = .valid r) : Writable store i w p r := by
  refine ⟨fun _ => (hw.fits hp hshape).flat, fun hfinal hempty => ?_⟩
  have hback := hw.finalize_rollback hp hshape hfinal
  obtain ⟨hlong, hnames⟩ := ((hw.fits hp hshape).rollback hback).2.resolve_left hempty
  change too_long (store.source_text (textOf r.rollback_of)) = false at hlong
  have hafter : Ordered store (rewrite i w p r .VERIFIED) := hw.restates (rewrite_restates hshape)
  have hreceipt : store.isReceiptFile (store.source_path (textOf r.rollback_of)) = true :=
    Bool.or_eq_true_iff.mpr (.inl hnames)
  refine ⟨?_, hafter.harmless hreceipt, fun source hsource => (hafter.fits hreceipt hsource).flat⟩
  rw [refused, hlong, Bool.and_false]

/-- Nothing stops the scan of an ordered journal. -/
theorem Ordered.clear {files : List Path} (hw : Ordered store w)
    (hfiles : ∀ p ∈ files, store.isReceiptFile p = true) : Clear store i files w := by
  induction files generalizing w with
  | nil => exact .nil w
  | cons p rest ih =>
    have hp := hfiles p List.mem_cons_self
    refine .cons ?_ (ih (hw.restates scanned_restates) fun x hx =>
      hfiles x (List.mem_cons_of_mem p hx))
    unfold Passable
    cases hshape : Shape.of (w.lookup p) with
    | raises e => exact hw.harmless hp e hshape
    | invalid object => exact hw.flat_invalid hp hshape
    | valid r => exact hw.writable hp hshape
    | unreadable | foreign => trivial

theorem lookup_scan_outside {files : List Path} (hw : Ordered store w)
    (hfiles : ∀ p ∈ files, store.isReceiptFile p = true) (hq : store.isReceiptFile q = false) :
    (scan store i files w).lookup q = w.lookup q := by
  induction files generalizing w with
  | nil => rfl
  | cons p rest ih =>
    have hnext : Ordered store (scanned store i w p) := hw.restates scanned_restates
    exact (ih hnext fun x hx => hfiles x (List.mem_cons_of_mem p hx)).trans
      (lookup_scanned_outside hw (hfiles p List.mem_cons_self) hq)

omit [Text] [Host Bytes] in
theorem mem_receiptFiles : p ∈ receiptFiles store w ↔
    store.isReceiptFile p = true ∧ (w.lookup p).isSome = true := by
  rw [receiptFiles, List.mem_append, World.mem_globbed, World.mem_globbed,
    RecoveryStore.isReceiptFile, Bool.or_eq_true_iff]
  tauto

omit [Text] [Host Bytes] in
theorem receiptFiles_pairwise : (receiptFiles store w).Pairwise fun a b =>
    globMatch store.root "recovery-" ".json" a = true ∨
      globMatch store.root "rollback-" ".json" b = true := by
  refine List.pairwise_append.mpr ⟨?_, ?_, fun a ha _ _ => .inl (World.mem_globbed.mp ha).1⟩
  · exact List.pairwise_of_forall_mem_list fun a ha _ _ => .inl (World.mem_globbed.mp ha).1
  · exact List.pairwise_of_forall_mem_list fun _ _ b hb => .inr (World.mem_globbed.mp hb).1

omit [Text] [Host Bytes] in
theorem receiptFiles_nodup : (receiptFiles store w).Nodup := by
  refine List.Nodup.append (World.globbed_nodup _ _ _ _) (World.globbed_nodup _ _ _ _) ?_
  intro p hp₁ hp₂
  exact glob_exclusive (World.mem_globbed.mp hp₁).1 (World.mem_globbed.mp hp₂).1

/-- After a scan of the journal every receipt file is at rest. -/
theorem recovered_resting (hw : Ordered store w) (hbackups : BackupsApart store w)
    (hp : p ∈ receiptFiles store (scan store i (receiptFiles store w) w)) :
    Resting store (scan store i (receiptFiles store w) w) p := by
  obtain ⟨hreceipt, hsome⟩ := mem_receiptFiles.mp hp
  rw [(scan_restates _).isSome] at hsome
  exact scan_resting hw hbackups (fun x hx => (mem_receiptFiles.mp hx).1) receiptFiles_nodup
    receiptFiles_pairwise (fun _ => False) (fun _ h => h.elim) p
    (.inr (mem_receiptFiles.mpr ⟨hreceipt, hsome⟩))

/-- Scanning files at rest leaves all files as they are. -/
theorem scan_same {files : List Path} (h : ∀ p ∈ files, Resting store w p) :
    (scan store i files w).lookup q = w.lookup q := by
  induction files generalizing w with
  | nil => rfl
  | cons p rest ih =>
    have hfirst := h p List.mem_cons_self
    have hsame : ∀ x, (scanned store i w p).lookup x = w.lookup x := fun x => hfirst.scan_same
    exact (ih fun x hx => (h x (List.mem_cons_of_mem p hx)).of_lookup hsame).trans (hsame q)

/-- Recovery touches nothing but receipts, decides every receipt, and a second
pass leaves every file as it is. -/
def Converges (store : RecoveryStore) (i j : Pid) (w : World Bytes) : Prop :=
  ∃ s w', (store.recover none).run (machine Bytes) i w = (.ok s, w') ∧
    (∀ q, store.isReceiptFile q = false → w'.lookup q = w.lookup q) ∧
    (∀ p r, store.isReceiptFile p = true → Shape.of (w'.lookup p) = .valid r →
      r.tx_state ≠ .PREPARED ∧ r.tx_state ≠ .APPLIED) ∧
    ∃ s' w'', (store.recover none).run (machine Bytes) j w' = (.ok s', w'') ∧
      ∀ q, w''.lookup q = w'.lookup q

end jvc.recovery

namespace jvc.recovery

/-- File contents: JSON objects as the store writes them, three texts that are
no JSON and one that is not UTF-8. -/
inductive SampleBytes
  | object (data : Dict)
  | before
  | after
  | other
  | undecodable
  deriving DecidableEq

/-- Digests that tell the texts and the states of a receipt apart. -/
def SampleBytes.digest : SampleBytes → String
  | .before => "0A"
  | .after => "1A"
  | .other => "2A"
  | .undecodable => "3A"
  | .object data =>
    if data.tx_state = some (.str "PREPARED") then "0B"
    else if data.tx_state = some (.str "APPLIED") then "1B"
    else if data.tx_state = some (.str "VERIFIED") then "2B" else "3B"

theorem SampleBytes.digest_cases {motive : String → Prop} (b : SampleBytes)
    (h : ∀ s ∈ ["0A", "1A", "2A", "3A", "0B", "1B", "2B", "3B"], motive s) : motive b.digest := by
  cases b with
  | object data =>
    simp only [SampleBytes.digest]
    repeat' split
    all_goals exact h _ (by decide)
  | before | after | other | undecodable => exact h _ (by decide)

@[reducible] def sampleHost : @Host asciiText SampleBytes :=
  @Host.mk asciiText SampleBytes SampleBytes.digest (fun _ => 1)
    (fun
      | .object data => .ok (.obj data)
      | .undecodable => .error .UnicodeDecodeError
      | _ => .error .JSONDecodeError)
    .object "/" (fun _ => rfl)
    (fun b e h => by cases b <;> cases h <;> exact ⟨rfl, rfl⟩)
    (fun b => b.digest_cases (motive := fun s => asciiText.upper s = s) (by decide))
    (fun b => b.digest_cases (motive := fun s => strip s = s) (by decide))
    (fun b => b.digest_cases (motive := fun s => s ≠ "") (by decide))
    (fun b => b.digest_cases (motive := fun s => s ≠ "__ABSENT__") (by decide))
    (fun _ => by decide)

def sampleStamp : Stamp := Stamp.sample

/-- A host with the given files, where nothing has happened yet. -/
def sampleWorld (files : List (Path × SampleBytes)) : World SampleBytes where
  files := files.foldr (fun file rest => rest.insert file.1 file.2) ∅
  dirs := ["/p"]
  locks _ := none
  stamps _ := sampleStamp
  clock n := n
  ticks := 0
  drawer _ := none
  changes := []
  timeouts := []

def sampleStore : RecoveryStore := .sample

/-- A write receipt of `/p/a.txt`. -/
def sampleWrite (id : String) (state : TxState) (backup : Val) (preimage postimage : Val) : Dict where
  receipt_id := some (.str id)
  project_id := some (.str "demo")
  path := some (.str "/p/a.txt")
  original_operation := some (.str "FS_WRITE")
  preimage_exists := some (.bool backup.truthy)
  preimage_sha256 := some preimage
  postimage_sha256 := some postimage
  backup_file := some backup
  tx_state := some (.str state.value)

/-- A rollback receipt of `/p/a.txt`. -/
def sampleRollback (id : String) (state : TxState) (source : String) (expected : Val) : Dict where
  receipt_id := some (.str id)
  project_id := some (.str "demo")
  path := some (.str "/p/a.txt")
  original_operation := some (.str "ROLLBACK")
  rollback_of := some (.str source)
  preimage_exists := some (.bool true)
  expected_postimage_sha256 := some expected
  tx_state := some (.str state.value)

/-- A journal with something left to do: an interrupted edit, whose backup has another
spelling, a VERIFIED write without its backup, one whose rollback is finished but for its
last step, a rollback that never replaced the target, and an object without a state. -/
def sampleUnfinished : World SampleBytes := sampleWorld
  [("/p/a.txt", .before),
   ("/store/recovery-a.bak", .before),
   ("/store/recovery-a.json", .object (sampleWrite "recovery-a" .PREPARED
      (.str "/store/./recovery-a.bak") (.str "0A") .null)),
   ("/store/recovery-b.json", .object (sampleWrite "recovery-b" .VERIFIED
      (.str "/store/recovery-b.bak") (.str "1A") (.str "0A"))),
   ("/store/recovery-c.json", .object (sampleWrite "recovery-c" .VERIFIED .null .null (.str "2A"))),
   ("/store/recovery-d.json", .object {}),
   ("/store/rollback-e.json", .object (sampleRollback "rollback-e" .VERIFIED "recovery-c" (.str "2A"))),
   ("/store/rollback-f.json", .object (sampleRollback "rollback-f" .PREPARED "recovery-b" (.str "0A")))]

/-- A VERIFIED write whose backup is the file of a later, PREPARED receipt. -/
def sampleEntangled : World SampleBytes := sampleWorld
  [("/store/recovery-a.json", .object (sampleWrite "recovery-a" .VERIFIED
      (.str "/store/recovery-b.json") (.str "0B") (.str "1A"))),
   ("/store/recovery-b.json", .object (sampleWrite "recovery-b" .PREPARED .null .null .null))]

theorem sampleWorld_lookup {files : List (Path × SampleBytes)} {p : Path} {data : SampleBytes}
    (h : (sampleWorld files).lookup p = some data) : (p, data) ∈ files := by
  induction files with
  | nil => cases h
  | cons file rest ih =>
    by_cases hp : p = file.1
    · subst hp
      have hfirst : (sampleWorld (file :: rest)).lookup file.1 = some file.2 := AList.lookup_insert _
      rw [hfirst] at h
      cases h
      exact List.mem_cons_self
    · have hrest : (sampleWorld (file :: rest)).lookup p = (sampleWorld rest).lookup p :=
        AList.lookup_insert_ne hp
      rw [hrest] at h
      exact List.mem_cons_of_mem _ (ih h)

section Samples

attribute [local instance] asciiText sampleHost

theorem sample_returns {w : World SampleBytes}
    (h : ((sampleStore.recover none).run (machine SampleBytes) 0 w).1.isOk = true) :
    ∃ s w', (sampleStore.recover none).run (machine SampleBytes) 0 w = (.ok s, w') := by
  cases hrun : (sampleStore.recover none).run (machine SampleBytes) 0 w with
  | mk result w' =>
    rw [hrun] at h
    cases result with
    | error e => cases h
    | ok s => exact ⟨s, w', rfl⟩

/-- A journal is ordered if its files are, taken one by one. -/
theorem sampleWorld_ordered {files : List (Path × SampleBytes)}
    (h : ∀ file ∈ files, sampleStore.isReceiptFile file.1 = true →
      ∃ object, file.2 = .object object ∧ Fits sampleStore file.1 object) :
    Ordered sampleStore (sampleWorld files) := by
  intro p data hp hdata
  obtain ⟨object, hobject, hfits⟩ := h _ (sampleWorld_lookup hdata) hp
  refine ⟨.obj object, ?_, fun object' heq => ?_⟩
  · rw [show data = .object object from hobject]
    rfl
  · cases heq
    exact hfits

theorem sampleWrite_fits {p : Path} {id : String} {state : TxState} {backup pre post : Val}
    (hp : globMatch "/store" "rollback-" ".json" p = false) :
    Fits sampleStore p (sampleWrite id state backup pre post) := by
  have hwrite : some (Val.str "FS_WRITE") ≠ some (.str Operation.ROLLBACK.value) := by decide
  refine ⟨rfl, fun _ hv => ⟨_, (Option.some.inj hv).symm⟩, fun _ => hwrite, fun h => ?_⟩
  have hno := hp.symm.trans h
  cases hno

theorem sampleRollback_fits {p : Path} {id source : String} {state : TxState} {expected : Val}
    (hp : globMatch "/store" "recovery-" ".json" p = false)
    (hlong : too_long (sampleStore.source_text source) = false)
    (hsource : globMatch "/store" "recovery-" ".json" (sampleStore.source_path source) = true) :
    Fits sampleStore p (sampleRollback id state source expected) := by
  have hrollback : some (Val.str "ROLLBACK") ≠ some (.str Operation.FS_WRITE.value) := by decide
  refine ⟨rfl, fun _ hv => ⟨_, (Option.some.inj hv).symm⟩, fun h => ?_,
    fun _ => ⟨hrollback, .inr ⟨hlong, hsource⟩⟩⟩
  have hno := hp.symm.trans h
  cases hno

theorem sampleUnfinished_ordered : Ordered sampleStore sampleUnfinished := by
  refine sampleWorld_ordered ?_
  simp only [List.forall_mem_cons, List.not_mem_nil, false_implies, implies_true, and_true]
  refine ⟨fun h => absurd h ?_, fun h => absurd h ?_, fun _ => ⟨_, rfl, sampleWrite_fits ?_⟩,
    fun _ => ⟨_, rfl, sampleWrite_fits ?_⟩, fun _ => ⟨_, rfl, sampleWrite_fits ?_⟩,
    fun _ => ⟨_, rfl, rfl, fun _ h => (by cases h), fun _ h => (by cases h),
      fun h => absurd h ?_⟩,
    fun _ => ⟨_, rfl, sampleRollback_fits ?_ ?_ ?_⟩,
    fun _ => ⟨_, rfl, sampleRollback_fits ?_ ?_ ?_⟩⟩ <;> decide +kernel

theorem sampleUnfinished_apart : BackupsApart sampleStore sampleUnfinished := by
  intro p data object _ hdata hload
  have hmem := sampleWorld_lookup hdata
  simp only [List.mem_cons, List.not_mem_nil, or_false, Prod.mk.injEq] at hmem
  rcases hmem with ⟨_, rfl⟩ | ⟨_, rfl⟩ | ⟨_, rfl⟩ | ⟨_, rfl⟩ | ⟨_, rfl⟩ | ⟨_, rfl⟩ | ⟨_, rfl⟩ |
    ⟨_, rfl⟩ <;> cases hload <;> decide +kernel

theorem sampleEntangled_ordered : Ordered sampleStore sampleEntangled := by
  refine sampleWorld_ordered ?_
  simp only [List.forall_mem_cons, List.not_mem_nil, false_implies, implies_true, and_true]
  refine ⟨fun _ => ⟨_, rfl, sampleWrite_fits ?_⟩, fun _ => ⟨_, rfl, sampleWrite_fits ?_⟩⟩ <;>
    decide +kernel

end Samples

end jvc.recovery
