import Jvc.Recovery.Verdict

open program program.Prog

namespace jvc.recovery

variable {Bytes : Type} [Text] [Host Bytes] {store : RecoveryStore} {i : Pid} {w : World Bytes}
  {p : Path}

/-- What the scan of one file adds to the summary. -/
def report (w : World Bytes) (p : Path) (s : Summary) : Summary :=
  match Shape.of (w.lookup p) with
  | .valid r =>
    let seen := if (get r.backup_file).truthy
      then s.seen_backup_ids ++ [Path.name (get r.backup_file).text] else s.seen_backup_ids
    RecoveryStore.Summary.add { s with seen_backup_ids := seen } r.receipt_id
      (outcome ((verdict w r).state r))
  | shape => RecoveryStore.Summary.add s (shape.label p) .required

section Files

variable {w' w'' : World Bytes} {q : Path} {r : Receipt} {state : TxState}

theorem lookup_rewrite : (rewrite i w p r state).lookup q =
    if q = p then some (Host.dumps { r with tx_state := state }.dict) else w.lookup q :=
  World.lookup_write w i p q _ none

theorem lookup_rewrite_self : (rewrite i w p r state).lookup p =
    some (Host.dumps { r with tx_state := state }.dict) := by
  rw [lookup_rewrite, if_pos rfl]

theorem lookup_rewrite_ne (h : q ≠ p) : (rewrite i w p r state).lookup q = w.lookup q := by
  rw [lookup_rewrite, if_neg h]

/-- Files only change their transaction state. -/
def Restates (w w' : World Bytes) : Prop :=
  ∀ q, w'.lookup q = w.lookup q ∨
    ∃ data object state, w.lookup q = some data ∧ Host.loads data = .ok (.obj object) ∧
      w'.lookup q = some (Host.dumps
        { object with tx_state := some (.str (TxState.value state)) } : Bytes)

theorem Restates.refl (w : World Bytes) : Restates w w := fun _ => .inl rfl

theorem Restates.trans (h : Restates w w') (h' : Restates w' w'') : Restates w w'' := by
  intro q
  rcases h' q with hsame | ⟨data, object, state, hdata, hload, hnew⟩
  · rw [hsame]
    exact h q
  · rcases h q with hsame | ⟨data₀, object₀, state₀, hdata₀, hload₀, hnew₀⟩
    · exact .inr ⟨data, object, state, hsame ▸ hdata, hload, hnew⟩
    · rw [hdata] at hnew₀
      cases hnew₀
      rw [Host.loads_dumps] at hload
      cases hload
      exact .inr ⟨data₀, object₀, state, hdata₀, hload₀, hnew⟩

theorem Restates.isSome (h : Restates w w') (q : Path) :
    (w'.lookup q).isSome = (w.lookup q).isSome := by
  rcases h q with hsame | ⟨data, _, _, hdata, _, hnew⟩
  · rw [hsame]
  · rw [hdata, hnew]
    rfl

theorem rewrite_restates (hshape : Shape.of (w.lookup p) = .valid r) :
    Restates w (rewrite i w p r state) := by
  intro q
  by_cases hq : q = p
  · subst hq
    obtain ⟨data, hdata, hload⟩ := Shape.of_eq_valid hshape
    exact .inr ⟨data, r.dict, state, hdata, hload, lookup_rewrite_self⟩
  · exact .inl (lookup_rewrite_ne hq)

theorem closeSource_restates (source_id : String) :
    Restates w (closeSource store i w source_id) := by
  unfold closeSource
  split
  · exact .refl w
  · split
    · rename_i source hsource
      exact rewrite_restates hsource
    · exact .refl w

theorem settle_restates (hshape : Shape.of (w.lookup p) = .valid r) :
    Restates w (settle store i w p r) := by
  unfold settle
  split
  · exact .refl w
  · exact rewrite_restates hshape
  · exact (rewrite_restates hshape).trans (closeSource_restates _)

/-- Recovery only touches the transaction state of receipts. -/
theorem scanned_restates : Restates w (scanned store i w p) := by
  unfold scanned
  split
  · rename_i r hshape
    exact settle_restates hshape
  · rename_i object hshape
    obtain ⟨data, _, hdata, hload, _, _⟩ := Shape.of_eq_invalid hshape
    intro q
    rw [World.lookup_write]
    by_cases hq : q = p
    · subst hq
      exact .inr ⟨data, object, .RECOVERY_REQUIRED, hdata, hload, if_pos rfl⟩
    · exact .inl (if_neg hq)
  · exact .refl w

/-- Besides its own file a scan only writes the source of a finished rollback. -/
theorem lookup_scanned_ne (hq : q ≠ p) :
    (scanned store i w p).lookup q = w.lookup q ∨
      ∃ r source, Shape.of (w.lookup p) = .valid r ∧ verdict w r = .finalize ∧
        textOf r.rollback_of ≠ "" ∧ q = store.source_path (textOf r.rollback_of) ∧
          Shape.of (w.lookup q) = .valid source ∧ (scanned store i w p).lookup q =
            some (Host.dumps { source with tx_state := .ROLLED_BACK : Receipt }.dict) := by
  unfold scanned
  split
  · rename_i r hshape
    unfold settle
    split
    · exact .inl rfl
    · exact .inl (lookup_rewrite_ne hq)
    · rename_i hfinal
      unfold closeSource
      split
      · exact .inl (lookup_rewrite_ne hq)
      · rename_i hempty
        split
        · rename_i source hsource
          by_cases hsame : q = store.source_path (textOf r.rollback_of)
          · rw [← hsame, lookup_rewrite_ne hq] at hsource
            refine .inr ⟨r, source, hshape, hfinal, hempty, hsame, hsource, ?_⟩
            rw [← hsame]
            exact lookup_rewrite_self
          · left
            rw [lookup_rewrite_ne hsame, lookup_rewrite_ne hq]
        · exact .inl (lookup_rewrite_ne hq)
  · left
    rw [World.lookup_write, if_neg hq]
  · exact .inl rfl

end Files

section Scanning

variable {s : Summary}

/-- Nothing stops the scan at a file: it can be digested, an object that is no receipt can
be written back, and so can what the decision on a receipt changes. -/
def Passable (store : RecoveryStore) (i : Pid) (w : World Bytes) (p : Path) : Prop :=
  match Shape.of (w.lookup p) with
  | .raises _ => False
  | .invalid object => object.deep = false
  | .valid r => Writable store i w p r
  | _ => True

theorem run_decide_under {r : Receipt} (hshape : Shape.of (w.lookup p) = .valid r)
    (h : Writable store i w p r) :
    (store.decide_under none p r s).run (machine Bytes) i w =
      (.ok (RecoveryStore.Summary.add s r.receipt_id (outcome ((verdict w r).state r))),
        settle store i w p r) :=
  run_seq (machine Bytes) i (run_attempt_ok (run_decide_locked hshape h))

theorem raises_decide_under {r : Receipt} (hshape : Shape.of (w.lookup p) = .valid r)
    (h : ¬ Writable store i w p r) : Raises (store.decide_under none p r s) i w :=
  (raises_decide_locked hshape h).attempt.seq

/-- A receipt is read without its lock where it is kept, and decided otherwise. -/
theorem recover_valid_cases {r : Receipt} {R : Except Err Summary × World Bytes → Prop}
    (hkeep : verdict w r = .keep → R (.ok (RecoveryStore.Summary.add { s with
      seen_backup_ids := if (get r.backup_file).truthy
        then s.seen_backup_ids ++ [Path.name (get r.backup_file).text] else s.seen_backup_ids }
      r.receipt_id (outcome r.tx_state)), w))
    (hdecide : R ((store.decide_under none p r { s with
      seen_backup_ids := if (get r.backup_file).truthy
        then s.seen_backup_ids ++ [Path.name (get r.backup_file).text]
        else s.seen_backup_ids }).run (machine Bytes) i w)) :
    R ((store.recover_valid none p r s).run (machine Bytes) i w) := by
  cases hs : r.tx_state with
  | RECOVERY_REQUIRED | RECOVERED_UNAPPLIED | ROLLED_BACK | SUPERSEDED =>
    have hverdict : verdict w r = .keep := by
      cases hop : r.original_operation <;> simp [verdict, hop, hs]
    have hdone := hkeep hverdict
    rw [hs] at hdone
    simp only [RecoveryStore.recover_valid, hs]
    exact hdone
  | PREPARED | APPLIED =>
    simp only [RecoveryStore.recover_valid, hs]
    exact hdecide
  | VERIFIED =>
    simp only [RecoveryStore.recover_valid, hs]
    cases hop : r.original_operation with
    | ROLLBACK => exact hdecide
    | FS_WRITE =>
      simp only [beq_self_eq_true, if_true]
      rw [run_seq (machine Bytes) i run_backup_ok]
      cases hbackup : backupHolds w r with
      | true =>
        have hdone := hkeep (by simp [verdict, hop, hs, hbackup])
        rw [hs] at hdone
        exact hdone
      | false => exact hdecide

theorem run_recover_valid {r : Receipt} (hshape : Shape.of (w.lookup p) = .valid r)
    (h : Writable store i w p r) :
    (store.recover_valid none p r s).run (machine Bytes) i w =
      (.ok (report w p s), settle store i w p r) := by
  have hreport : report w p s = RecoveryStore.Summary.add { s with
      seen_backup_ids := if (get r.backup_file).truthy
        then s.seen_backup_ids ++ [Path.name (get r.backup_file).text] else s.seen_backup_ids }
      r.receipt_id (outcome ((verdict w r).state r)) := by
    rw [report, hshape]
  refine recover_valid_cases (R := fun result => result = (.ok (report w p s), settle store i w p r))
    (fun hkeep => ?_) ?_
  · rw [hreport, settle, hkeep]
    rfl
  · rw [hreport]
    exact run_decide_under hshape h

theorem raises_recover_valid {r : Receipt} (hshape : Shape.of (w.lookup p) = .valid r)
    (h : ¬ Writable store i w p r) : Raises (store.recover_valid none p r s) i w := by
  refine recover_valid_cases (R := fun result => ∃ e w', result = (.error e, w') ∧
    e.isLockTimeout = false) (fun hkeep => ?_) (raises_decide_under hshape h)
  have hclear : Writable store i w p r := by
    refine ⟨fun hne => absurd hkeep hne, fun hfinal => ?_⟩
    rw [hkeep] at hfinal
    cases hfinal
  exact absurd hclear h

/-- What the scan makes of a file, by its shape. -/
theorem recover_file_cases {R : Except Err Summary × World Bytes → Prop}
    (hraises : ∀ e, Shape.of (w.lookup p) = .raises e → R (.error e, w))
    (hlisted : Shape.of (w.lookup p) = .unreadable ∨ Shape.of (w.lookup p) = .foreign →
      R (.ok (RecoveryStore.Summary.add s p.name .required), w))
    (hinvalid : ∀ object, Shape.of (w.lookup p) = .invalid object → R ((do
      let _ ← attempt (RecoveryStore.mark_invalid p (.obj object)) Err.isOSError
      pure (RecoveryStore.Summary.add s ((Shape.invalid object).label p) .required) :
        Jvc Bytes Summary).run (machine Bytes) i w))
    (hvalid : ∀ r, Shape.of (w.lookup p) = .valid r →
      R ((store.recover_valid none p r s).run (machine Bytes) i w)) :
    R ((store.recover_file none p s).run (machine Bytes) i w) := by
  obtain ⟨result, hrun, hshape⟩ := run_read_json (i := i) (w := w) (p := p)
  cases result with
  | error e =>
    obtain ⟨_, hof⟩ := hshape
    have hread : (attempt (read_json p : Jvc Bytes Document) unreadable).run (machine Bytes) i w =
        _ := run_attempt_error hrun
    cases hcaught : unreadable e with
    | true =>
      rw [hcaught, if_pos rfl] at hof hread
      have hfile : (store.recover_file none p s).run (machine Bytes) i w = _ :=
        run_seq (machine Bytes) i hread
      rw [hfile]
      exact hlisted (.inl hof)
    | false =>
      rw [hcaught, if_neg Bool.false_ne_true] at hof hread
      have hfile : (store.recover_file none p s).run (machine Bytes) i w = _ :=
        run_seq_error (machine Bytes) i hread
      rw [hfile]
      exact hraises e hof
  | ok doc =>
    have hfile : (store.recover_file none p s).run (machine Bytes) i w = _ :=
      run_seq (machine Bytes) i (run_attempt_ok hrun)
    rw [hfile]
    simp only
    cases hresult : validate_receipt doc with
    | ok r =>
      rw [validate_receipt_eq_ok hresult] at hshape
      exact hvalid r (by simpa [Shape.ofDocument] using hshape)
    | error e =>
      cases doc with
      | other v =>
        cases hresult
        exact hlisted (.inr hshape)
      | obj object =>
        simp only [Shape.ofDocument, hresult] at hshape
        cases hrecovery : e.isRecoveryError with
        | true =>
          rw [hrecovery, if_pos rfl] at hshape
          simp only [hrecovery, if_true]
          exact hinvalid object hshape
        | false =>
          rw [hrecovery, if_neg Bool.false_ne_true] at hshape
          simp only [hrecovery, Bool.false_eq_true, if_false]
          exact hraises e hshape

/-- The scan of one file. -/
theorem run_recover_file (h : Passable store i w p) :
    (store.recover_file none p s).run (machine Bytes) i w =
      (.ok (report w p s), scanned store i w p) := by
  unfold Passable at h
  refine recover_file_cases (R := fun result => result = (.ok (report w p s), scanned store i w p))
    (fun e he => ?_) (fun hlisted => ?_) (fun object hobject => ?_) fun r hr => ?_
  · rw [he] at h
    exact h.elim
  · rcases hlisted with hof | hof <;> simp only [report, scanned, hof, Shape.label]
  · rw [hobject] at h
    have hmark : (RecoveryStore.mark_invalid p (.obj object) : Jvc Bytes Unit).run (machine Bytes)
        i w = (.ok (), w.write i p (Host.dumps (marked object)) none) :=
      run_write_json h
    simp only [report, scanned, hobject]
    exact run_seq (machine Bytes) i (run_attempt_ok hmark)
  · rw [hr] at h
    simp only [scanned, hr]
    exact run_recover_valid hr h

theorem raises_recover_file (h : ¬ Passable store i w p) :
    Raises (store.recover_file none p s) i w := by
  unfold Passable at h
  refine recover_file_cases (R := fun result => ∃ e w', result = (.error e, w') ∧
    e.isLockTimeout = false) (fun e he => ⟨e, w, rfl, Shape.raises_plain he⟩) (fun hlisted => ?_)
      (fun object hobject => ?_) fun r hr => ?_
  · rcases hlisted with hof | hof <;> rw [hof] at h <;> exact absurd trivial h
  · rw [hobject] at h
    have hdeep : object.deep = true := by simpa using h
    have hfails : (RecoveryStore.mark_invalid p (.obj object) : Jvc Bytes Unit).run
        (machine Bytes) i w = (.error .RecursionError, w) := by
      simp only [RecoveryStore.mark_invalid, atomic_write_json, hdeep, if_true]
      rfl
    have hmark : (attempt (RecoveryStore.mark_invalid p (.obj object) : Jvc Bytes Unit)
        Err.isOSError).run (machine Bytes) i w = (.error .RecursionError, w) :=
      run_attempt_error hfails
    exact ⟨_, _, run_seq_error (machine Bytes) i hmark, rfl⟩
  · rw [hr] at h
    exact raises_recover_valid hr h

/-- Nothing stops the scan of a list of files. -/
inductive Clear (store : RecoveryStore) (i : Pid) : List Path → World Bytes → Prop
  | nil (w : World Bytes) : Clear store i [] w
  | cons {p : Path} {rest : List Path} {w : World Bytes} (head : Passable store i w p)
      (tail : Clear store i rest (scanned store i w p)) : Clear store i (p :: rest) w

/-- The files and the summary after the scan of a list of files. -/
def scan (store : RecoveryStore) (i : Pid) : List Path → World Bytes → World Bytes
  | [], w => w
  | p :: rest, w => scan store i rest (scanned store i w p)

def summarize (store : RecoveryStore) (i : Pid) : List Path → World Bytes → Summary → Summary
  | [], _, s => s
  | p :: rest, w, s => summarize store i rest (scanned store i w p) (report w p s)

theorem scan_restates (files : List Path) : Restates w (scan store i files w) := by
  induction files generalizing w with
  | nil => exact .refl w
  | cons p rest ih => exact scanned_restates.trans ih

theorem run_recover_scan {files : List Path} (h : Clear store i files w) :
    (store.recover_scan none files s).run (machine Bytes) i w =
      (.ok (summarize store i files w s), scan store i files w) := by
  induction h generalizing s with
  | nil => rfl
  | cons head _ ih => exact (run_seq (machine Bytes) i (run_recover_file head)).trans ih

theorem raises_recover_scan {files : List Path} (h : ¬ Clear store i files w) :
    Raises (store.recover_scan none files s) i w := by
  induction files generalizing w s with
  | nil => exact absurd (.nil w) h
  | cons p rest ih =>
    by_cases hhead : Passable store i w p
    · exact Raises.after (run_recover_file hhead) (ih fun htail => h (.cons hhead htail))
    · exact (raises_recover_file hhead).seq

/-- The receipt files in scan order. -/
def receiptFiles (store : RecoveryStore) (w : World Bytes) : List Path :=
  w.globbed store.root "recovery-" ".json" ++ w.globbed store.root "rollback-" ".json"

omit [Text] [Host Bytes] in
theorem run_iter_receipt_files :
    (store.iter_receipt_files : Jvc Bytes (List Path)).run (machine Bytes) i w =
      (.ok (receiptFiles store w), w) := rfl

/-- Restart recovery of a journal that nothing stops it at. -/
theorem run_recover (h : Clear store i (receiptFiles store w) w) :
    ∃ orphans, (store.recover none).run (machine Bytes) i w =
      (.ok { summarize store i (receiptFiles store w) w {} with orphans },
        scan store i (receiptFiles store w) w) := by
  refine ⟨_, (run_seq (machine Bytes) i run_iter_receipt_files).trans
    ((run_seq (machine Bytes) i (run_recover_scan h)).trans rfl)⟩

/-- Restart recovery returns exactly where nothing stops it. -/
theorem recover_returns_iff : (∃ s w', (store.recover none).run (machine Bytes) i w = (.ok s, w')) ↔
    Clear store i (receiptFiles store w) w := by
  constructor
  · rintro ⟨s, w', hrun⟩
    by_contra hstop
    have hscan : Raises (store.recover_scan none (receiptFiles store w) {}) i w :=
      raises_recover_scan hstop
    obtain ⟨e, w'', hraise, -⟩ : Raises (store.recover none) i w :=
      Raises.after run_iter_receipt_files hscan.seq
    rw [hraise] at hrun
    cases hrun
  · intro h
    obtain ⟨orphans, hrun⟩ := run_recover h
    exact ⟨_, _, hrun⟩

end Scanning

end jvc.recovery
