import Jvc.Recovery.Convergence

open program program.Prog

namespace jvc.recovery

variable {Bytes : Type} [Text] [Host Bytes] {store : RecoveryStore} {i : Pid} {w u : World Bytes}
  {p q : Path} {s : Summary} {done todo : List Path}

/-- What the object in a receipt file may be: its state is text, and a rollback
names the receipt of a write. -/
structure Legible (store : RecoveryStore) (data : Dict) : Prop where
  state : ∀ v, data.tx_state = some v → ∃ s, v = .str s
  source : data.original_operation = some (.str Operation.ROLLBACK.value) →
    textOf data.rollback_of = "" ∨
      globMatch store.root "recovery-" ".json" (store.source_path (textOf data.rollback_of)) = true

/-- Every receipt file is JSON text. -/
def Readable (store : RecoveryStore) (w : World Bytes) : Prop :=
  ∀ p data, store.isReceiptFile p = true → w.lookup p = some data →
    ∃ doc, Host.loads data = .ok doc ∧ ∀ object, doc = .obj object → Legible store object

/-- The id under which recovery reports a file, its name where it has no id. -/
def reportName (w : World Bytes) (p : Path) : String := (Shape.of (w.lookup p)).label p

/-- No two files are reported under one id. -/
def Distinct (store : RecoveryStore) (w : World Bytes) : Prop :=
  ∀ p ∈ receiptFiles store w, ∀ q ∈ receiptFiles store w, reportName w p = reportName w q → p = q

/-- The states of receipts that the report lists as recovered. -/
def TxState.recovered : TxState → Bool
  | .RECOVERED_UNAPPLIED | .ROLLED_BACK | .SUPERSEDED => true
  | _ => false

/-- The file holds a valid receipt that is VERIFIED. -/
def verifiedFile (w : World Bytes) (p : Path) : Bool :=
  match Shape.of (w.lookup p) with
  | .valid r => r.tx_state == .VERIFIED
  | _ => false

/-- The summary says of the given files what they hold. -/
structure Faithful (w : World Bytes) (files : List Path) (s : Summary) : Prop where
  required : ∀ p ∈ files, ∀ r, Shape.of (w.lookup p) = .valid r →
    (r.receipt_id ∈ s.recovery_required ↔ r.tx_state = .RECOVERY_REQUIRED)
  recovered : ∀ p ∈ files, ∀ r, Shape.of (w.lookup p) = .valid r →
    (r.receipt_id ∈ s.recovered ↔ r.tx_state.recovered = true)
  verified : s.verified = files.countP (verifiedFile w)

/-- The rollback in file `p` is completed, and its source is a receipt that the scan has
already passed and that is not settled. -/
def Undermines (store : RecoveryStore) (w : World Bytes) (done : List Path) (p : Path) : Prop :=
  ∃ r source, Shape.of (w.lookup p) = .valid r ∧ verdict w r = .finalize ∧
    textOf r.rollback_of ≠ "" ∧ store.source_path (textOf r.rollback_of) ∈ done ++ [p] ∧
      Shape.of (w.lookup (store.source_path (textOf r.rollback_of))) = .valid source ∧
        source.tx_state.recovered = false

instance : Decidable (Undermines store w done p) :=
  match hshape : Shape.of (w.lookup p) with
  | .valid r =>
    match hsource : Shape.of (w.lookup (store.source_path (textOf r.rollback_of))) with
    | .valid source =>
      decidable_of_iff (verdict w r = .finalize ∧ textOf r.rollback_of ≠ "" ∧
          store.source_path (textOf r.rollback_of) ∈ done ++ [p] ∧ source.tx_state.recovered = false) (by
        constructor
        · rintro ⟨hfinal, hempty, hmem, hstate⟩
          exact ⟨r, source, hshape, hfinal, hempty, hmem, hsource, hstate⟩
        · rintro ⟨r', source', hshape', hfinal, hempty, hmem, hsource', hstate⟩
          rw [hshape] at hshape'
          cases hshape'
          rw [hsource] at hsource'
          cases hsource'
          exact ⟨hfinal, hempty, hmem, hstate⟩)
    | .unreadable | .foreign | .invalid _ | .raises _ => .isFalse (by
        rintro ⟨r', source', hshape', _, _, _, hsource', _⟩
        rw [hshape] at hshape'
        cases hshape'
        rw [hsource] at hsource'
        cases hsource')
  | .unreadable | .foreign | .invalid _ | .raises _ => .isFalse (by
      rintro ⟨r', _, hshape', _⟩
      rw [hshape] at hshape'
      cases hshape')

section Reading

variable {w' : World Bytes}

theorem Readable.restates (h : Readable store w) (hw : Restates w w') : Readable store w' := by
  intro p data hp hdata
  rcases hw p with hsame | ⟨data₀, object, state, hdata₀, hload, hnew⟩
  · rw [hsame] at hdata
    exact h p data hp hdata
  · rw [hdata] at hnew
    cases hnew
    obtain ⟨doc, hdoc, hlegible⟩ := h p data₀ hp hdata₀
    rw [hload] at hdoc
    cases hdoc
    refine ⟨_, Host.loads_dumps _, ?_⟩
    rintro _ ⟨⟩
    exact ⟨fun v hv => ⟨_, (Option.some.inj hv).symm⟩, (hlegible object rfl).source⟩

theorem Readable.harmless (h : Readable store w) (hp : store.isReceiptFile p = true) :
    (Shape.of (w.lookup p)).Harmless := by
  cases hfile : w.lookup p with
  | none => intro e he; cases he
  | some data =>
    obtain ⟨doc, hload, hlegible⟩ := h p data hp hfile
    exact Shape.harmless_of_text hload fun object hobject => (hlegible object hobject).state

omit [Text] in
/-- The name of an object in a receipt file. -/
theorem label_document {object : Dict} (h : (Shape.ofDocument (.obj object)).Harmless) :
    (Shape.ofDocument (.obj object)).label p = (object.receipt_id.map Val.text).getD p.name := by
  cases hvalid : validate_receipt (.obj object) with
  | ok r =>
    have hshape : Shape.ofDocument (.obj object) = .valid r := by simp only [Shape.ofDocument, hvalid]
    rw [hshape, Document.obj.inj (validate_receipt_eq_ok hvalid)]
    rfl
  | error e =>
    simp only [Shape.ofDocument, hvalid] at h ⊢
    cases hrecovery : e.isRecoveryError with
    | true =>
      rw [if_pos rfl, Shape.label]
      cases object.receipt_id <;> rfl
    | false =>
      rw [hrecovery] at h
      exact absurd rfl (h e)

/-- Scans do not change the name of a file. -/
theorem Readable.same_name (h : Readable store w) (hw : Restates w w')
    (hp : store.isReceiptFile p = true) : reportName w' p = reportName w p := by
  have hold := h.harmless hp
  have hnew := (h.restates hw).harmless hp
  unfold reportName
  rcases hw p with hsame | ⟨data, object, state, hdata, hload, hnewdata⟩
  · rw [hsame]
  · rw [hdata] at hold ⊢
    rw [hnewdata] at hnew ⊢
    simp only [Shape.of, hload, Host.loads_dumps] at hold hnew ⊢
    rw [label_document hold, label_document hnew]

end Reading

/-- How recovery reports a file. -/
def reported (w : World Bytes) (p : Path) : Outcome :=
  match Shape.of (w.lookup p) with
  | .valid r => outcome ((verdict w r).state r)
  | _ => .required

section Reports

variable {id : String}

theorem report_eq (w : World Bytes) (p : Path) (s : Summary) : ∃ seen, report w p s =
    RecoveryStore.Summary.add { s with seen_backup_ids := seen } (reportName w p) (reported w p) := by
  unfold report reportName reported
  cases Shape.of (w.lookup p) with
  | valid r => exact ⟨_, rfl⟩
  | _ => exact ⟨s.seen_backup_ids, rfl⟩

theorem mem_required_report : id ∈ (report w p s).recovery_required ↔
    id ∈ s.recovery_required ∨ id = reportName w p ∧ reported w p = .required := by
  obtain ⟨seen, heq⟩ := report_eq w p s
  rw [heq]
  cases reported w p <;> simp [RecoveryStore.Summary.add]

theorem mem_recovered_report : id ∈ (report w p s).recovered ↔
    id ∈ s.recovered ∨ id = reportName w p ∧ reported w p = .recovered := by
  obtain ⟨seen, heq⟩ := report_eq w p s
  rw [heq]
  cases reported w p <;> simp [RecoveryStore.Summary.add]

theorem verified_report : (report w p s).verified =
    s.verified + if reported w p = .verified then 1 else 0 := by
  obtain ⟨seen, heq⟩ := report_eq w p s
  rw [heq]
  cases reported w p <;> simp [RecoveryStore.Summary.add]

end Reports

section Steps

variable {r : Receipt}

omit [Text] [Host Bytes] in
theorem outcome_recovered {state : TxState} :
    outcome state = .recovered ↔ state.recovered = true := by
  cases state <;> decide

omit [Text] [Host Bytes] in
theorem outcome_required {state : TxState} (h : state.incomplete = false) :
    outcome state = .required ↔ state = .RECOVERY_REQUIRED := by
  cases state <;> first | exact absurd h (by decide) | decide

omit [Text] [Host Bytes] in
theorem outcome_verified {state : TxState} : outcome state = .verified ↔ state = .VERIFIED := by
  cases state <;> decide

/-- A receipt is left in no incomplete state. -/
theorem verdict_decided (w : World Bytes) (r : Receipt) :
    ((verdict w r).state r).incomplete = false := by
  cases hverdict : verdict w r with
  | keep => exact verdict_keep hverdict
  | mark state =>
    obtain rfl | rfl | ⟨rfl, -⟩ := verdict_mark hverdict <;> rfl
  | finalize => rfl

/-- The receipt of a completed rollback was not settled before. -/
theorem finalize_unsettled (h : verdict w r = .finalize) : r.tx_state.recovered = false := by
  have hop := verdict_finalize h
  cases hs : r.tx_state <;> simp only [verdict, hop, hs] at h <;> first | rfl | cases h

theorem reported_valid (hshape : Shape.of (w.lookup p) = .valid r) :
    reported w p = outcome ((verdict w r).state r) := by
  rw [reported, hshape]

/-- A receipt is left as its verdict says, unless it is a rollback that is its own source. -/
theorem scanned_valid (store : RecoveryStore) (i : Pid) (done : List Path)
    (hshape : Shape.of (w.lookup p) = .valid r) :
    Shape.of ((scanned store i w p).lookup p) =
        .valid { r with tx_state := (verdict w r).state r } ∨
      Undermines store w done p ∧ reported w p = .verified ∧
        Shape.of ((scanned store i w p).lookup p) = .valid { r with tx_state := .ROLLED_BACK } := by
  rw [reported_valid hshape, scanned, hshape]
  simp only [settle]
  cases hverdict : verdict w r with
  | keep => exact .inl hshape
  | mark state =>
    left
    rw [lookup_rewrite_self, Shape.of_receipt]
    rfl
  | finalize =>
    have hself : Shape.of ((rewrite i w p r .VERIFIED).lookup p) =
        .valid { r with tx_state := .VERIFIED } := by
      rw [lookup_rewrite_self, Shape.of_receipt]
    simp only [closeSource]
    by_cases hempty : textOf r.rollback_of = ""
    · rw [if_pos hempty]
      exact .inl hself
    · rw [if_neg hempty]
      by_cases hsource : store.source_path (textOf r.rollback_of) = p
      · right
        rw [hsource, hself]
        refine ⟨⟨r, r, hshape, hverdict, hempty, ?_, ?_, finalize_unsettled hverdict⟩, rfl, ?_⟩
        · rw [hsource]
          exact List.mem_append_right done List.mem_cons_self
        · rw [hsource, hshape]
        · rw [lookup_rewrite_self, Shape.of_receipt]
      · left
        cases hfound : Shape.of ((rewrite i w p r .VERIFIED).lookup
            (store.source_path (textOf r.rollback_of))) with
        | valid source =>
          simp only []
          rw [lookup_rewrite_ne (Ne.symm hsource)]
          exact hself
        | _ => exact hself

/-- What is no receipt is none after the scan, or is left RECOVERY_REQUIRED. -/
theorem scanned_invalid (hinvalid : ∀ r, Shape.of (w.lookup p) ≠ .valid r)
    (hshape : Shape.of ((scanned store i w p).lookup p) = .valid r) :
    r.tx_state = .RECOVERY_REQUIRED ∧ reported w p = .required := by
  rw [scanned] at hshape
  rw [reported]
  cases hold : Shape.of (w.lookup p) with
  | valid old => exact absurd hold (hinvalid old)
  | invalid object =>
    rw [hold] at hshape
    simp only [World.lookup_write, if_true] at hshape
    obtain hstill | ⟨left, hleft, hstate⟩ := @Shape.of_marked Bytes _ _ object
    · rw [hstill] at hshape
      cases hshape
    · rw [hleft] at hshape
      cases hshape
      exact ⟨hstate, rfl⟩
  | _ =>
    rw [hold] at hshape
    exact absurd hshape (hinvalid r)

/-- The state a file is left in is the one that is reported. -/
theorem scanned_self (done : List Path)
    (hshape : Shape.of ((scanned store i w p).lookup p) = .valid r) :
    r.tx_state.incomplete = false ∧ reported w p = outcome r.tx_state ∨
      Undermines store w done p ∧ reported w p = .verified ∧ r.tx_state = .ROLLED_BACK := by
  by_cases hvalid : ∃ old, Shape.of (w.lookup p) = .valid old
  · obtain ⟨old, hold⟩ := hvalid
    obtain hleft | ⟨hundermines, hreported, hleft⟩ :=
      scanned_valid store i done hold
    · rw [hleft] at hshape
      cases hshape
      exact .inl ⟨verdict_decided w old, reported_valid hold⟩
    · rw [hleft] at hshape
      cases hshape
      exact .inr ⟨hundermines, hreported, rfl⟩
  · obtain ⟨hstate, hreported⟩ := scanned_invalid (fun old hold => hvalid ⟨old, hold⟩) hshape
    rw [hstate, hreported]
    exact .inl ⟨rfl, rfl⟩

/-- The source of a completed rollback is closed. -/
theorem scanned_source {source : Receipt} (hshape : Shape.of (w.lookup p) = .valid r)
    (hfinal : verdict w r = .finalize) (hempty : textOf r.rollback_of ≠ "")
    (hsource : Shape.of (w.lookup (store.source_path (textOf r.rollback_of))) = .valid source) :
    Shape.of ((scanned store i w p).lookup (store.source_path (textOf r.rollback_of))) =
      .valid { source with tx_state := .ROLLED_BACK } := by
  rw [scanned, hshape]
  simp only [settle, hfinal, closeSource, if_neg hempty]
  by_cases hself : store.source_path (textOf r.rollback_of) = p
  · rw [hself] at hsource ⊢
    rw [hshape] at hsource
    cases hsource
    rw [lookup_rewrite_self, Shape.of_receipt]
    simp only [lookup_rewrite_self, Shape.of_receipt]
  · rw [lookup_rewrite_ne hself, hsource]
    simp only [lookup_rewrite_self, Shape.of_receipt]

/-- The scan of a file leaves the receipts it has passed as they were, or closes one. -/
theorem scanned_other (store : RecoveryStore) (i : Pid) (w : World Bytes) (hq : q ∈ done)
    (hne : q ≠ p) :
    (scanned store i w p).lookup q = w.lookup q ∨
      ∃ source, Shape.of (w.lookup q) = .valid source ∧
        Shape.of ((scanned store i w p).lookup q) = .valid { source with tx_state := .ROLLED_BACK } ∧
          (source.tx_state.recovered = true ∨ Undermines store w done p) := by
  have hlookup : (scanned store i w p).lookup q = w.lookup q ∨ _ := lookup_scanned_ne hne
  obtain hsame | ⟨rollback, source, hvalid, hfinal, hempty, hpath, hsource, hnew⟩ := hlookup
  · exact .inl hsame
  · refine .inr ⟨source, hsource, by rw [hnew, Shape.of_receipt], ?_⟩
    cases hstate : source.tx_state.recovered with
    | true => exact .inl rfl
    | false =>
      refine .inr ⟨rollback, source, hvalid, hfinal, hempty, ?_, ?_, hstate⟩
      · rw [← hpath]
        exact List.mem_append_left [p] hq
      · rw [← hpath, hsource]

theorem verifiedFile_valid (hshape : Shape.of (w.lookup p) = .valid r) :
    verifiedFile w p = (r.tx_state == .VERIFIED) := by
  rw [verifiedFile, hshape]

/-- A file is left VERIFIED exactly where it is counted. -/
theorem verifiedFile_scanned (hnone : ¬ Undermines store w done p) :
    verifiedFile (scanned store i w p) p = true ↔ reported w p = .verified := by
  cases hshape : Shape.of ((scanned store i w p).lookup p) with
  | valid r =>
    obtain ⟨-, hreported⟩ | ⟨hundermines, -⟩ := scanned_self done hshape
    · rw [verifiedFile_valid hshape, hreported, outcome_verified]
      exact beq_iff_eq
    · exact absurd hundermines hnone
  | _ =>
    have hinvalid : ∀ r, Shape.of (w.lookup p) ≠ .valid r := by
      intro r hold
      obtain hleft | ⟨-, -, hleft⟩ :=
        scanned_valid store i done hold <;>
      · rw [hshape] at hleft
        cases hleft
    have hrequired : reported w p = .required := by
      rw [reported]
      cases hold : Shape.of (w.lookup p) with
      | valid r => exact absurd hold (hinvalid r)
      | _ => rfl
    rw [verifiedFile, hshape, hrequired]
    constructor <;>
    · intro h
      cases h

end Steps

section Runs

/-- The scan has passed the first files of a readable journal, each of which it reports under
another name. -/
structure Passing (store : RecoveryStore) (w : World Bytes) (done todo : List Path) (s : Summary) :
    Prop where
  readable : Readable store w
  files : ∀ p ∈ done ++ todo, store.isReceiptFile p = true
  names : ((done ++ todo).map (reportName w)).Nodup
  required : ∀ id ∈ s.recovery_required, id ∈ done.map (reportName w)
  recovered : ∀ id ∈ s.recovered, id ∈ done.map (reportName w)

variable {r : Receipt}

theorem reportName_valid (h : Shape.of (w.lookup p) = .valid r) : r.receipt_id = reportName w p := by
  rw [reportName, h]
  rfl

theorem Passing.fresh (h : Passing store w done (p :: todo) s) :
    reportName w p ∉ done.map (reportName w) := by
  have hnames := h.names
  rw [List.map_append, List.map_cons] at hnames
  exact fun hmem => (List.disjoint_of_nodup_append hnames) hmem List.mem_cons_self

theorem Passing.name_ne (h : Passing store w done (p :: todo) s) (hq : q ∈ done) :
    reportName w q ≠ reportName w p :=
  fun heq => h.fresh (heq ▸ List.mem_map_of_mem hq)

theorem Passing.path_ne (h : Passing store w done (p :: todo) s) (hq : q ∈ done) : q ≠ p :=
  fun heq => h.name_ne hq (congrArg (reportName w) heq)

/-- The names of the files stay. -/
theorem Passing.same_name (h : Passing store w done (p :: todo) s) (hq : q ∈ done ++ p :: todo) :
    reportName (scanned store i w p) q = reportName w q :=
  h.readable.same_name scanned_restates (h.files q hq)

theorem Passing.step (h : Passing store w done (p :: todo) s) :
    Passing store (scanned store i w p) (done ++ [p]) todo (report w p s) := by
  have hnames : ∀ q ∈ done ++ p :: todo,
      reportName (scanned store i w p) q = reportName w q :=
    fun q hq => h.same_name hq
  have hdone : (done ++ [p]).map (reportName (scanned store i w p)) =
      done.map (reportName w) ++ [reportName w p] := by
    rw [List.map_append, List.map_singleton, hnames p (by simp)]
    congr 1
    exact List.map_congr_left fun q hq => hnames q (List.mem_append_left _ hq)
  have happend : done ++ [p] ++ todo = done ++ p :: todo := by simp
  refine ⟨h.readable.restates scanned_restates, ?_, ?_, fun id hid => ?_, fun id hid => ?_⟩
  · rw [happend]
    exact h.files
  · rw [happend, List.map_congr_left hnames]
    exact h.names
  · rw [hdone]
    obtain hold | ⟨hname, -⟩ := mem_required_report.mp hid
    · exact List.mem_append_left _ (h.required id hold)
    · exact List.mem_append_right _ (List.mem_singleton.mpr hname)
  · rw [hdone]
    obtain hold | ⟨hname, -⟩ := mem_recovered_report.mp hid
    · exact List.mem_append_left _ (h.recovered id hold)
    · exact List.mem_append_right _ (List.mem_singleton.mpr hname)

/-- The scan of a file says nothing of the files it has passed. -/
theorem Passing.passed (h : Passing store w done (p :: todo) s) (hq : q ∈ done) :
    (reportName w q ∈ (report w p s).recovery_required ↔ reportName w q ∈ s.recovery_required) ∧
      (reportName w q ∈ (report w p s).recovered ↔ reportName w q ∈ s.recovered) := by
  rw [mem_required_report, mem_recovered_report]
  exact ⟨or_iff_left fun hname => h.name_ne hq hname.1, or_iff_left fun hname => h.name_ne hq hname.1⟩

/-- It says of its own file what it reports. -/
theorem Passing.own (h : Passing store w done (p :: todo) s) :
    (reportName w p ∈ (report w p s).recovery_required ↔ reported w p = .required) ∧
      (reportName w p ∈ (report w p s).recovered ↔ reported w p = .recovered) := by
  rw [mem_required_report, mem_recovered_report]
  constructor
  · rw [or_iff_right fun hold => h.fresh (h.required _ hold)]
    exact and_iff_right rfl
  · rw [or_iff_right fun hold => h.fresh (h.recovered _ hold)]
    exact and_iff_right rfl

/-- What the summary says of a file that was passed and is as it was, or was settled and
is closed now. -/
theorem Faithful.kept (h : Faithful w done s) (hpass : Passing store w done (p :: todo) s)
    (hnone : ¬ Undermines store w done p) (hq : q ∈ done)
    (hshape : Shape.of ((scanned store i w p).lookup q) = .valid r) :
    (r.receipt_id ∈ (report w p s).recovery_required ↔ r.tx_state = .RECOVERY_REQUIRED) ∧
      (r.receipt_id ∈ (report w p s).recovered ↔ r.tx_state.recovered = true) := by
  obtain ⟨hrequired, hrecovered⟩ := hpass.passed hq
  obtain hsame | ⟨source, hsource, hclosed, hsettled⟩ :=
    scanned_other store i w hq (hpass.path_ne hq)
  · rw [hsame] at hshape
    rw [← reportName_valid hshape] at hrequired hrecovered
    exact ⟨hrequired.trans (h.required q hq r hshape), hrecovered.trans (h.recovered q hq r hshape)⟩
  · rw [hclosed] at hshape
    cases hshape
    have hstate := hsettled.resolve_right hnone
    rw [← reportName_valid hsource] at hrequired hrecovered
    constructor
    · refine hrequired.trans ((h.required q hq source hsource).trans ?_)
      constructor <;> intro heq
      · rw [heq] at hstate
        cases hstate
      · cases heq
    · exact hrecovered.trans ((h.recovered q hq source hsource).trans (iff_of_true hstate rfl))

/-- The files that are counted stay VERIFIED. -/
theorem verifiedFile_passed (hpass : Passing store w done (p :: todo) s)
    (hnone : ¬ Undermines store w done p) (hq : q ∈ done) :
    verifiedFile (scanned store i w p) q = verifiedFile w q := by
  obtain hsame | ⟨source, hsource, hclosed, hsettled⟩ :=
    scanned_other store i w hq (hpass.path_ne hq)
  · rw [verifiedFile, verifiedFile, hsame]
  · have hstate := hsettled.resolve_right hnone
    rw [verifiedFile_valid hclosed, verifiedFile_valid hsource]
    cases hs : source.tx_state <;> rw [hs] at hstate <;> first | rfl | cases hstate

/-- Where no source is closed behind the scan, the summary stays true. -/
theorem Faithful.step (h : Faithful w done s) (hpass : Passing store w done (p :: todo) s)
    (hnone : ¬ Undermines store w done p) :
    Faithful (scanned store i w p) (done ++ [p]) (report w p s) := by
  have hown : ∀ r, Shape.of ((scanned store i w p).lookup p) = .valid r →
      r.receipt_id = reportName w p ∧ r.tx_state.incomplete = false ∧
        reported w p = outcome r.tx_state := by
    intro r hshape
    obtain hleft | ⟨hundermines, -⟩ := scanned_self done hshape
    · exact ⟨(reportName_valid hshape).trans (hpass.same_name (by simp)), hleft⟩
    · exact absurd hundermines hnone
  refine ⟨fun q hq r hshape => ?_, fun q hq r hshape => ?_, ?_⟩
  · obtain hq | hq := List.mem_append.mp hq
    · exact (h.kept hpass hnone hq hshape).1
    · cases List.mem_singleton.mp hq
      obtain ⟨hname, hdecided, hreported⟩ := hown r hshape
      rw [hname, hpass.own.1, hreported, outcome_required hdecided]
  · obtain hq | hq := List.mem_append.mp hq
    · exact (h.kept hpass hnone hq hshape).2
    · cases List.mem_singleton.mp hq
      obtain ⟨hname, hdecided, hreported⟩ := hown r hshape
      rw [hname, hpass.own.2, hreported, outcome_recovered]
  · have hpassed : done.countP (verifiedFile (scanned store i w p)) = done.countP (verifiedFile w) :=
      List.countP_congr fun q hq => by rw [verifiedFile_passed hpass hnone hq]
    have hlast : verifiedFile (scanned store i w p) p = true ↔ reported w p = .verified :=
      verifiedFile_scanned hnone
    rw [verified_report, List.countP_append, hpassed, h.verified, List.countP_singleton]
    simp only [hlast]

/-- A summary that stays true over the whole scan. -/
theorem Faithful.scan (h : Faithful w done s) (hpass : Passing store w done todo s)
    (hnone : ∀ before p after, todo = before ++ p :: after →
      ¬ Undermines store (scan store i before w) (done ++ before) p) :
    Faithful (scan store i todo w) (done ++ todo) (summarize store i todo w s) := by
  induction todo generalizing w done s with
  | nil =>
    rw [List.append_nil]
    exact h
  | cons p rest ih =>
    have hfirst := hnone [] p rest rfl
    rw [List.append_nil] at hfirst
    have hstep := ih (h.step (i := i) hpass hfirst) hpass.step fun before q after heq => by
      rw [List.append_assoc, List.singleton_append]
      exact hnone (p :: before) q after (by rw [heq, List.cons_append])
    rw [List.append_assoc, List.singleton_append] at hstep
    exact hstep

/-- No receipt that is not settled was reported as recovered. -/
def Unsettled (w : World Bytes) (done : List Path) (s : Summary) : Prop :=
  ∀ q ∈ done, ∀ r, Shape.of (w.lookup q) = .valid r → r.tx_state.recovered = false →
    r.receipt_id ∉ s.recovered

/-- The file is settled, and was not reported as recovered. -/
def Missed (w : World Bytes) (q : Path) (s : Summary) : Prop :=
  ∃ r, Shape.of (w.lookup q) = .valid r ∧ r.tx_state.recovered = true ∧ r.receipt_id ∉ s.recovered

theorem Unsettled.step (h : Unsettled w done s) (hpass : Passing store w done (p :: todo) s) :
    Unsettled (scanned store i w p) (done ++ [p]) (report w p s) := by
  intro q hq r hshape hstate
  obtain hq | hq := List.mem_append.mp hq
  · obtain hsame | ⟨source, -, hclosed, -⟩ :=
      scanned_other store i w hq (hpass.path_ne hq)
    · rw [hsame] at hshape
      have hpassed := (hpass.passed hq).2
      rw [← reportName_valid hshape] at hpassed
      exact fun hmem => h q hq r hshape hstate (hpassed.mp hmem)
    · rw [hclosed] at hshape
      cases hshape
      cases hstate
  · cases List.mem_singleton.mp hq
    rw [(reportName_valid hshape).trans (hpass.same_name (by simp)), hpass.own.2]
    obtain ⟨-, hreported⟩ | ⟨-, -, hrolled⟩ := scanned_self done hshape
    · rw [hreported, outcome_recovered, hstate]
      decide
    · rw [hrolled] at hstate
      cases hstate

/-- What was missed stays missed. -/
theorem Missed.step (h : Missed w q s) (hpass : Passing store w done (p :: todo) s)
    (hq : q ∈ done) : Missed (scanned store i w p) q (report w p s) := by
  obtain ⟨r, hshape, hstate, hmissed⟩ := h
  have hpassed := (hpass.passed hq).2
  rw [← reportName_valid hshape] at hpassed
  obtain hsame | ⟨source, hsource, hclosed, -⟩ :=
    scanned_other store i w hq (hpass.path_ne hq)
  · exact ⟨r, hsame ▸ hshape, hstate, fun hmem => hmissed (hpassed.mp hmem)⟩
  · rw [hshape] at hsource
    cases hsource
    exact ⟨_, hclosed, rfl, fun hmem => hmissed (hpassed.mp hmem)⟩

/-- A source that is closed behind the scan is missed. -/
theorem Undermines.missed (h : Undermines store w done p) (hunsettled : Unsettled w done s)
    (hpass : Passing store w done (p :: todo) s) :
    ∃ q ∈ done ++ [p], Missed (scanned store i w p) q (report w p s) := by
  obtain ⟨r, source, hshape, hfinal, hempty, hmem, hsource, hstate⟩ := h
  refine ⟨_, hmem, _, scanned_source hshape hfinal hempty hsource, rfl, ?_⟩
  obtain hdone | hself := List.mem_append.mp hmem
  · have hpassed := (hpass.passed hdone).2
    rw [← reportName_valid hsource] at hpassed
    exact fun hmissed => hunsettled _ hdone source hsource hstate (hpassed.mp hmissed)
  · have hsame := List.mem_singleton.mp hself
    have hname : source.receipt_id = reportName w p := by
      rw [← hsame]
      exact reportName_valid hsource
    rw [hname, hpass.own.2, reported_valid hshape, hfinal]
    change ¬ Outcome.verified = .recovered
    decide

theorem scan_append {before after : List Path} :
    scan store i (before ++ after) w = scan store i after (scan store i before w) := by
  induction before generalizing w with
  | nil => rfl
  | cons p rest ih => exact ih

theorem summarize_append {before after : List Path} :
    summarize store i (before ++ after) w s =
      summarize store i after (scan store i before w) (summarize store i before w s) := by
  induction before generalizing w s with
  | nil => rfl
  | cons p rest ih => exact ih

/-- The first part of the scan. -/
theorem Unsettled.scan {before : List Path} (h : Unsettled w done s)
    (hpass : Passing store w done (before ++ todo) s) :
    Unsettled (scan store i before w) (done ++ before) (summarize store i before w s) ∧
      Passing store (scan store i before w) (done ++ before) todo (summarize store i before w s) := by
  induction before generalizing w done s with
  | nil =>
    rw [List.append_nil]
    exact ⟨h, hpass⟩
  | cons p rest ih =>
    have hrest := ih (h.step (i := i) hpass) hpass.step
    rw [List.append_assoc, List.singleton_append] at hrest
    exact hrest

theorem Missed.scan (h : Missed w q s) (hpass : Passing store w done todo s) (hq : q ∈ done) :
    Missed (scan store i todo w) q (summarize store i todo w s) := by
  induction todo generalizing w done s with
  | nil => exact h
  | cons p rest ih => exact ih (h.step (i := i) hpass hq) hpass.step (List.mem_append_left [p] hq)

/-- A true summary misses no file, so no source was closed behind the scan. -/
theorem Faithful.spared (hpass : Passing store w done todo s) (hunsettled : Unsettled w done s)
    (h : Faithful (recovery.scan store i todo w) (done ++ todo) (summarize store i todo w s))
    {before after : List Path} (htodo : todo = before ++ p :: after) :
    ¬ Undermines store (recovery.scan store i before w) (done ++ before) p := by
  subst htodo
  intro hundermines
  obtain ⟨hunsettled', hpass'⟩ := hunsettled.scan (i := i) hpass
  obtain ⟨q, hq, hmissed⟩ := hundermines.missed (i := i) hunsettled' hpass'
  obtain ⟨r, hshape, hstate, hno⟩ := hmissed.scan (i := i) hpass'.step hq
  rw [scan_append, summarize_append] at h
  have hmem : q ∈ done ++ (before ++ p :: after) := by
    simp only [List.mem_append, List.mem_cons, List.not_mem_nil, or_false] at hq ⊢
    tauto
  exact hno ((h.recovered q hmem r hshape).mpr hstate)

end Runs

/-- The report says of every valid receipt what state it was left in. -/
def Truthful (store : RecoveryStore) (w : World Bytes) (s : Summary) : Prop :=
  Faithful w (receiptFiles store w) s

/-- A restart recovery that returns tells the truth exactly where it completes no rollback whose
source the scan has passed while it was not settled. -/
theorem recover_truthful_iff (store : RecoveryStore) (i : Pid) (w w' : World Bytes) (s : Summary)
    (hw : Readable store w) (hdistinct : Distinct store w)
    (hreturns : (store.recover none).run (machine Bytes) i w = (.ok s, w')) :
    Truthful store w' s ↔ ∀ done p todo, receiptFiles store w = done ++ p :: todo →
      ¬ Undermines store (scan store i done w) done p := by
  have hfiles : ∀ p ∈ receiptFiles store w, store.isReceiptFile p = true :=
    fun p hp => (mem_receiptFiles.mp hp).1
  obtain ⟨orphans, hrun⟩ := run_recover (recover_returns_iff.mp ⟨s, w', hreturns⟩)
  rw [hreturns] at hrun
  cases hrun
  have hpass : Passing store w [] (receiptFiles store w) {} := by
    refine ⟨hw, hfiles, ?_, fun id hid => absurd hid List.not_mem_nil,
      fun id hid => absurd hid List.not_mem_nil⟩
    exact List.Nodup.map_on hdistinct receiptFiles_nodup
  have hsame : (receiptFiles store (scan store i (receiptFiles store w) w)).Perm
      (receiptFiles store w) := by
    refine (List.perm_ext_iff_of_nodup receiptFiles_nodup receiptFiles_nodup).mpr fun p => ?_
    rw [mem_receiptFiles, mem_receiptFiles, (scan_restates _).isSome]
  have hperm : ∀ {s : Summary}, Truthful store (scan store i (receiptFiles store w) w) s ↔
      Faithful (scan store i (receiptFiles store w) w) (receiptFiles store w) s := by
    intro s
    constructor
    · intro h
      exact ⟨fun p hp => h.required p (hsame.mem_iff.mpr hp),
        fun p hp => h.recovered p (hsame.mem_iff.mpr hp), h.verified.trans (hsame.countP_eq _)⟩
    · intro h
      exact ⟨fun p hp => h.required p (hsame.mem_iff.mp hp),
        fun p hp => h.recovered p (hsame.mem_iff.mp hp), h.verified.trans (hsame.countP_eq _).symm⟩
  rw [hperm]
  constructor
  · intro h done p todo htodo
    have hfaithful : Faithful (scan store i (receiptFiles store w) w) ([] ++ receiptFiles store w)
        (summarize store i (receiptFiles store w) w {}) := ⟨h.required, h.recovered, h.verified⟩
    exact hfaithful.spared hpass (fun q hq => absurd hq List.not_mem_nil) htodo
  · intro h
    have hstart : Faithful w [] ({} : Summary) := ⟨fun q hq => absurd hq List.not_mem_nil,
      fun q hq => absurd hq List.not_mem_nil, rfl⟩
    have hend := hstart.scan hpass h
    exact ⟨hend.required, hend.recovered, hend.verified⟩

end jvc.recovery

namespace jvc.recovery

section Samples

attribute [local instance] asciiText sampleHost

/-- A rollback that stopped between its last two writes: its own receipt is VERIFIED, and so
is still the write that it undid. -/
def sampleHalfway : World SampleBytes := sampleWorld
  [("/store/recovery-a.json", .object (sampleWrite "recovery-a" .VERIFIED .null .null (.str "1A"))),
   ("/store/rollback-c.json", .object (sampleRollback "rollback-c" .VERIFIED "recovery-a" .null))]

/-- A completed rollback, the write that it undid, and an interrupted write. -/
def sampleCompleted : World SampleBytes := sampleWorld
  [("/store/recovery-a.json", .object (sampleWrite "recovery-a" .ROLLED_BACK .null .null (.str "1A"))),
   ("/store/recovery-b.json", .object (sampleWrite "recovery-b" .PREPARED .null .null .null)),
   ("/store/rollback-c.json", .object (sampleRollback "rollback-c" .VERIFIED "recovery-a" .null))]

/-- A journal is readable if its files are, taken one by one. -/
theorem sampleWorld_readable {files : List (Path × SampleBytes)}
    (h : ∀ file ∈ files, ∃ object, file.2 = .object object ∧ Legible sampleStore object) :
    Readable sampleStore (sampleWorld files) := by
  intro p data _ hdata
  obtain ⟨object, hobject, hlegible⟩ := h _ (sampleWorld_lookup hdata)
  refine ⟨.obj object, ?_, fun object' heq => ?_⟩
  · rw [show data = .object object from hobject]
    rfl
  · cases heq
    exact hlegible

theorem sampleWrite_legible {id : String} {state : TxState} {backup pre post : Val} :
    Legible sampleStore (sampleWrite id state backup pre post) := by
  have hwrite : some (Val.str "FS_WRITE") ≠ some (.str Operation.ROLLBACK.value) := by decide
  exact ⟨fun _ hv => ⟨_, (Option.some.inj hv).symm⟩, fun hop => absurd hop hwrite⟩

theorem sampleRollback_legible {id source : String} {state : TxState} {expected : Val}
    (h : globMatch "/store" "recovery-" ".json" (sampleStore.source_path source) = true) :
    Legible sampleStore (sampleRollback id state source expected) :=
  ⟨fun _ hv => ⟨_, (Option.some.inj hv).symm⟩, fun _ => .inr h⟩

theorem sampleCompleted_readable : Readable sampleStore sampleCompleted := by
  apply sampleWorld_readable
  simp only [List.forall_mem_cons, List.not_mem_nil, false_implies, implies_true, and_true]
  exact ⟨⟨_, rfl, sampleWrite_legible⟩, ⟨_, rfl, sampleWrite_legible⟩,
    ⟨_, rfl, sampleRollback_legible (by decide +kernel)⟩⟩

theorem recover_truthful_completed : ∃ s w', (sampleStore.recover none).run (machine SampleBytes) 0
    sampleCompleted = (.ok s, w') ∧ Truthful sampleStore w' s := by
  obtain ⟨s, w', hreturns⟩ := sample_returns (w := sampleCompleted) (by decide +kernel)
  refine ⟨s, w', hreturns, ?_⟩
  have hdistinct : Distinct sampleStore sampleCompleted := by
    unfold Distinct
    decide +kernel
  have hfiles : receiptFiles sampleStore sampleCompleted =
      ["/store/recovery-a.json", "/store/recovery-b.json", "/store/rollback-c.json"] := by
    decide +kernel
  apply (recover_truthful_iff sampleStore 0 sampleCompleted w' s sampleCompleted_readable hdistinct
    hreturns).mpr
  intro done p todo hsplit
  rw [hfiles] at hsplit
  obtain _ | ⟨_, _ | ⟨_, _ | ⟨_, done⟩⟩⟩ := done
  · cases hsplit
    decide +kernel
  · cases hsplit
    decide +kernel
  · cases hsplit
    decide +kernel
  · cases done <;> cases hsplit

theorem sampleHalfway_readable : Readable sampleStore sampleHalfway := by
  apply sampleWorld_readable
  simp only [List.forall_mem_cons, List.not_mem_nil, false_implies, implies_true, and_true]
  exact ⟨⟨_, rfl, sampleWrite_legible⟩, ⟨_, rfl, sampleRollback_legible (by decide +kernel)⟩⟩

theorem sampleHalfway_distinct : Distinct sampleStore sampleHalfway := by
  unfold Distinct
  decide +kernel

/-- The write is counted as VERIFIED, and closed when the scan comes to its rollback. -/
theorem recover_misreports : ¬ ∀ (w w' : World SampleBytes) (s : Summary),
    Readable sampleStore w → Distinct sampleStore w →
      (sampleStore.recover none).run (machine SampleBytes) 0 w = (.ok s, w') →
        Truthful sampleStore w' s := by
  intro h
  have htwo : ((sampleStore.recover none).run (machine SampleBytes) 0 sampleHalfway).1.toOption.map
      Summary.verified = some 2 := by
    decide +kernel
  have hcount : (receiptFiles sampleStore
      ((sampleStore.recover none).run (machine SampleBytes) 0 sampleHalfway).2).countP
        (verifiedFile ((sampleStore.recover none).run (machine SampleBytes) 0 sampleHalfway).2) = 1 := by
    decide +kernel
  cases hrun : (sampleStore.recover none).run (machine SampleBytes) 0 sampleHalfway with
  | mk result w' =>
    rw [hrun] at htwo hcount
    cases result with
    | error e => cases htwo
    | ok s =>
      have hverified := (h _ w' s sampleHalfway_readable sampleHalfway_distinct hrun).verified
      have hs : s.verified = 2 := Option.some.inj htwo
      simp only at hcount
      omega

end Samples

end jvc.recovery
