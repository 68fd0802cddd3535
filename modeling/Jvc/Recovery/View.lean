import Jvc.Policy.Canonical
import Jvc.Recovery.Journal

open program

namespace jvc.recovery

variable {Bytes : Type}

/-- The canonical path of a governed file, which lies outside the store. -/
structure Target (store : RecoveryStore) where
  path : Path
  path_ne : path ≠ ""
  resolved : policy.resolved path = path
  outside : is_within_store path store.root = false

/-- The lock of a target, whichever project the operation is for. -/
def Target.lock {store : RecoveryStore} (t : Target store) : LockName :=
  lock_name_for_resource .fs t.path

section Paths

theorem globMatch_append {dir front back middle : String} (hfront : '/' ∉ front.toList)
    (hmiddle : '/' ∉ middle.toList) (hback : '/' ∉ back.toList) :
    globMatch dir front back (dir ++ "/" ++ (front ++ middle) ++ back) = true := by
  have hdrop : ((dir ++ "/" ++ (front ++ middle) ++ back).toList.drop (dir ++ "/").length) =
      front.toList ++ middle.toList ++ back.toList := by
    rw [← String.length_toList]
    simp [List.drop_append]
  have hdropFront : ((dir ++ "/" ++ (front ++ middle) ++ back).toList.drop
      (dir ++ "/" ++ front).length) = middle.toList ++ back.toList := by
    rw [← String.length_toList]
    simp [List.drop_append]
  have hstart : (dir ++ "/" ++ front).toList.isPrefixOf
      (dir ++ "/" ++ (front ++ middle) ++ back).toList = true := by
    rw [List.isPrefixOf_iff_prefix]
    exact ⟨middle.toList ++ back.toList, by simp⟩
  have hsuffix : back.toList.isSuffixOf (middle.toList ++ back.toList) = true := by
    rw [List.isSuffixOf_iff_suffix]
    exact List.suffix_append _ _
  simp only [globMatch, hdrop, hdropFront, hstart, hsuffix, Bool.true_and, Bool.not_eq_true']
  simpa using ⟨hfront, hmiddle, hback⟩

/-- The files the journal scans look at. -/
def RecoveryStore.isReceiptFile (self : RecoveryStore) (p : Path) : Bool :=
  globMatch self.root "recovery-" ".json" p || globMatch self.root "rollback-" ".json" p

/-- A receipt file is a write's or a rollback's, not both. -/
theorem glob_exclusive {root : String} {p : Path}
    (hrecovery : globMatch root "recovery-" ".json" p = true)
    (hrollback : globMatch root "rollback-" ".json" p = true) : False := by
  simp only [globMatch, Bool.and_eq_true, List.isPrefixOf_iff_prefix] at hrecovery hrollback
  obtain ⟨rest₁, hrest₁⟩ := hrecovery.1.1
  obtain ⟨rest₂, hrest₂⟩ := hrollback.1.1
  have heq := hrest₁.trans hrest₂.symm
  simp [List.append_assoc] at heq

variable {self : RecoveryStore}

theorem receipt_path_inj {a b : String} (h : self.receipt_path a = self.receipt_path b) : a = b := by
  simpa [RecoveryStore.receipt_path] using h

theorem backup_path_inj {a b : String} (h : self.backup_path a = self.backup_path b) : a = b := by
  simpa [RecoveryStore.backup_path] using h

theorem receipt_path_ne_backup_path (a b : String) : self.receipt_path a ≠ self.backup_path b := by
  intro h
  have hends := congrArg (fun s => s.toList.reverse.take 2) h
  simp [RecoveryStore.receipt_path, RecoveryStore.backup_path] at hends

/-- An absolute path is located at itself. -/
theorem located_of_resolved [Text] [Host Bytes] {text : String}
    (h : policy.resolved text = text) : located Bytes text = text := by
  have habsolute : text.toList.head? = some '/' := by
    rw [← h, policy.resolved, policy.ofParts, String.toList_append]
    rfl
  rw [located, if_pos habsolute, h]

theorem Target.located [Text] [Host Bytes] (t : Target self) : located Bytes t.path = t.path :=
  located_of_resolved t.resolved

/-- The backup of an id without separators is located where it was written. -/
theorem located_backup_path [Text] [Host Bytes] {id : String} (h : '/' ∉ id.toList) :
    located Bytes (self.backup_path id) = self.backup_path id := by
  have hname : self.backup_path id = self.root ++ "/" ++ (id ++ ".bak") := by
    simp only [RecoveryStore.backup_path, String.append_assoc]
  have hlast : ∀ name : String, name.toList.getLast? ≠ some 'k' → id ++ ".bak" ≠ name := by
    rintro _ hend rfl
    rw [String.toList_append, List.getLast?_append] at hend
    exact hend rfl
  have hflat : '/' ∉ (id ++ ".bak").toList := by
    rw [String.toList_append, List.mem_append, not_or]
    exact ⟨h, by decide⟩
  rw [hname]
  refine located_of_resolved (policy.resolved_append self.resolved self.root_ne fun x hx => ?_)
  obtain rfl := List.mem_singleton.mp hx
  exact ⟨hlast _ (by decide), hlast _ (by decide), hlast _ (by decide), hflat⟩

theorem Target.path_ne_append (t : Target self) (rest : String) :
    t.path ≠ self.root ++ "/" ++ rest := by
  intro h
  have hout := t.outside
  simp only [is_within_store, Bool.or_eq_false_iff] at hout
  have hstart : (self.root ++ "/").toList.isPrefixOf t.path.toList = true := by
    rw [List.isPrefixOf_iff_prefix, h]
    exact ⟨rest.toList, by simp⟩
  rw [hstart] at hout
  exact absurd hout.2 (by decide)

theorem Target.path_ne_receipt_path (t : Target self) (id : String) :
    t.path ≠ self.receipt_path id := by
  have h := t.path_ne_append (id ++ ".json")
  simpa [RecoveryStore.receipt_path, String.append_assoc] using h

theorem Target.path_ne_backup_path (t : Target self) (id : String) :
    t.path ≠ self.backup_path id := by
  have h := t.path_ne_append (id ++ ".bak")
  simpa [RecoveryStore.backup_path, String.append_assoc] using h

theorem Target.not_receiptFile (t : Target self) : self.isReceiptFile t.path = false := by
  have hno : ∀ front : String,
      (self.root ++ "/" ++ front).toList.isPrefixOf t.path.toList = false := by
    intro front
    by_contra h
    rw [Bool.not_eq_false, List.isPrefixOf_iff_prefix] at h
    obtain ⟨rest, hrest⟩ := h
    refine t.path_ne_append (front ++ String.ofList rest) (String.toList_injective ?_)
    rw [← hrest]
    simp
  simp only [RecoveryStore.isReceiptFile, globMatch, hno, Bool.false_and, Bool.or_self]

theorem Entry.name_flat (e : Entry Bytes) : '/' ∉ (e.kind.name ++ "-").toList := by
  cases h : e.kind <;> simp [Kind.name]

theorem Entry.rest_flat (e : Entry Bytes) :
    '/' ∉ (e.project_id.text ++ "-" ++ e.stamp.text).toList := by
  simpa using ⟨e.project_id.flat, e.stamp.flat⟩

/-- An id without slashes names a file of the store itself. -/
theorem source_path_flat {id : String} (h : '/' ∉ id.toList) :
    self.source_path id = self.receipt_path id := by
  rw [RecoveryStore.source_path, if_neg h]

theorem Entry.id_flat (e : Entry Bytes) : '/' ∉ e.receipt_id.toList := by
  have hname := e.name_flat
  have hrest := e.rest_flat
  simp only [Entry.receipt_id, String.toList_append, List.mem_append] at hname hrest ⊢
  tauto

theorem Entry.source_path (e : Entry Bytes) :
    self.source_path e.receipt_id = self.receipt_path e.receipt_id := source_path_flat e.id_flat

theorem Entry.located_backup [Text] [Host Bytes] (e : Entry Bytes) :
    located Bytes (self.backup_path e.receipt_id) = self.backup_path e.receipt_id :=
  located_backup_path e.id_flat

/-- A receipt file is found by the pattern of its kind. -/
theorem Entry.glob_name (e : Entry Bytes) :
    globMatch self.root (e.kind.name ++ "-") ".json" (self.receipt_path e.receipt_id) = true := by
  have h : globMatch self.root (e.kind.name ++ "-") ".json" (self.root ++ "/" ++
      (e.kind.name ++ "-" ++ (e.project_id.text ++ "-" ++ e.stamp.text)) ++ ".json") = true :=
    globMatch_append e.name_flat e.rest_flat (by decide)
  simpa [RecoveryStore.receipt_path, Entry.receipt_id, String.append_assoc] using h

theorem Entry.isReceiptFile (e : Entry Bytes) :
    self.isReceiptFile (self.receipt_path e.receipt_id) = true := by
  have h : globMatch self.root (e.kind.name ++ "-") ".json"
      (self.receipt_path e.receipt_id) = true := e.glob_name
  cases hk : e.kind with
  | write =>
    rw [hk] at h
    exact Bool.or_eq_true_iff.mpr (.inl h)
  | rollback =>
    rw [hk] at h
    exact Bool.or_eq_true_iff.mpr (.inr h)

/-- The receipt file of a write is found by the pattern of its project. -/
theorem Entry.glob_project (e : Entry Bytes) (hw : e.kind.isWrite = true) :
    globMatch self.root ("recovery-" ++ e.project_id.text ++ "-") ".json"
      (self.receipt_path e.receipt_id) = true := by
  have hfront : '/' ∉ ("recovery-" ++ e.project_id.text ++ "-").toList := by
    simpa using e.project_id.flat
  have h : globMatch self.root ("recovery-" ++ e.project_id.text ++ "-") ".json" (self.root ++ "/" ++
      ("recovery-" ++ e.project_id.text ++ "-" ++ e.stamp.text) ++ ".json") = true :=
    globMatch_append hfront e.stamp.flat (by decide)
  cases hk : e.kind with
  | write =>
    simpa [RecoveryStore.receipt_path, Entry.receipt_id, hk, Kind.name, String.append_assoc] using h
  | rollback =>
    rw [hk] at hw
    cases hw

end Paths

section Receipts

variable {store : RecoveryStore} (t : Target store)

def Kind.preimage_exists : Kind Bytes → Bool
  | .write _ pre _ _ => pre.isSome
  | .rollback .. => true

def Entry.details (store : RecoveryStore) (e : Entry Bytes) : Details :=
  match e.kind with
  | .write prev pre post _ =>
    { prev_receipt_id := some (RecoveryStore.optStr prev)
      preimage_sha256 := some (RecoveryStore.optStr pre)
      postimage_sha256 := some (RecoveryStore.optStr post)
      backup_file := some (RecoveryStore.optStr (pre.map fun _ => store.backup_path e.receipt_id))
      seq := some (.int e.seq) }
  | .rollback source expected restored =>
    { preimage_sha256 := some (.str expected)
      postimage_sha256 := some .null
      backup_file := some .null
      seq := some (.int e.seq)
      rollback_of := some (.str source)
      expected_postimage_sha256 := some (.str expected)
      restored_sha256 := some (RecoveryStore.optStr restored) }

/-- The receipt an entry stands for. -/
def Entry.receipt (e : Entry Bytes) : Receipt :=
  { e.details store with
    receipt_id := e.receipt_id
    project_id := e.project_id.text
    path := t.path
    original_operation := e.kind.operation
    preimage_exists := e.kind.preimage_exists
    tx_state := e.tx_state
    receipt_id_ne := e.receipt_id_ne
    project_id_ne := e.project_id.text_ne
    path_ne := t.path_ne }

/-- A receipt of the store's own has no deep values. -/
@[simp] theorem Entry.receipt_deep (e : Entry Bytes) : (e.receipt t).deep = false := by
  cases h : e.kind <;> simp [Entry.receipt, Entry.details, h]

@[simp] theorem Entry.receipt_path_eq (e : Entry Bytes) : (e.receipt t).path = t.path := rfl

@[simp] theorem Entry.receipt_receipt_id (e : Entry Bytes) :
    (e.receipt t).receipt_id = e.receipt_id := rfl

@[simp] theorem Entry.receipt_project_id (e : Entry Bytes) :
    (e.receipt t).project_id = e.project_id.text := rfl

@[simp] theorem Entry.receipt_tx_state (e : Entry Bytes) : (e.receipt t).tx_state = e.tx_state := rfl

@[simp] theorem Entry.receipt_operation (e : Entry Bytes) :
    (e.receipt t).original_operation = e.kind.operation := rfl

@[simp] theorem Entry.receipt_preimage_exists (e : Entry Bytes) :
    (e.receipt t).preimage_exists = e.kind.preimage_exists := rfl

@[simp] theorem Entry.receipt_prev (e : Entry Bytes) :
    get (e.receipt t).prev_receipt_id = RecoveryStore.optStr e.kind.prev := by
  cases h : e.kind <;> simp [Entry.receipt, Entry.details, h, Kind.prev, get, RecoveryStore.optStr]

@[simp] theorem Entry.receipt_post (e : Entry Bytes) :
    get (e.receipt t).postimage_sha256 = RecoveryStore.optStr e.kind.post := by
  cases h : e.kind <;> simp [Entry.receipt, Entry.details, h, Kind.post, get, RecoveryStore.optStr]

theorem Entry.receipt_pre {e : Entry Bytes} {pre : String} (h : e.kind.pre = some pre) :
    get (e.receipt t).preimage_sha256 = .str pre := by
  cases hk : e.kind with
  | rollback =>
    rw [hk] at h
    cases h
  | write prev pre' post backup =>
    rw [hk] at h
    cases h
    simp [Entry.receipt, Entry.details, hk, get, RecoveryStore.optStr]

theorem Entry.receipt_backup {e : Entry Bytes} {pre : String} (h : e.kind.pre = some pre) :
    (e.receipt t).backup_file = some (.str (store.backup_path e.receipt_id)) := by
  cases hk : e.kind with
  | rollback =>
    rw [hk] at h
    cases h
  | write prev pre' post backup =>
    rw [hk] at h
    cases h
    simp [Entry.receipt, Entry.details, hk, RecoveryStore.optStr]

theorem Kind.preimage_exists_write {k : Kind Bytes} (h : k.isWrite = true) :
    k.preimage_exists = k.pre.isSome := by
  cases k with
  | rollback => cases h
  | write => rfl

@[simp] theorem optStr_eq_str {o : Option String} {s : String} :
    RecoveryStore.optStr o = .str s ↔ o = some s := by
  cases o <;> simp [RecoveryStore.optStr]

theorem Val.str_beq_str (a b : String) : (Val.str a == Val.str b) = (a == b) := by
  by_cases h : a = b <;> simp [h]

/-- Comparing a digest with a recorded one. -/
theorem digestEq_optStr (current o : Option String) :
    digestEq current (RecoveryStore.optStr o) = (current == o) := by
  cases current with
  | none => cases o <;> rfl
  | some c =>
    cases o with
    | none => rfl
    | some s =>
      simp only [digestEq, RecoveryStore.optStr, Option.map_some, Option.getD_some, Val.str_beq_str]
      by_cases h : s = c
      · simp [h]
      · have hne : ¬ c = s := fun heq => h heq.symm
        simp [h, hne]

theorem optStr_truthy {o : Option String} :
    (RecoveryStore.optStr o).truthy = true ↔ ∃ s, o = some s ∧ s ≠ "" := by
  cases o <;> simp [RecoveryStore.optStr, Val.truthy]

theorem optStr_inj {a b : Option String} (h : RecoveryStore.optStr a = RecoveryStore.optStr b) :
    a = b := by
  cases a <;> cases b <;> simp_all [RecoveryStore.optStr]

/-- Receipt and backup of an entry determine it. -/
theorem Entry.eq_of_receipt {a b : Entry Bytes} (h : a.receipt t = b.receipt t)
    (hbackup : a.kind.isWrite = true → a.kind.backup = b.kind.backup) : a = b := by
  have hid : a.receipt_id = b.receipt_id := congrArg Receipt.receipt_id h
  have htext : a.project_id.text = b.project_id.text := congrArg Receipt.project_id h
  have hstate : a.tx_state = b.tx_state := congrArg Receipt.tx_state h
  have hop : a.kind.operation = b.kind.operation := congrArg Receipt.original_operation h
  have hdetails : a.details store = b.details store := congrArg Receipt.toDetails h
  have hstamp : a.stamp = b.stamp := Stamp.eq_of_append hid
  obtain ⟨⟨text, _⟩, stamp, seq, state, kind⟩ := a
  obtain ⟨⟨text', _⟩, stamp', seq', state', kind'⟩ := b
  subst htext hstamp hstate
  cases kind with
  | write prev pre post backup =>
    cases kind' with
    | write prev' pre' post' backup' =>
      simp only [Entry.details, Details.mk.injEq, Option.some.injEq, Val.int.injEq] at hdetails
      obtain ⟨hprev, hpre, hpost, _, hseq, _⟩ := hdetails
      have hb : backup = backup' := hbackup rfl
      rw [optStr_inj hprev, optStr_inj hpre, optStr_inj hpost, hseq, hb]
    | rollback => cases hop
  | rollback source expected restored =>
    cases kind' with
    | write => cases hop
    | rollback source' expected' restored' =>
      simp only [Entry.details, Details.mk.injEq, Option.some.injEq, Val.int.injEq,
        Val.str.injEq] at hdetails
      obtain ⟨_, hexpected, _, _, hseq, hsource, _, hrestored⟩ := hdetails
      rw [hexpected, hseq, hsource, optStr_inj hrestored.1]

theorem Receipt.dict_inj {a b : Receipt} (h : a.dict = b.dict) : a = b := by
  have ha := validate_receipt_dict a
  rw [h, validate_receipt_dict] at ha
  exact (Except.ok.inj ha).symm

variable [Text] [Host Bytes]

theorem dumps_inj {a b : Receipt} (h : (Host.dumps a.dict : Bytes) = Host.dumps b.dict) :
    a = b := by
  have ha : Host.loads (Host.dumps a.dict : Bytes) = .ok (.obj a.dict) := Host.loads_dumps a.dict
  rw [h, Host.loads_dumps] at ha
  exact Receipt.dict_inj (Document.obj.inj (Except.ok.inj ha)).symm

end Receipts

section Files

theorem Target.eq_of_path {store : RecoveryStore} {a b : Target store} (h : a.path = b.path) :
    a = b := by
  cases a
  cases b
  simpa using h

theorem Target.lock_inj {store : RecoveryStore} {t t' : Target store} (h : t.lock = t'.lock) :
    t = t' := Target.eq_of_path (congrArg LockName.resource h)

variable [Text] [Host Bytes]

/-- Every receipt file holds a receipt of the store's own form under its own
name, and the stamps in file names have been drawn. -/
structure RecoveryStore.Sound (store : RecoveryStore) (w : World Bytes) : Prop where
  receipts : ∀ p data, store.isReceiptFile p = true → w.lookup p = some data →
    ∃ (t : Target store) (e : Entry Bytes), p = store.receipt_path e.receipt_id ∧
      data = Host.dumps (e.receipt t).dict
  drawn : ∀ (front : String) (s : Stamp),
    (w.lookup (store.receipt_path (front ++ s.text))).isSome ∨
      (w.lookup (store.backup_path (front ++ s.text))).isSome → w.Drawn s

/-- The host holds exactly the given journal of a target, whose lock has the
given owner. -/
structure Journal.At {store : RecoveryStore} (owner : Option Pid) (t : Target store)
    (J : Journal Bytes) (w : World Bytes) : Prop where
  lock : w.locks t.lock = owner
  sound : store.Sound w
  wf : J.Wf
  held : ∀ e ∈ J.entries,
    w.lookup (store.receipt_path e.receipt_id) = some (Host.dumps (e.receipt t).dict)
  backup : ∀ e ∈ J.entries, e.kind.isWrite = true →
    w.lookup (store.backup_path e.receipt_id) = e.kind.backup
  complete : ∀ p (r : Receipt), store.isReceiptFile p = true →
    w.lookup p = some (Host.dumps r.dict) → r.path = t.path →
      ∃ e ∈ J.entries, p = store.receipt_path e.receipt_id
  target : w.lookup t.path = J.target
  fits : ∀ e ∈ J.entries, too_long t.path = false
  log : w.changes.filter (fun c => c.path == t.path) = J.log

/-- A fresh receipt id drawn by a process, with the content of its backup file. -/
structure RecoveryStore.Reserved (store : RecoveryStore) (i : Pid) (front : String) (s : Stamp)
    (backup : Option Bytes) (w : World Bytes) : Prop where
  drawn : ∃ n < w.ticks, w.stamps n = s ∧ w.drawer n = some i
  receipt : w.lookup (store.receipt_path (front ++ s.text)) = none
  backup : w.lookup (store.backup_path (front ++ s.text)) = backup

/-- Receipts stay in the store, under the same target. -/
def RecoveryStore.Grows (self : RecoveryStore) (w w' : World Bytes) : Prop :=
  ∀ p (r : Receipt), self.isReceiptFile p = true → w.lookup p = some (Host.dumps r.dict) →
    ∃ r' : Receipt, w'.lookup p = some (Host.dumps r'.dict) ∧ r'.path = r.path

/-- What a process does to the files while it holds the lock of a target. -/
inductive Touch {store : RecoveryStore} (i : Pid) (t : Target store) :
    World Bytes → World Bytes → Prop
  | tick (w : World Bytes) : Touch i t w { w with ticks := w.ticks + 1 }
  | draw (w : World Bytes) : Touch i t w
      { w with ticks := w.ticks + 1, drawer := Function.update w.drawer w.ticks (some i) }
  | rewrite {w : World Bytes} (old e : Entry Bytes) (hid : e.receipt_id = old.receipt_id)
      (hold : w.lookup (store.receipt_path old.receipt_id) =
        some (Host.dumps (old.receipt t).dict)) :
      Touch i t w
        (w.write i (store.receipt_path old.receipt_id) (Host.dumps (e.receipt t).dict) none)
  | record {w : World Bytes} {front : String} {backup : Option Bytes} (e : Entry Bytes)
      (hid : e.receipt_id = front ++ e.stamp.text)
      (hres : store.Reserved i front e.stamp backup w) :
      Touch i t w
        (w.write i (store.receipt_path e.receipt_id) (Host.dumps (e.receipt t).dict) none)
  | save {w : World Bytes} {front : String} {s : Stamp} (data : Bytes)
      (hres : store.Reserved i front s none w) :
      Touch i t w (w.write i (store.backup_path (front ++ s.text)) data none)
  | change {w : World Bytes} (data : Bytes) (id : Option String) :
      Touch i t w (w.write i t.path data id)
  | delete (w : World Bytes) : Touch i t w (w.remove i t.path)

/-- What has happened to the store as one process sees it: files stay, and the
ids the process drew stay its own. -/
structure Later (store : RecoveryStore) (i : Pid) (w w' : World Bytes) : Prop where
  grows : store.Grows w w'
  receipts : ∀ id, (w.lookup (store.receipt_path id)).isSome →
    (w'.lookup (store.receipt_path id)).isSome
  backups : ∀ id, (w.lookup (store.backup_path id)).isSome →
    (w'.lookup (store.backup_path id)).isSome
  reserved : ∀ front s backup, store.Reserved i front s backup w →
    store.Reserved i front s backup w'
  stamps : w'.stamps = w.stamps
  ticks : w.ticks ≤ w'.ticks
  drawers : ∀ n < w.ticks, w'.drawer n = w.drawer n

/-- What the other processes may do while process `i` holds the lock of `t`. -/
structure Rely {store : RecoveryStore} (owner : Option Pid) (i : Pid) (t : Target store)
    (w w' : World Bytes) : Prop extends Later store i w w' where
  view : ∀ J : Journal Bytes, J.At owner t w → J.At owner t w'

variable {store : RecoveryStore} {owner : Option Pid} {i : Pid} {t : Target store}

theorem RecoveryStore.Grows.refl (w : World Bytes) : store.Grows w w :=
  fun _ r _ h => ⟨r, h, rfl⟩

theorem RecoveryStore.Grows.trans {a b c : World Bytes} (hab : store.Grows a b)
    (hbc : store.Grows b c) : store.Grows a c := by
  intro p r hp hr
  obtain ⟨r₁, hr₁, hpath₁⟩ := hab p r hp hr
  obtain ⟨r₂, hr₂, hpath₂⟩ := hbc p r₁ hp hr₁
  exact ⟨r₂, hr₂, hpath₂.trans hpath₁⟩

theorem Later.refl (w : World Bytes) : Later store i w w :=
  ⟨.refl w, fun _ h => h, fun _ h => h, fun _ _ _ h => h, rfl, le_rfl, fun _ _ => rfl⟩

theorem Later.trans {a b c : World Bytes} (hab : Later store i a b) (hbc : Later store i b c) :
    Later store i a c :=
  ⟨hab.grows.trans hbc.grows, fun id h => hbc.receipts id (hab.receipts id h),
    fun id h => hbc.backups id (hab.backups id h),
    fun front s backup h => hbc.reserved front s backup (hab.reserved front s backup h),
    hbc.stamps.trans hab.stamps, hab.ticks.trans hbc.ticks,
    fun n hn => (hbc.drawers n (hn.trans_le hab.ticks)).trans (hab.drawers n hn)⟩

theorem Rely.refl (w : World Bytes) : Rely owner i t w w :=
  ⟨.refl w, fun _ h => h⟩

theorem NoRepeat.of_later {a b : World Bytes} (hb : b.NoRepeat) (h : Later store i a b) :
    a.NoRepeat := by
  intro m n hm hn hdm hdn heq
  refine hb m n (hm.trans_le h.ticks) (hn.trans_le h.ticks) ?_ ?_ (by rw [h.stamps, heq])
  · rw [h.drawers m hm, hdm]
  · rw [h.drawers n hn, hdn]

/-- No fresh receipt id was found: the ids that were drawn repeat. -/
def Unallocated (err : Err) (w : World Bytes) : Prop := err = allocation_error ∧ ¬ w.NoRepeat

theorem Unallocated.later {err : Err} {w w' : World Bytes} (h : Unallocated err w)
    (hw : Later store i w w') : Unallocated err w' :=
  ⟨h.1, fun hno => h.2 (NoRepeat.of_later hno hw)⟩

omit [Text] [Host Bytes] in
theorem Unallocated.plain {err : Err} {w : World Bytes} (h : Unallocated err w) :
    err.isRecoveryRequired = false := by
  rw [h.1]
  rfl

/-- The receipt found under the name of an entry is the entry's. -/
theorem Journal.At.receipt_of {J : Journal Bytes} {w : World Bytes} (h : J.At owner t w)
    {p : Path} {r : Receipt} (hp : store.isReceiptFile p = true)
    (hr : w.lookup p = some (Host.dumps r.dict)) (hpath : r.path = t.path) :
    ∃ e ∈ J.entries, p = store.receipt_path e.receipt_id ∧ r = e.receipt t := by
  obtain ⟨e, he, rfl⟩ := h.complete p r hp hr hpath
  rw [h.held e he] at hr
  exact ⟨e, he, rfl, (dumps_inj (Option.some.inj hr)).symm⟩

/-- The receipts of a target are those in the store. -/
theorem Journal.At.mem_iff {J K : Journal Bytes} {owner' : Option Pid} {w : World Bytes}
    (hJ : J.At owner t w) (hK : K.At owner' t w) {e : Entry Bytes} :
    e ∈ J.entries ↔ e ∈ K.entries := by
  have hsub : ∀ {A B : Journal Bytes} {o o' : Option Pid}, A.At o t w → B.At o' t w →
      e ∈ A.entries → e ∈ B.entries := by
    intro A B o o' hA hB he
    obtain ⟨x, hx, hpath, hr⟩ := hB.receipt_of e.isReceiptFile (hA.held e he) rfl
    have hid : e.receipt_id = x.receipt_id := receipt_path_inj hpath
    have heq : e = x := by
      refine Entry.eq_of_receipt t hr fun hw => ?_
      have hwx : x.kind.isWrite = true := by
        have hop : e.kind.operation = x.kind.operation := congrArg Receipt.original_operation hr
        cases hk : x.kind with
        | write => rfl
        | rollback =>
          cases hke : e.kind with
          | write =>
            rw [hk, hke] at hop
            cases hop
          | rollback =>
            rw [hke] at hw
            cases hw
      rw [← hA.backup e he hw, ← hB.backup x hx hwx, hid]
    rw [heq]
    exact hx
  exact ⟨hsub hJ hK, hsub hK hJ⟩

end Files

end jvc.recovery
