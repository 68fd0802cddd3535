import Jvc.Configuration
import Jvc.Recovery.Store

namespace jvc.recovery

variable {Bytes : Type}

/-- What the two kinds of receipts record. The backup of a write is the content
its backup file holds. -/
inductive Kind (Bytes : Type)
  | write (prev pre post : Option String) (backup : Option Bytes)
  | rollback (source expected : String) (restored : Option String)

namespace Kind

def operation : Kind Bytes → Operation
  | .write .. => .FS_WRITE
  | .rollback .. => .ROLLBACK

/-- The kind as it opens the receipt id. -/
def name : Kind Bytes → String
  | .write .. => "recovery"
  | .rollback .. => "rollback"

def isWrite : Kind Bytes → Bool
  | .write .. => true
  | .rollback .. => false

def prev : Kind Bytes → Option String
  | .write prev .. => prev
  | .rollback .. => none

def pre : Kind Bytes → Option String
  | .write _ pre _ _ => pre
  | .rollback .. => none

def post : Kind Bytes → Option String
  | .write _ _ post _ => post
  | .rollback .. => none

def backup : Kind Bytes → Option Bytes
  | .write _ _ _ backup => backup
  | .rollback .. => none

def source : Kind Bytes → Option String
  | .write .. => none
  | .rollback source .. => some source

/-- The content a write found: absent, or what its backup holds. -/
def before (k : Kind Bytes) : Option Bytes := k.pre.bind fun _ => k.backup

end Kind

/-- A receipt of the form the store itself writes. -/
structure Entry (Bytes : Type) where
  project_id : ProjectId
  stamp : Stamp
  seq : Int
  tx_state : TxState
  kind : Kind Bytes

namespace Entry

def receipt_id (e : Entry Bytes) : String :=
  e.kind.name ++ "-" ++ e.project_id.text ++ "-" ++ e.stamp.text

def mark (e : Entry Bytes) (state : TxState) : Entry Bytes := { e with tx_state := state }

/-- The receipt of a replaced target, with its postimage recorded. -/
def applied (e : Entry Bytes) (post : String) : Entry Bytes :=
  match e.kind with
  | .write prev pre _ backup =>
    { e with tx_state := .APPLIED, kind := .write prev pre (some post) backup }
  | .rollback source expected _ =>
    { e with tx_state := .APPLIED, kind := .rollback source expected (some post) }

@[simp] theorem mark_project_id (e : Entry Bytes) (s : TxState) :
    (e.mark s).project_id = e.project_id := rfl

@[simp] theorem mark_tx_state (e : Entry Bytes) (s : TxState) : (e.mark s).tx_state = s := rfl

@[simp] theorem mark_kind (e : Entry Bytes) (s : TxState) : (e.mark s).kind = e.kind := rfl

@[simp] theorem mark_receipt_id (e : Entry Bytes) (s : TxState) :
    (e.mark s).receipt_id = e.receipt_id := rfl

@[simp] theorem applied_project_id (e : Entry Bytes) (post : String) :
    (e.applied post).project_id = e.project_id := by
  unfold applied
  split <;> rfl

@[simp] theorem applied_tx_state (e : Entry Bytes) (post : String) :
    (e.applied post).tx_state = .APPLIED := by
  unfold applied
  split <;> rfl

@[simp] theorem applied_isWrite (e : Entry Bytes) (post : String) :
    (e.applied post).kind.isWrite = e.kind.isWrite := by
  unfold applied
  split <;> rename_i hkind <;> rw [hkind] <;> rfl

@[simp] theorem applied_source (e : Entry Bytes) (post : String) :
    (e.applied post).kind.source = e.kind.source := by
  unfold applied
  split <;> rename_i hkind <;> rw [hkind] <;> rfl

@[simp] theorem applied_backup (e : Entry Bytes) (post : String) :
    (e.applied post).kind.backup = e.kind.backup := by
  unfold applied
  split <;> rename_i hkind <;> rw [hkind] <;> rfl

@[simp] theorem applied_receipt_id (e : Entry Bytes) (post : String) :
    (e.applied post).receipt_id = e.receipt_id := by
  unfold applied receipt_id
  split <;> rename_i hkind <;> rw [hkind] <;> rfl

theorem receipt_id_ne (e : Entry Bytes) : e.receipt_id ≠ "" := by
  intro h
  have hlen := congrArg (fun s => s.toList.length) h
  have hstamp := e.stamp.length_eq
  simp only [receipt_id, String.toList_append, List.length_append, String.length_toList] at hlen
  simp only [String.length_empty] at hlen
  omega

end Entry

/-- The receipts of one target, newest first, its content, and the log of the
changes made to it. -/
structure Journal (Bytes : Type) where
  entries : List (Entry Bytes)
  target : Option Bytes
  log : List (Change Bytes)

namespace Journal

/-- Receipt ids are unique, and a rollback names a write of the same target. -/
structure Wf (J : Journal Bytes) : Prop where
  nodup : (J.entries.map Entry.receipt_id).Nodup
  source : ∀ r ∈ J.entries, ∀ id, r.kind.source = some id →
    ∃ s ∈ J.entries, s.receipt_id = id ∧ s.kind.isWrite

def update (J : Journal Bytes) (id : String) (f : Entry Bytes → Entry Bytes) : Journal Bytes :=
  { J with entries := J.entries.map fun e => if e.receipt_id = id then f e else e }

def mark (J : Journal Bytes) (id : String) (state : TxState) : Journal Bytes :=
  J.update id fun e => e.mark state

def add (J : Journal Bytes) (e : Entry Bytes) : Journal Bytes :=
  { J with entries := e :: J.entries }

/-- The target replaced, created or deleted by one change. -/
def change (J : Journal Bytes) (i : Pid) (t : Path) (after : Option Bytes)
    (receipt_id : Option String) : Journal Bytes :=
  { J with target := after, log := ⟨i, t, J.target, after, receipt_id⟩ :: J.log }

@[simp] theorem update_target (J : Journal Bytes) (id : String) (f : Entry Bytes → Entry Bytes) :
    (J.update id f).target = J.target := rfl

@[simp] theorem update_log (J : Journal Bytes) (id : String) (f : Entry Bytes → Entry Bytes) :
    (J.update id f).log = J.log := rfl

@[simp] theorem mark_target (J : Journal Bytes) (id : String) (s : TxState) :
    (J.mark id s).target = J.target := rfl

@[simp] theorem mark_log (J : Journal Bytes) (id : String) (s : TxState) :
    (J.mark id s).log = J.log := rfl

@[simp] theorem add_entries (J : Journal Bytes) (e : Entry Bytes) :
    (J.add e).entries = e :: J.entries := rfl

@[simp] theorem add_target (J : Journal Bytes) (e : Entry Bytes) :
    (J.add e).target = J.target := rfl

@[simp] theorem add_log (J : Journal Bytes) (e : Entry Bytes) : (J.add e).log = J.log := rfl

@[simp] theorem change_entries (J : Journal Bytes) (i : Pid) (t : Path) (after : Option Bytes)
    (id : Option String) : (J.change i t after id).entries = J.entries := rfl

@[simp] theorem change_target (J : Journal Bytes) (i : Pid) (t : Path) (after : Option Bytes)
    (id : Option String) : (J.change i t after id).target = after := rfl

@[simp] theorem change_log (J : Journal Bytes) (i : Pid) (t : Path) (after : Option Bytes)
    (id : Option String) :
    (J.change i t after id).log = ⟨i, t, J.target, after, id⟩ :: J.log := rfl

/-- Receipts keep their identity and their links when they are rewritten. -/
structure Keeps (f : Entry Bytes → Entry Bytes) : Prop where
  receipt_id : ∀ e, (f e).receipt_id = e.receipt_id
  isWrite : ∀ e, (f e).kind.isWrite = e.kind.isWrite
  source : ∀ e, (f e).kind.source = e.kind.source
  backup : ∀ e, (f e).kind.backup = e.kind.backup

theorem keeps_mark (s : TxState) : Keeps fun e : Entry Bytes => e.mark s :=
  ⟨fun _ => rfl, fun _ => rfl, fun _ => rfl, fun _ => rfl⟩

theorem keeps_applied (post : String) : Keeps fun e : Entry Bytes => e.applied post :=
  ⟨fun _ => by simp, fun _ => by simp, fun _ => by simp, fun _ => by simp⟩

theorem mem_update {J : Journal Bytes} {id : String} {f : Entry Bytes → Entry Bytes}
    {x : Entry Bytes} :
    x ∈ (J.update id f).entries ↔
      ∃ e ∈ J.entries, (e.receipt_id = id ∧ x = f e) ∨ (e.receipt_id ≠ id ∧ x = e) := by
  simp only [update, List.mem_map]
  constructor
  · rintro ⟨e, he, rfl⟩
    refine ⟨e, he, ?_⟩
    split
    · exact .inl ⟨by assumption, rfl⟩
    · exact .inr ⟨by assumption, rfl⟩
  · rintro ⟨e, he, ⟨hid, rfl⟩ | ⟨hid, rfl⟩⟩
    · exact ⟨e, he, if_pos hid⟩
    · exact ⟨x, he, if_neg hid⟩

theorem mem_mark {J : Journal Bytes} {id : String} {s : TxState} {x : Entry Bytes} :
    x ∈ (J.mark id s).entries ↔
      ∃ e ∈ J.entries, (e.receipt_id = id ∧ x = e.mark s) ∨ (e.receipt_id ≠ id ∧ x = e) :=
  mem_update

theorem ids_update {J : Journal Bytes} {f : Entry Bytes → Entry Bytes} (hf : Keeps f)
    (id : String) :
    (J.update id f).entries.map Entry.receipt_id = J.entries.map Entry.receipt_id := by
  simp only [update, List.map_map, List.map_inj_left, Function.comp_apply]
  intro e _
  split
  · exact hf.receipt_id e
  · rfl

theorem Wf.eq_of_id {J : Journal Bytes} (h : J.Wf) {a b : Entry Bytes} (ha : a ∈ J.entries)
    (hb : b ∈ J.entries) (hid : a.receipt_id = b.receipt_id) : a = b :=
  List.inj_on_of_nodup_map h.nodup ha hb hid

theorem Wf.update {J : Journal Bytes} (h : J.Wf) {f : Entry Bytes → Entry Bytes} (hf : Keeps f)
    (id : String) : (J.update id f).Wf := by
  constructor
  · rw [ids_update hf]
    exact h.nodup
  · intro r hr source hsource
    obtain ⟨e, he, hx⟩ := mem_update.mp hr
    have hes : e.kind.source = some source := by
      rcases hx with ⟨_, rfl⟩ | ⟨_, rfl⟩
      · rw [← hsource, hf.source]
      · exact hsource
    obtain ⟨s, hs, hid, hw⟩ := h.source e he source hes
    by_cases hsid : s.receipt_id = id
    · exact ⟨f s, mem_update.mpr ⟨s, hs, .inl ⟨hsid, rfl⟩⟩, by rw [hf.receipt_id, hid],
        by rw [hf.isWrite, hw]⟩
    · exact ⟨s, mem_update.mpr ⟨s, hs, .inr ⟨hsid, rfl⟩⟩, hid, hw⟩

theorem Wf.mark {J : Journal Bytes} (h : J.Wf) (id : String) (s : TxState) : (J.mark id s).Wf :=
  h.update (keeps_mark s) id

theorem Wf.add {J : Journal Bytes} (h : J.Wf) {e : Entry Bytes}
    (hfresh : e.receipt_id ∉ J.entries.map Entry.receipt_id)
    (hsource : ∀ id, e.kind.source = some id →
      ∃ s ∈ J.entries, s.receipt_id = id ∧ s.kind.isWrite) : (J.add e).Wf := by
  constructor
  · simp only [add_entries, List.map_cons, List.nodup_cons]
    exact ⟨hfresh, h.nodup⟩
  · intro r hr id hid
    have hold : ∃ s ∈ J.entries, s.receipt_id = id ∧ s.kind.isWrite := by
      rcases List.mem_cons.mp hr with rfl | hr
      · exact hsource id hid
      · exact h.source r hr id hid
    obtain ⟨s, hs, heq⟩ := hold
    exact ⟨s, List.mem_cons_of_mem _ hs, heq⟩

theorem Wf.change {J : Journal Bytes} (h : J.Wf) (i : Pid) (t : Path) (after : Option Bytes)
    (id : Option String) : (J.change i t after id).Wf :=
  ⟨h.nodup, h.source⟩

end Journal

section Settle

variable [Text] [Host Bytes]

/-- `_backup_ok`: the backup is there and has the recorded preimage. -/
def Entry.backup_ok (e : Entry Bytes) : Bool :=
  match e.kind with
  | .write _ (some pre) _ backup => backup.map sha256_bytes == some pre
  | _ => true

theorem Entry.backup_ok_absent {e : Entry Bytes} (h : e.kind.pre = none) : e.backup_ok = true := by
  obtain ⟨_, _, _, _, kind⟩ := e
  cases kind with
  | rollback => rfl
  | write prev pre post backup =>
    cases h
    rfl

theorem Entry.backup_ok_present {e : Entry Bytes} {pre : String} (h : e.kind.pre = some pre) :
    e.backup_ok = (e.kind.backup.map sha256_bytes == some pre) := by
  obtain ⟨_, _, _, _, kind⟩ := e
  cases kind with
  | rollback => cases h
  | write prev pre' post backup =>
    cases h
    rfl

theorem Entry.backup_ok_lost {e : Entry Bytes} {pre : String} (h : e.kind.pre = some pre)
    (hdata : e.kind.backup = none) : e.backup_ok = false := by
  rw [Entry.backup_ok_present h, hdata]
  rfl

theorem Entry.backup_ok_held {e : Entry Bytes} {pre : String} {data : Bytes}
    (h : e.kind.pre = some pre) (hdata : e.kind.backup = some data) :
    e.backup_ok = (sha256_bytes data == pre) := by
  rw [Entry.backup_ok_present h, hdata]
  rfl

/-- The state a receipt gets when it is reconciled against a target with the
given digest. -/
def Entry.settled (current : Option String) (e : Entry Bytes) : TxState :=
  match e.kind, e.tx_state with
  | .write _ pre _ _, .PREPARED =>
    if e.backup_ok && current == pre then .RECOVERED_UNAPPLIED else .RECOVERY_REQUIRED
  | .write _ _ post _, .APPLIED =>
    if e.backup_ok && (post.isSome && current == post) then .VERIFIED else .RECOVERY_REQUIRED
  | .rollback _ expected _, .PREPARED =>
    if current == some expected then .RECOVERED_UNAPPLIED else .RECOVERY_REQUIRED
  | .rollback _ _ restored, .APPLIED =>
    if restored.isSome && (current == restored || (restored == some "__ABSENT__" && current.isNone))
    then .VERIFIED else .RECOVERY_REQUIRED
  | _, state => state

/-- What `_supersede_pending` makes of an applied write. -/
def Entry.overtaken (current : Option String) (e : Entry Bytes) : TxState :=
  if e.kind.post.isSome && current == e.kind.post then .VERIFIED else .RECOVERY_REQUIRED

namespace Journal

def current (J : Journal Bytes) : Option String := J.target.map sha256_bytes

/-- A reconciled receipt; a finished rollback also closes its source. -/
def settle (J : Journal Bytes) (e : Entry Bytes) : Journal Bytes :=
  match e.kind, e.settled J.current with
  | .rollback source _ _, .VERIFIED =>
    (J.mark e.receipt_id .VERIFIED).mark source .ROLLED_BACK
  | _, state => J.mark e.receipt_id state

/-- No receipt of the project is incomplete. -/
def Settled (J : Journal Bytes) (project_id : String) : Prop :=
  ∀ e ∈ J.entries, e.project_id.text = project_id → e.tx_state.incomplete = false

/-- No receipt of the project blocks fresh mutation. -/
def Unblocked (J : Journal Bytes) (project_id : String) : Prop :=
  ∀ e ∈ J.entries, e.project_id.text = project_id → e.tx_state.blocking = false

/-- A receipt in the given states points at the id. -/
def Points (J : Journal Bytes) (project_id : String) (states : TxState → Bool) (id : String) :
    Prop :=
  ∃ e ∈ J.entries, e.project_id.text = project_id ∧ states e.tx_state = true ∧
    e.kind.prev = some id

/-- A verified write with the given postimage. -/
def Candidate (J : Journal Bytes) (project_id post : String) (e : Entry Bytes) : Prop :=
  e ∈ J.entries ∧ e.project_id.text = project_id ∧ e.kind.isWrite ∧ e.tx_state = .VERIFIED ∧
    e.kind.post = some post

/-- A candidate that no standing receipt points to. -/
def Head (J : Journal Bytes) (project_id post : String) (e : Entry Bytes) : Prop :=
  J.Candidate project_id post e ∧
    ¬ J.Points project_id RecoveryStore.effectiveState e.receipt_id

/-- The only head. -/
def TheHead (J : Journal Bytes) (project_id post : String) (e : Entry Bytes) : Prop :=
  J.Head project_id post e ∧ ∀ x, J.Head project_id post x → x = e

/-- The prev-pointer of a new write: the only head for an edit, some terminal
receipt for a create. -/
def Supersedes (J : Journal Bytes) (project_id : String) (prev : Option String) : Prop :=
  match J.current with
  | some pre => (∃ e, J.TheHead project_id pre e ∧ prev = some e.receipt_id) ∨
      ((¬ ∃ e, J.TheHead project_id pre e) ∧ prev = none)
  | none => ∀ id, prev = some id → ∃ e ∈ J.entries, e.project_id.text = project_id ∧
      e.kind.isWrite ∧ e.tx_state.terminal ∧ e.receipt_id = id

/-- `restored_sha256` for the present target. -/
def restoredText (J : Journal Bytes) : String := J.current.getD "__ABSENT__"

end Journal

/-- Whose steps: reconciliation of pending receipts, their settling before a
rollback, the audit of verified ones, the intent of a governed write and its
work, the intent of a governed rollback and its work. -/
inductive Label
  | settle
  | overtake
  | audit
  | prepare (p : ProjectId)
  | write
  | intend (p : ProjectId)
  | undo
  deriving DecidableEq

/-- The steps that only change states of receipts already there. -/
def Label.quiet : Label → Bool
  | .settle | .overtake | .audit => true
  | _ => false

/-- One durable step of the operations on the journal of target `t`. -/
inductive Step (i : Pid) (t : Path) : Label → Journal Bytes → Journal Bytes → Prop
  | settle {J : Journal Bytes} {e : Entry Bytes} (he : e ∈ J.entries)
      (hp : e.tx_state.incomplete = true) :
      Step i t .settle J (J.mark e.receipt_id (e.settled J.current))
  | finalize {J : Journal Bytes} {r : Entry Bytes} {source : String} (hr : r ∈ J.entries)
      (hs : r.kind.source = some source) (hv : r.tx_state = .VERIFIED) :
      Step i t .settle J (J.mark source .ROLLED_BACK)
  | audit {J : Journal Bytes} {e : Entry Bytes} (he : e ∈ J.entries) (hw : e.kind.isWrite = true)
      (hv : e.tx_state = .VERIFIED) (hlost : e.backup_ok = false) :
      Step i t .audit J (J.mark e.receipt_id .RECOVERY_REQUIRED)
  | prepare {J : Journal Bytes} {e : Entry Bytes} {prev : Option String}
      (hfresh : e.receipt_id ∉ J.entries.map Entry.receipt_id)
      (hkind : e.kind = .write prev J.current none J.target) (hstate : e.tx_state = .PREPARED)
      (hsettled : J.Settled e.project_id.text) (hfree : J.Unblocked e.project_id.text)
      (hprev : J.Supersedes e.project_id.text prev) :
      Step i t (.prepare e.project_id) J (J.add e)
  | install {J : Journal Bytes} {e : Entry Bytes} {rest : List (Entry Bytes)}
      (he : J.entries = e :: rest) (hw : e.kind.isWrite = true) (hstate : e.tx_state = .PREPARED)
      (hpre : e.kind.pre = J.current) (hbackup : e.kind.backup = J.target)
      (hnew : ∀ c ∈ J.log, c.receipt_id ≠ some e.receipt_id) (content : Bytes) :
      Step i t .write J (J.change i t (some content) (some e.receipt_id))
  | note {J : Journal Bytes} {e : Entry Bytes} {rest : List (Entry Bytes)} {c : Change Bytes}
      {log : List (Change Bytes)} {content : Bytes} (he : J.entries = e :: rest)
      (hw : e.kind.isWrite = true) (hstate : e.tx_state = .PREPARED) (hlog : J.log = c :: log)
      (hid : c.receipt_id = some e.receipt_id) (ht : J.target = some content) :
      Step i t .write J (J.update e.receipt_id fun x => x.applied (sha256_bytes content))
  | verify {J : Journal Bytes} {e : Entry Bytes} {rest : List (Entry Bytes)} {post : String}
      (he : J.entries = e :: rest) (hw : e.kind.isWrite = true) (hstate : e.tx_state = .APPLIED)
      (hpost : e.kind.post = some post) (hcurrent : J.current = some post)
      (hok : e.backup_ok = true) : Step i t .write J (J.mark e.receipt_id .VERIFIED)
  | overtake {J : Journal Bytes} {e : Entry Bytes} (he : e ∈ J.entries)
      (hw : e.kind.isWrite = true) (hstate : e.tx_state = .APPLIED) :
      Step i t .overtake J (J.mark e.receipt_id (e.overtaken J.current))
  | supersede {J : Journal Bytes} {e : Entry Bytes} (he : e ∈ J.entries)
      (hw : e.kind.isWrite = true) (hstate : e.tx_state = .RECOVERED_UNAPPLIED) :
      Step i t .overtake J (J.mark e.receipt_id .SUPERSEDED)
  | intend {J : Journal Bytes} {r s : Entry Bytes} {post : String}
      (hfresh : r.receipt_id ∉ J.entries.map Entry.receipt_id)
      (hkind : r.kind = .rollback s.receipt_id post none) (hstate : r.tx_state = .PREPARED)
      (hcurrent : J.current = some post) (hsettled : J.Settled r.project_id.text)
      (hhead : J.TheHead r.project_id.text post s)
      (hclear : ¬ J.Points r.project_id.text TxState.blocking s.receipt_id) :
      Step i t (.intend r.project_id) J (J.add r)
  | restore {J : Journal Bytes} {r s : Entry Bytes} {rest : List (Entry Bytes)} {expected : String}
      (hr : J.entries = r :: rest) (hs : s ∈ rest)
      (hkind : r.kind = .rollback s.receipt_id expected none) (hstate : r.tx_state = .PREPARED)
      (hsource : s.tx_state = .VERIFIED)
      (hcurrent : J.current = some expected) (hok : s.backup_ok = true) :
      Step i t .undo J (J.change i t s.kind.before none)
  | restored {J : Journal Bytes} {r s : Entry Bytes} {rest : List (Entry Bytes)}
      {expected : String} (hr : J.entries = r :: rest) (hs : s ∈ rest)
      (hkind : r.kind = .rollback s.receipt_id expected none) (hstate : r.tx_state = .PREPARED)
      (hsource : s.tx_state = .VERIFIED)
      (ht : J.target = s.kind.before) (hok : s.backup_ok = true) :
      Step i t .undo J (J.update r.receipt_id fun x => x.applied J.restoredText)
  | confirm {J : Journal Bytes} {r : Entry Bytes} {rest : List (Entry Bytes)}
      {source expected text : String} (hr : J.entries = r :: rest)
      (hkind : r.kind = .rollback source expected (some text)) (htext : J.restoredText = text)
      (hstate : r.tx_state = .APPLIED) : Step i t .undo J (J.mark r.receipt_id .VERIFIED)
  | close {J : Journal Bytes} {r : Entry Bytes} {rest : List (Entry Bytes)} {source : String}
      (hr : J.entries = r :: rest) (hs : r.kind.source = some source)
      (hstate : r.tx_state = .VERIFIED) : Step i t .undo J (J.mark source .ROLLED_BACK)
  | abandon {J : Journal Bytes} {r s : Entry Bytes} {rest : List (Entry Bytes)}
      {expected : String} (hr : J.entries = r :: rest) (hs : s ∈ rest)
      (hkind : r.kind = .rollback s.receipt_id expected none) (hstate : r.tx_state = .PREPARED)
      (hlost : s.backup_ok = false) :
      Step i t .undo J (J.mark r.receipt_id .RECOVERY_REQUIRED)

end Settle

end jvc.recovery
