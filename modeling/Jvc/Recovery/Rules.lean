import Jvc.Recovery.Frame

open program program.Prog

namespace jvc

variable {Bytes α : Type} {i : Pid} {R G : World Bytes → World Bytes → Prop}

@[simp] theorem wp_raiseIf {c : Bool} {e : Err} {Q : Except Err Unit → World Bytes → Prop}
    {w : World Bytes} :
    (raiseIf c e).wp (machine Bytes) i R G Q w ↔
      (c = true → Q (.error e) w) ∧ (c = false → Q (.ok ()) w) := by
  cases c <;> simp [raiseIf]

@[simp] theorem wp_attempt {p : Jvc Bytes α} {caught : Err → Bool}
    {Q : Except Err (Option α) → World Bytes → Prop} {w : World Bytes} :
    (attempt p caught).wp (machine Bytes) i R G Q w ↔
      p.wp (machine Bytes) i R G (onResult (fun a => Q (.ok (some a))) fun e s =>
        (caught e = true → Q (.ok none) s) ∧ (caught e = false → Q (.error e) s)) w := by
  simp only [attempt, tryCatch_eq, wp_handle, wp_map]
  refine ⟨fun h => wp_post h ?_, fun h => wp_post h ?_⟩
  · rintro (e | a) s hs
    · cases hc : caught e <;> simpa [hc] using hs
    · exact hs
  · rintro (e | a) s hs
    · cases hc : caught e <;> simpa [hc] using hs
    · exact hs

/-- An operation that only looks at the host. -/
theorem wp_look {op : Op Bytes} {k : op.Res → Jvc Bytes α} {r : World Bytes → op.Res}
    (hstep : ∀ w, World.step i op w = (r w, w)) {Q : Except Err α → World Bytes → Prop}
    {w : World Bytes} (h : ∀ w', R w w' → (k (r w')).wp (machine Bytes) i R G Q w') :
    Prog.wp (machine Bytes) i R G (.act op k) Q w := by
  intro w' hw
  have heq : (machine Bytes).step i op w' = (r w', w') := hstep w'
  rw [heq]
  exact ⟨.inl rfl, h w' hw⟩

section Look

variable {w : World Bytes} {p : Path}

theorem wp_is_dir {Q : Except Err Bool → World Bytes → Prop}
    (h : ∀ w', R w w' → Q (.ok (decide (p ∈ w'.dirs))) w') :
    (is_dir p).wp (machine Bytes) i R G Q w :=
  wp_look (fun _ => rfl) h

theorem wp_is_file {Q : Except Err Bool → World Bytes → Prop}
    (h : ∀ w', R w w' → Q (.ok (w'.lookup p).isSome) w') :
    (is_file p).wp (machine Bytes) i R G Q w :=
  wp_look (fun _ => rfl) h

/-- Looking for a file under a name: only a name that is too long, of no file, raises. -/
theorem wp_stat {text : String} {Q : Except Err Bool → World Bytes → Prop}
    (hok : ∀ w', R w w' → Q (.ok (w'.lookup p).isSome) w')
    (herror : ∀ w', R w w' → w'.lookup p = none → too_long text = true →
      Q (.error (name_too_long text)) w') :
    (stat p text).wp (machine Bytes) i R G Q w := by
  refine wp_seq.mpr (wp_is_file fun w' hw => ?_)
  rw [onResult_ok, wp_seq, wp_raiseIf]
  have hdone := hok w' hw
  have hraise := herror w' hw
  cases hp : w'.lookup p with
  | none =>
    rw [hp] at hdone
    exact ⟨fun hlong => hraise hp hlong, fun _ => hdone⟩
  | some data =>
    rw [hp] at hdone
    exact ⟨fun h => (Bool.false_ne_true h).elim, fun _ => hdone⟩

theorem wp_read_bytes {Q : Except Err Bytes → World Bytes → Prop}
    (hsome : ∀ w' data, R w w' → w'.lookup p = some data → Q (.ok data) w')
    (hnone : ∀ w' e, R w w' → w'.lookup p = none → e.isOSError = true → Q (.error e) w') :
    (read_bytes p).wp (machine Bytes) i R G Q w := by
  refine wp_look (fun w' => show World.step i (.read_bytes p) w' = (w'.lookup p, w') from rfl)
    fun w' hw => ?_
  cases hp : w'.lookup p with
  | none => exact hnone w' _ hw hp rfl
  | some data => exact hsome w' data hw hp

theorem wp_glob {dir front back : String} {Q : Except Err (List Path) → World Bytes → Prop}
    (h : ∀ w', R w w' → Q (.ok (w'.globbed dir front back)) w') :
    (glob dir front back).wp (machine Bytes) i R G Q w :=
  wp_look (fun _ => rfl) h

theorem wp_sha256_file [Text] [Host Bytes] {Q : Except Err String → World Bytes → Prop}
    (hsome : ∀ w' data, R w w' → w'.lookup p = some data → Q (.ok (sha256_bytes data)) w')
    (hnone : ∀ w' e, R w w' → w'.lookup p = none → e.isOSError = true → Q (.error e) w') :
    (sha256_file p).wp (machine Bytes) i R G Q w :=
  wp_seq.mpr (wp_read_bytes hsome hnone)

end Look

theorem World.mem_globbed {w : World Bytes} {dir front back : String} {p : Path} :
    p ∈ w.globbed dir front back ↔
      globMatch dir front back p = true ∧ (w.lookup p).isSome := by
  unfold World.globbed World.lookup
  rw [List.mem_insertionSort, List.mem_filter, AList.lookup_isSome, AList.mem_keys, and_comm]

theorem World.globbed_nodup (w : World Bytes) (dir front back : String) :
    (w.globbed dir front back).Nodup :=
  (List.perm_insertionSort _ _).nodup_iff.mpr (w.files.keys_nodup.filter _)

namespace recovery

variable [Text] [Host Bytes] {store : RecoveryStore} {owner : Option Pid} {t : Target store}
  {Inv : Journal Bytes → Prop} {J : Journal Bytes} {w : World Bytes}

/-- A receipt is written with `json.dumps`, where it is not too deep for it. -/
theorem atomic_write_json_eq {p : Path} {data : Dict} (h : data.deep = false) :
    (atomic_write_json p data : Jvc Bytes Unit) = durable_write_bytes p (Host.dumps data) :=
  if_neg (by rw [h]; exact Bool.false_ne_true)

/-- Each step works on the target whose lock is held, and leaves a journal that
satisfies `Inv`. -/
def Guar (owner : Option Pid) (i : Pid) (t : Target store) (Inv : Journal Bytes → Prop)
    (w w' : World Bytes) : Prop :=
  Touch i t w w' ∧ ∃ J, Inv J ∧ J.At owner t w'

/-- `p` runs as a part of the critical section of a target. -/
abbrev critical (owner : Option Pid) (i : Pid) (t : Target store) (Inv : Journal Bytes → Prop)
    (p : Jvc Bytes α) (Q : Except Err α → World Bytes → Prop) (w : World Bytes) : Prop :=
  p.wp (machine Bytes) i (Rely owner i t) (Guar owner i t Inv) Q w

theorem critical_mono {Inv₀ : Journal Bytes → Prop} {p : Jvc Bytes α}
    {Q : Except Err α → World Bytes → Prop} (hsub : ∀ J, Inv₀ J → Inv J)
    (h : critical owner i t Inv₀ p Q w) : critical owner i t Inv p Q w :=
  wp_mono (fun _ _ => id) (fun _ _ ⟨htouch, J, hJ, hat⟩ => ⟨htouch, J, hsub J hJ, hat⟩)
    (fun _ _ => id) h

section Write

theorem critical_act {op : Op Bytes} {k : op.Res → Jvc Bytes α}
    {Q : Except Err α → World Bytes → Prop} {J' : Journal Bytes} (hat : J.At owner t w)
    (hInv : Inv J')
    (h : ∀ w', Rely owner i t w w' → J.At owner t w' →
      Touch i t w' (World.step i op w').2 ∧ J'.At owner t (World.step i op w').2 ∧
        critical owner i t Inv (k (World.step i op w').1) Q (World.step i op w').2) :
    critical owner i t Inv (.act op k) Q w := by
  intro w' hw
  obtain ⟨htouch, hat', hrest⟩ := h w' hw (hw.view J hat)
  exact ⟨.inr ⟨htouch, J', hInv, hat'⟩, hrest⟩

/-- The receipt of an entry is rewritten. -/
theorem critical_rewrite {e : Entry Bytes} {f : Entry Bytes → Entry Bytes} {data : Dict}
    {Q : Except Err Unit → World Bytes → Prop} (hat : J.At owner t w) (he : e ∈ J.entries)
    (hf : Journal.Keeps f) (hdata : data = ((f e).receipt t).dict)
    (hInv : Inv (J.update e.receipt_id f))
    (h : ∀ w', Later store i w w' → (J.update e.receipt_id f).At owner t w' → Q (.ok ()) w') :
    critical owner i t Inv (atomic_write_json (store.receipt_path e.receipt_id) data) Q w := by
  subst hdata
  rw [atomic_write_json_eq ((f e).receipt_deep t)]
  refine critical_act hat hInv fun w' hw hat' => ?_
  have htouch : Touch i t w' (w'.write i (store.receipt_path e.receipt_id)
      (Host.dumps ((f e).receipt t).dict) none) :=
    .rewrite e (f e) (hf.receipt_id e) (hat'.held e he)
  have hnew := hat'.rewrite (i := i) he hf
  refine ⟨htouch, hnew, h _ (hw.toLater.trans (htouch.later fun front s backup hres => ?_)) hnew⟩
  exact hres.write (fun heq => hres.fresh hat' e he (receipt_path_inj heq))
    (receipt_path_ne_backup_path _ _)

/-- The receipt of an entry is written back as it is. -/
theorem critical_rewrite_same {e : Entry Bytes} {data : Dict}
    {Q : Except Err Unit → World Bytes → Prop} (hat : J.At owner t w) (he : e ∈ J.entries)
    (hdata : data = (e.receipt t).dict) (hInv : Inv J)
    (h : ∀ w', Later store i w w' → J.At owner t w' → Q (.ok ()) w') :
    critical owner i t Inv (atomic_write_json (store.receipt_path e.receipt_id) data) Q w := by
  have hsame : J.update e.receipt_id (fun x => x) = J := by
    simp [Journal.update]
  have hkeeps : Journal.Keeps fun x : Entry Bytes => x :=
    ⟨fun _ => rfl, fun _ => rfl, fun _ => rfl, fun _ => rfl⟩
  refine critical_rewrite hat he hkeeps hdata (by rwa [hsame]) fun w' hw hat' => ?_
  rw [hsame] at hat'
  exact h w' hw hat'

/-- The receipt of an entry in another state. -/
theorem critical_mark {e : Entry Bytes} {state : TxState} {data : Dict}
    {Q : Except Err Unit → World Bytes → Prop} (hat : J.At owner t w) (he : e ∈ J.entries)
    (hdata : data = ((e.mark state).receipt t).dict) (hInv : Inv (J.mark e.receipt_id state))
    (h : ∀ w', Later store i w w' → (J.mark e.receipt_id state).At owner t w' → Q (.ok ()) w') :
    critical owner i t Inv (atomic_write_json (store.receipt_path e.receipt_id) data) Q w :=
  critical_rewrite hat he (Journal.keeps_mark state) hdata hInv h

/-- The first receipt under a drawn id. -/
theorem critical_record {e : Entry Bytes} {front : String} {backup : Option Bytes} {data : Dict}
    {Q : Except Err Unit → World Bytes → Prop} (hat : J.At owner t w)
    (hid : e.receipt_id = front ++ e.stamp.text) (hres : store.Reserved i front e.stamp backup w)
    (hbackup : e.kind.isWrite = true → e.kind.backup = backup)
    (hwf : (∀ x ∈ J.entries, x.receipt_id ≠ e.receipt_id) → (J.add e).Wf)
    (hdata : data = (e.receipt t).dict) (hfits : too_long t.path = false)
    (hInv : (∀ x ∈ J.entries, x.receipt_id ≠ e.receipt_id) → Inv (J.add e))
    (h : ∀ w', store.Grows w w' → (J.add e).At owner t w' → Q (.ok ()) w') :
    critical owner i t Inv (atomic_write_json (store.receipt_path e.receipt_id) data) Q w := by
  subst hdata
  have hfresh : ∀ x ∈ J.entries, x.receipt_id ≠ e.receipt_id := by
    intro x hx
    rw [hid]
    exact hres.fresh hat x hx
  rw [atomic_write_json_eq (e.receipt_deep t)]
  refine critical_act hat (hInv hfresh) fun w' hw hat' => ?_
  have hres' := hw.reserved _ _ _ hres
  have htouch : Touch i t w' (w'.write i (store.receipt_path e.receipt_id)
      (Host.dumps (e.receipt t).dict) none) := .record e hid hres'
  have hnew := hat'.record hid hres' hbackup (hwf hfresh) hfits
  exact ⟨htouch, hnew, h _ (hw.grows.trans htouch.grows) hnew⟩

/-- The backup file of a drawn id. -/
theorem critical_save {front : String} {s : Stamp} {data : Bytes}
    {Q : Except Err Unit → World Bytes → Prop} (hat : J.At owner t w)
    (hres : store.Reserved i front s none w) (hInv : Inv J)
    (h : ∀ w', J.At owner t w' → store.Reserved i front s (some data) w' → store.Grows w w' →
      Q (.ok ()) w') :
    critical owner i t Inv
      (durable_write_bytes (store.backup_path (front ++ s.text)) data) Q w := by
  refine critical_act hat hInv fun w' hw hat' => ?_
  have hres' := hw.reserved _ _ _ hres
  have htouch : Touch i t w' (w'.write i (store.backup_path (front ++ s.text)) data none) :=
    .save data hres'
  have hnew := hat'.save data hres'
  refine ⟨htouch, hnew, h _ hnew ⟨hres'.drawn, ?_, ?_⟩ (hw.grows.trans htouch.grows)⟩
  · change World.lookup (World.write _ _ _ _ _) _ = _
    rw [World.lookup_write, if_neg (receipt_path_ne_backup_path _ _), hres'.receipt]
  · change World.lookup (World.write _ _ _ _ _) _ = _
    rw [World.lookup_write, if_pos rfl]

theorem critical_install {data : Bytes} {id : String} {Q : Except Err Unit → World Bytes → Prop}
    (hat : J.At owner t w) (hInv : Inv (J.change i t.path (some data) (some id)))
    (h : ∀ w', Later store i w w' → (J.change i t.path (some data) (some id)).At owner t w' →
      Q (.ok ()) w') :
    critical owner i t Inv (install t.path data id) Q w := by
  refine critical_act hat hInv fun w' hw hat' => ?_
  have htouch : Touch i t w' (w'.write i t.path data (some id)) := .change data (some id)
  have hnew := hat'.change (i := i) data (some id)
  refine ⟨htouch, hnew, h _ (hw.toLater.trans (htouch.later fun front s backup hres => ?_)) hnew⟩
  exact hres.write (t.path_ne_receipt_path _) (t.path_ne_backup_path _)

theorem critical_write_target {data : Bytes} {Q : Except Err Unit → World Bytes → Prop}
    (hat : J.At owner t w) (hInv : Inv (J.change i t.path (some data) none))
    (h : ∀ w', Later store i w w' → (J.change i t.path (some data) none).At owner t w' →
      Q (.ok ()) w') :
    critical owner i t Inv (durable_write_bytes t.path data) Q w := by
  refine critical_act hat hInv fun w' hw hat' => ?_
  have htouch : Touch i t w' (w'.write i t.path data none) := .change data none
  have hnew := hat'.change (i := i) data none
  refine ⟨htouch, hnew, h _ (hw.toLater.trans (htouch.later fun front s backup hres => ?_)) hnew⟩
  exact hres.write (t.path_ne_receipt_path _) (t.path_ne_backup_path _)

theorem critical_unlink {Q : Except Err Unit → World Bytes → Prop}
    (hat : J.At owner t w) (hInv : Inv (J.change i t.path none none))
    (h : ∀ w', Later store i w w' → (J.change i t.path none none).At owner t w' →
      Q (.ok ()) w') :
    critical owner i t Inv (unlink t.path) Q w := by
  refine critical_act hat hInv fun w' hw hat' => ?_
  have htouch : Touch i t w' (w'.remove i t.path) := .delete w'
  have hnew := hat'.delete (i := i)
  refine ⟨htouch, hnew, h _ (hw.toLater.trans (htouch.later fun front s backup hres => ?_)) hnew⟩
  refine ⟨hres.drawn, ?_, ?_⟩
  · rw [World.lookup_remove, if_neg (t.path_ne_receipt_path _).symm, hres.receipt]
  · rw [World.lookup_remove, if_neg (t.path_ne_backup_path _).symm, hres.backup]

theorem critical_time_ns {Q : Except Err Int → World Bytes → Prop} (hat : J.At owner t w)
    (hInv : Inv J) (h : ∀ w' n, Later store i w w' → J.At owner t w' → Q (.ok n) w') :
    critical owner i t Inv time_ns Q w := by
  refine critical_act hat hInv fun w' hw hat' => ?_
  have htouch : Touch i t w' { w' with ticks := w'.ticks + 1 } := .tick w'
  have hnew : J.At owner t { w' with ticks := w'.ticks + 1 } :=
    { hat' with sound := htouch.sound hat'.sound }
  refine ⟨htouch, hnew, h _ _ (hw.toLater.trans (htouch.later fun front s backup hres => ?_)) hnew⟩
  exact { hres with drawn := hres.drawn.imp fun n hn => ⟨Nat.lt_succ_of_lt hn.1, hn.2⟩ }

end Write

end recovery

end jvc
