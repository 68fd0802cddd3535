import Jvc.Execution.Outside
import Jvc.Recovery.Saved

open program program.Prog jvc.recovery

namespace jvc

variable {Bytes : Type} [Text] [Host Bytes]

namespace recovery

/-- What lasts of a journal whatever happens to its target. -/
structure Journal.Documented (J : Journal Bytes) : Prop where
  rooted : J.Rooted
  backed : J.Backed

theorem lasting_documented : Lasting (Journal.Documented : Journal Bytes → Prop) where
  step := fun hJ hstep =>
    ⟨hstep.rooted hJ.rooted, hstep.backed hJ.rooted.sourced.wf hJ.rooted.logged hJ.backed⟩
  logged := fun hJ => hJ.rooted.logged
  intact := fun hJ => hJ.rooted.sourced.intact
  start := fun target => ⟨lasting_rooted.start target, fun _ hc => absurd hc List.not_mem_nil⟩
  edit := fun content hJ => ⟨lasting_rooted.edit content hJ.rooted, hJ.backed⟩

theorem stable_undamaged : Stable (Journal.Undamaged : Journal Bytes → Prop) where
  step := fun hJ hstep => {
    rooted := hstep.rooted hJ.rooted
    backed := hstep.backed hJ.rooted.sourced.wf hJ.rooted.logged hJ.backed
    saved := fun p hone => hstep.saved hJ.rooted.sourced.wf hJ.rooted.logged hJ.backed hone
      (hJ.saved p (Journal.one_project_of_step hstep hone)) }
  logged := fun hJ => hJ.rooted.logged
  intact := fun hJ => hJ.rooted.sourced.intact

theorem undamaged_start (target : Option Bytes) : (Journal.start target).Undamaged where
  rooted := lasting_rooted.start target
  backed := fun _ hc => absurd hc List.not_mem_nil
  saved := fun _ _ => {
    last := fun _ _ h => by cases h
    tail := fun _ _ h => by cases h
    latest := fun _ h => absurd h List.not_mem_nil
    kept := fun _ h => absurd h List.not_mem_nil }

end recovery

namespace GovernedExecutor

variable {executor : GovernedExecutor} {w₀ w : World Bytes} {t : Target executor.recovery_store}
  {c : Change Bytes} {id : String}

/-- Calls of any projects, one after the other, each of which may be cut off. -/
inductive Calls (executor : GovernedExecutor) (w₀ : World Bytes) : World Bytes → Prop
  | nil : Calls executor w₀ w₀
  | call {w : World Bytes} (i : Pid) (p : ProjectId) (c : Call Bytes) (fate : Fate)
      (h : Calls executor w₀ w) : Calls executor w₀ (c.leaves executor p i fate w)

theorem calls_of_history {p : ProjectId} {next : Bool → Call Bytes → Prop} {interrupted : Bool}
    (h : History executor p next interrupted w₀ w) : Calls executor w₀ w := by
  induction h with
  | nil => exact .nil
  | call i c fate _ _ ih => exact .call i p c fate ih

theorem quiescent_calls {Inv : Journal Bytes → Prop} (hS : Stable Inv)
    (hstart : ∀ target, Inv (Journal.start target)) (hfresh : Fresh executor.recovery_store w₀)
    (h : Calls executor w₀ w) : Quiescent executor.recovery_store Inv w := by
  induction h with
  | nil => exact hfresh.quiescent hstart
  | call i p c fate _ ih => exact quiescent_call hS ih c fate

/-- The receipt under which a target was changed, and its backup, hold what the change
replaced. -/
structure Saves (store : RecoveryStore) (t : Target store) (c : Change Bytes) (id : String)
    (w : World Bytes) (r : Receipt) : Prop where
  held : w.lookup (store.receipt_path id) = some (Host.dumps r.dict)
  path : r.path = t.path
  operation : r.original_operation = .FS_WRITE
  exists_before : r.preimage_exists = c.before.isSome
  digest : r.preimage_sha256 = some (RecoveryStore.optStr (c.before.map sha256_bytes))
  named : r.backup_file =
    some (RecoveryStore.optStr (c.before.map fun _ => store.backup_path id))
  backup : ∀ data, c.before = some data → w.lookup (store.backup_path id) = some data

theorem saves_of_backed {J : Journal Bytes} (hat : J.At none t w) (hlogged : J.Logged)
    (hback : J.Backed) (hc : c ∈ w.changes) (hpath : c.path = t.path)
    (hid : c.receipt_id = some id) : ∃ e ∈ J.entries, e.receipt_id = id ∧ c ∈ J.log ∧
      Saves executor.recovery_store t c id w (e.receipt t) := by
  have hlog : c ∈ J.log := by
    rw [← hat.log, List.mem_filter, beq_iff_eq]
    exact ⟨hc, hpath⟩
  obtain ⟨e, he, rfl⟩ := List.mem_map.mp (hlogged c hlog id hid)
  obtain ⟨hw, hpre, hbackup⟩ := hback c hlog e he hid
  refine ⟨e, he, rfl, hlog, ?_⟩
  cases hk : e.kind with
  | rollback =>
    rw [hk] at hw
    cases hw
  | write prev pre post backup =>
    rw [hk] at hpre hbackup
    have hpre' : pre = c.before.map sha256_bytes := hpre
    have hbackup' : backup = c.before := hbackup
    refine ⟨hat.held e he, rfl, ?_, ?_, ?_, ?_, fun data hdata => ?_⟩
    · rw [Entry.receipt_operation, hk]
      rfl
    · rw [Entry.receipt_preimage_exists, hk, Kind.preimage_exists, hpre', Option.isSome_map]
    · simp only [Entry.receipt, Entry.details, hk, hpre']
    · simp only [Entry.receipt, Entry.details, hk, hpre', Option.map_map]
      rfl
    · have hheld := hat.backup e he (by rw [hk]; rfl)
      rw [hk] at hheld
      exact hheld.trans (hbackup'.trans hdata)

/-- No governed write loses what it replaced, whatever calls and changes from outside
there have been. -/
theorem preimage_saved (hfresh : Fresh executor.recovery_store w₀) (h : Run executor w₀ w)
    (hc : c ∈ w.changes) (hpath : c.path = t.path) (hid : c.receipt_id = some id) :
    ∃ r : Receipt, Saves executor.recovery_store t c id w r := by
  obtain ⟨J, hJ, hat⟩ := (quiescent_run lasting_documented hfresh h).journal t
  obtain ⟨e, _, _, _, hsaves⟩ := saves_of_backed hat hJ.rooted.logged hJ.backed hc hpath hid
  exact ⟨_, hsaves⟩

/-- Where only calls of one project touch a target, no write that has changed its
content is taken for unapplied. -/
theorem never_unapplied (hfresh : Fresh executor.recovery_store w₀) (h : Calls executor w₀ w)
    {p : ProjectId} (hone : ∀ path (r : Receipt), executor.recovery_store.isReceiptFile path = true →
      w.lookup path = some (Host.dumps r.dict) → r.path = t.path → r.project_id = p.text)
    (hc : c ∈ w.changes) (hpath : c.path = t.path) (hid : c.receipt_id = some id)
    (hne : c.before.map sha256_bytes ≠ c.after.map sha256_bytes) :
    ∃ r : Receipt, Saves executor.recovery_store t c id w r ∧
      r.tx_state ≠ .RECOVERED_UNAPPLIED ∧ r.tx_state ≠ .SUPERSEDED := by
  obtain ⟨J, hJ, hat⟩ := (quiescent_calls stable_undamaged undamaged_start hfresh h).journal t
  obtain ⟨e, he, rfl, hlog, hsaves⟩ :=
    saves_of_backed hat hJ.rooted.logged hJ.backed hc hpath hid
  have hproject : ∀ x ∈ J.entries, x.project_id = p := by
    intro x hx
    have htext := hone _ (x.receipt t) x.isReceiptFile (hat.held x hx) rfl
    rw [Entry.receipt_project_id] at htext
    generalize x.project_id = q at htext
    cases p
    cases q
    simpa using htext
  exact ⟨_, hsaves, (hJ.saved p hproject).kept e he c hlog hid hne⟩

end GovernedExecutor

end jvc

namespace jvc.GovernedExecutor

section Samples

attribute [local instance] asciiText recovery.sampleHost

/-- The edit of the sample file that was not cut off. -/
def sampleChange : Change SampleBytes :=
  ⟨0, "/p/a.txt", some .before, some .after,
    some "recovery-demo-20260101T000002Z-000000000-0123456789ab"⟩

theorem sampleChange_mem : sampleChange ∈ sampleServed.changes := by
  have hfind : (sampleServed.changes.find? fun c => c.path == "/p/a.txt").map
      (fun c => (c.by_process, c.path, c.before, c.after, c.receipt_id)) =
      some (0, "/p/a.txt", some .before, some .after,
        some "recovery-demo-20260101T000002Z-000000000-0123456789ab") := by
    decide +kernel
  obtain ⟨c, hc, heq⟩ := Option.map_eq_some_iff.mp hfind
  have hsame : c = sampleChange := by
    cases c
    simpa [sampleChange] using heq
  rw [← hsame]
  exact List.mem_of_find?_eq_some hc

/-- The project of a receipt. -/
def ownedBy (project_id : String) : SampleBytes → Bool
  | .object data => data.project_id == some (.str project_id)
  | _ => true

theorem sampleServed_owned (path : Path) (r : Receipt)
    (h : sampleServed.lookup path = some (.object r.dict)) : r.project_id = "demo" := by
  have hall : ∀ file ∈ sampleServed.files.entries, ownedBy "demo" file.2 = true := by
    decide +kernel
  have howned := hall _ (AList.mem_lookup_iff.mp h)
  have heq : some (Val.str r.project_id) = some (.str "demo") := beq_iff_eq.mp howned
  exact Val.str.inj (Option.some.inj heq)

theorem preimage_saved_cut : ∃ r : Receipt, Saves sampleExecutor.recovery_store sampleTarget
    sampleChange "recovery-demo-20260101T000002Z-000000000-0123456789ab" sampleServed r :=
  preimage_saved sampleFirst_fresh sampleServed_history.run sampleChange_mem rfl rfl

theorem never_unapplied_cut : ∃ r : Receipt, Saves sampleExecutor.recovery_store sampleTarget
    sampleChange "recovery-demo-20260101T000002Z-000000000-0123456789ab" sampleServed r ∧
      r.tx_state ≠ .RECOVERED_UNAPPLIED ∧ r.tx_state ≠ .SUPERSEDED :=
  never_unapplied (p := sampleProject) sampleFirst_fresh (calls_of_history sampleServed_history)
    (fun path r _ hr _ => sampleServed_owned path r hr) sampleChange_mem rfl rfl (by decide)

end Samples

end jvc.GovernedExecutor
