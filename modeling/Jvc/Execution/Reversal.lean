import Jvc.Execution.History
import Jvc.Recovery.Latest

open program program.Prog jvc.recovery

namespace jvc.GovernedExecutor

variable {Bytes : Type} [Text] [Host Bytes] {self : GovernedExecutor} {p : ProjectId} {i : Pid}
  {w₀ w : World Bytes} {relative_path expected c : String} {t : Target self.recovery_store}

/-- The rollback of a target, from a host that `J` describes: it restores what the
latest verified write found and closes that write, and where nothing is
unresolved it goes through, unless the receipt ids that were drawn repeat and no fresh
one is found. -/
structure Reverses (self : GovernedExecutor) (p : ProjectId) (i : Pid)
    (relative_path expected c : String) (t : Target self.recovery_store) (w : World Bytes)
    (J : Journal Bytes) : Prop where
  restores : ∀ reply w', (self.fs_rollback p.text relative_path expected).run (machine Bytes) i w =
    (.ok reply, w') → ∃ change e, ∃ K : Journal Bytes, J.Latest change e ∧
      reply.receipt_id = e.receipt_id ∧ w'.lookup t.path = change.before ∧
        K.At none t w' ∧ K.Undoes J e
  available : ∀ route change e, self.Reaches p.text relative_path w route t c →
    J.Latest change e → J.Resolvable p.text → ∃ data, w.lookup t.path = some data ∧
      (expected = sha256_bytes data → ∃ result w',
        (self.fs_rollback p.text relative_path expected).run (machine Bytes) i w = (result, w') ∧
          ((∃ reply, result = .ok reply) ∨ ∃ err, result = .error err ∧ Unallocated err w'))

/-- Where nothing is unresolved, the target holds what the latest write left. -/
theorem present_of_latest {J : Journal Bytes} {change : Change Bytes} {e : Entry Bytes}
    (hJ : J.Lineage p false) (hlatest : J.Latest change e) (hres : J.Resolvable p.text) :
    ∃ data, J.target = some data := by
  have hstands := (hJ.ready rfl).closed.mem_standing.mpr hlatest.verifies
  have hlinked := hJ.chained.linked_current hres
  cases hstanding : J.standing with
  | nil =>
    rw [hstanding] at hstands
    cases hstands
  | cons v rest =>
    rw [hstanding] at hlinked
    obtain ⟨_, hsome, _⟩ := hlinked
    rw [Journal.current, Option.isSome_map] at hsome
    exact Option.isSome_iff_exists.mp hsome

end jvc.GovernedExecutor

namespace jvc.GovernedExecutor

section Samples

attribute [local instance] asciiText recovery.sampleHost

theorem sample_governs : sampleExecutor.Governs sampleProject.text "a.txt" "FS_ROLLBACK" false
    sampleProject sampleTarget "a.txt" := ⟨rfl, _, rfl, by decide⟩

end Samples

end jvc.GovernedExecutor
