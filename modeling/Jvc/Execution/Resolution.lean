import Jvc.Execution.Outside

open program program.Prog jvc.recovery jvc.policy

namespace jvc

variable {Bytes : Type} [Text] [Host Bytes]

namespace recovery

variable {store : RecoveryStore} {i : Pid} {t : Path} {J J' : Journal Bytes}

namespace Journal

/-- What can be resolved does not depend on how a journal lists its receipts. -/
theorem At.resolvable_iff {K : Journal Bytes} {owner owner' : Option Pid} {t : Target store}
    {w : World Bytes} (hJ : J.At owner t w) (hK : K.At owner' t w) (project_id : String) :
    J.Resolvable project_id ↔ K.Resolvable project_id := by
  have hcurrent : J.current = K.current := by rw [current, current, ← hJ.target, ← hK.target]
  refine forall_congr' fun e => ?_
  rw [hJ.mem_iff hK, hcurrent]

/-- A settled journal that still blocks was unresolved before. -/
theorem Sourced.resolvable_of_settling (h : J.Sourced) (hsettling : Settling i t J J')
    {project_id : String} (hsettled : J'.Settled project_id) (hfree : J'.Unblocked project_id) :
    J.Resolvable project_id := by
  obtain ⟨_, _, hres⟩ := h.overtaking hsettling.overtaking
  exact (hres project_id).mp (hsettled.resolvable_iff.mpr hfree)

/-- A rollback leaves a settled journal. -/
theorem Settled.undone {project_id : String} {r s : Entry Bytes} (h : J.Settled project_id) :
    (J.undone i t r s).Settled project_id := by
  intro x hx hproject
  rcases List.mem_cons.mp hx with rfl | hold
  · rfl
  · obtain ⟨y, hy, ⟨_, rfl⟩ | ⟨_, rfl⟩⟩ := mem_mark.mp hold
    · rfl
    · exact h x hy hproject

/-- A rollback leaves no receipt unresolved only where none was. -/
theorem Sourced.undone_unblocked_iff {p : ProjectId} {expected : String} {r s : Entry Bytes}
    (h : J.Sourced) (hback : RolledBack i t p expected J J' r s) :
    (J'.undone i t r s).Unblocked p.text ↔ J.Resolvable p.text := by
  obtain ⟨hJ', _, hres⟩ := h.overtaking hback.overtaking
  rw [← hres, hback.settled.resolvable_iff]
  constructor
  · intro hfree x hx hproject
    by_cases hid : x.receipt_id = s.receipt_id
    · rw [hJ'.wf.eq_of_id hx hback.intent.source hid, hback.intent.source_state]
      rfl
    · refine hfree x (List.mem_cons_of_mem _ ?_) hproject
      exact mem_mark.mpr ⟨x, hx, .inr ⟨hid, rfl⟩⟩
  · intro hfree x hx hproject
    rcases List.mem_cons.mp hx with rfl | hold
    · rfl
    · obtain ⟨y, hy, ⟨_, rfl⟩ | ⟨_, rfl⟩⟩ := mem_mark.mp hold
      · rfl
      · exact hfree x hy hproject

end Journal

end recovery

namespace GovernedExecutor

variable {self : GovernedExecutor} {p : ProjectId} {i : Pid} {w w₀ : World Bytes}
  {relative_path c : String} {content : Bytes} {capability : Bool} {extra : List String}
  {route : Route} {t : Target self.recovery_store}

/-- A write passes every check before its lock. -/
structure Admits (executor : GovernedExecutor) (project_id relative_path : String) (capability : Bool)
    (extra : List String) (w : World Bytes) (route : Route) (t : Target executor.recovery_store)
    (c : String) : Prop where
  args : (extra.contains "permit_held_mutation" || extra.contains "confirm") = false
  found : executor.registry.get project_id = some route
  root : route.root ∈ w.dirs
  granted : needs_cap route relative_path = true → capability = true
  permitted : assert_permitted_path route.root relative_path "FS_WRITE"
    (needs_cap route relative_path) = .ok (t.path, c)
  confirmation : is_within_store t.path executor.confirmation_store = false

attribute [local irreducible] assert_permitted_path

/-- An admitted write is its critical section. -/
theorem wp_write_admitted {expected : Option String} {G : World Bytes → World Bytes → Prop}
    {Q : Except Err WriteReply → World Bytes → Prop}
    (h : self.Admits p.text relative_path capability extra w route t c)
    (hlock : (with_lock t.lock (self.write_locked p.text t.path c content expected)).wp
      (machine Bytes) i Eq G Q w) :
    (self.fs_write p.text relative_path content expected capability extra).wp (machine Bytes) i
      Eq G Q w := by
  have hroot : decide (route.root ∈ w.dirs) = true := decide_eq_true h.root
  have hwrite : (self.write_permitted route p.text relative_path content expected
      (needs_cap route relative_path)).wp (machine Bytes) i Eq G Q w := by
    rw [write_permitted, wp_seq, wp_ofExcept, h.permitted, onResult_ok, wp_seq,
      assert_outside_host_stores, wp_raiseIf, h.confirmation, t.outside]
    refine ⟨fun hno => absurd hno Bool.false_ne_true, fun _ => ?_⟩
    rw [onResult_ok]
    exact hlock
  rw [fs_write, fs_write_with, wp_seq, wp_raiseIf, h.args]
  refine ⟨fun hno => absurd hno Bool.false_ne_true, fun _ => ?_⟩
  rw [onResult_ok, wp_seq, resolve_project, h.found]
  refine wp_seq.mpr (wp_is_dir fun w₁ hw₁ => ?_)
  subst hw₁
  rw [onResult_ok, hroot]
  refine wp_seq.mpr (wp_raiseIf.mpr ⟨fun hno => absurd hno Bool.false_ne_true, fun _ => ?_⟩)
  simp only [onResult_ok, pure_eq]
  cases hneed : needs_cap route relative_path with
  | true =>
    rw [hneed] at hwrite
    simpa only [hneed, h.granted hneed, if_true, wp_seq, wp_ret, onResult_ok, wp_raiseIf, Bool.not_true,
      Bool.and_false, Bool.false_and, Bool.false_eq_true, false_implies, true_and, if_false,
      true_implies] using hwrite
  | false =>
    rw [hneed] at hwrite
    simpa only [hneed, Bool.false_eq_true, if_false, wp_seq, wp_ret, onResult_ok, wp_raiseIf,
      Bool.false_and, false_implies, true_and, true_implies] using hwrite

/-- Where receipts are unresolved, an admitted write is denied for that reason. -/
theorem write_blocked {expected : Option String} {J : Journal Bytes}
    (hadmits : self.Admits p.text relative_path capability extra w route t c)
    (h : Quiescent self.recovery_store Journal.Rooted w) (hat : J.At none t w) (hJ : J.Rooted)
    (hblocked : ¬ J.Resolvable p.text) : ∃ err w',
      (self.fs_write p.text relative_path content expected capability extra).run (machine Bytes) i w =
        (.error err, w') ∧ err.isRecoveryRequired = true := by
  have hwp : (self.fs_write p.text relative_path content expected capability extra).wp
      (machine Bytes) i Eq (Move self.recovery_store (fun _ _ J => J.Rooted) i)
      (fun r _ => ∃ err, r = .error err ∧ err.isRecoveryRequired = true) w := by
    refine wp_write_admitted hadmits
      (wp_with_lock_alone (fun _ _ _ hJ => hJ) h.everywhere hat hJ fun w₁ _ hat₁ => ?_)
    have hkeep : ∀ J J' : Journal Bytes, J.Rooted → Step i t.path .settle J J' → J'.Rooted :=
      fun J J' hJ hstep => hstep.rooted hJ
    refine wp_seq.mpr (critical_assert_unblocked hkeep hat₁ hJ
      (fun w₂ J' _ _ hsettling hsettled hfree => ?_) fun w₂ J' err hat₂ hJ' _ _ herr => ?_)
    · exact absurd (hJ.sourced.resolvable_of_settling hsettling hsettled hfree) hblocked
    · exact ⟨J', hJ', hat₂, fun _ _ _ _ _ => ⟨err, rfl, herr⟩⟩
  have hrun := run_of_wp (fun _ => rfl) hwp
  generalize (self.fs_write p.text relative_path content expected capability extra).run
    (machine Bytes) i w = run at hrun
  obtain ⟨result, w'⟩ := run
  obtain ⟨err, rfl, herr⟩ := hrun
  exact ⟨err, w', rfl, herr⟩

/-- Where nothing is unresolved, no write is denied for that reason. -/
theorem write_unblocked {expected : Option String} {J : Journal Bytes} {err : Err}
    {w' : World Bytes} {operation : String} {privileged : Bool}
    (h : Quiescent self.recovery_store Journal.Rooted w)
    (hgov : self.Governs p.text relative_path operation privileged p t c) (hat : J.At none t w)
    (hfree : J.Resolvable p.text)
    (hrun : (self.fs_write p.text relative_path content expected capability extra).run
      (machine Bytes) i w = (.error err, w')) : err.isRecoveryRequired = false := by
  have hwp : (self.fs_write p.text relative_path content expected capability extra).wp
      (machine Bytes) i Eq (Move self.recovery_store (fun _ _ J => J.Rooted) i)
      (fun r w' => Quiescent self.recovery_store Journal.Rooted w' ∧
        WriteEnds Journal.Rooted self p i relative_path content expected extra w r w') w :=
    wp_write_ends lasting_rooted.toStable h
  have hend := (run_of_wp (fun _ => rfl) hwp).2
  rw [hrun] at hend
  cases hend with
  | refused herr => exact herr
  | denied hgov' _ hat' _ _ hdenied =>
    obtain ⟨_, rfl, _⟩ := hgov.unique hgov'
    cases hdenied with
    | blocked _ hres => exact absurd ((hat.resolvable_iff hat' p.text).mp hfree) hres
    | unnamed _ _ _ herr => exact herr
    | stale _ _ _ herr => exact herr
    | oversized _ _ _ herr => exact herr
    | repeated _ _ hrepeat => exact hrepeat.plain

/-- A call raised `RecoveryRequiredError`. -/
def requires {α : Type} : Except Err α → Bool
  | .error err => err.isRecoveryRequired
  | .ok _ => false

omit [Text] in
theorem requires_iff {α : Type} {result : Except Err α} :
    requires result = true ↔ ∃ err, result = .error err ∧ err.isRecoveryRequired = true := by
  cases result with
  | ok value => simp [requires]
  | error err => simp [requires]

/-- Rollback as the way out: where an admitted write of the present content is denied
because receipts of the target are unresolved, a rollback of that content succeeds,
and after a rollback that succeeds no receipt is unresolved and no write is denied
for that reason. -/
structure Resolves (executor : GovernedExecutor) (p : ProjectId) (i : Pid) (relative_path : String)
    (capability : Bool) (extra : List String) (t : Target executor.recovery_store) (w : World Bytes) :
    Prop where
  succeeds : ∀ data (content : Bytes) err w', w.lookup t.path = some data →
    (executor.fs_write p.text relative_path content (some (sha256_bytes data)) capability extra).run
      (machine Bytes) i w = (.error err, w') → err.isRecoveryRequired = true →
        ∃ reply w'', (executor.fs_rollback p.text relative_path (sha256_bytes data)).run
          (machine Bytes) i w = (.ok reply, w'')
  clears : ∀ expected reply w', (executor.fs_rollback p.text relative_path expected).run
    (machine Bytes) i w = (.ok reply, w') →
      (∃ K : Journal Bytes, K.At none t w' ∧ K.Unblocked p.text) ∧
        ∀ (content : Bytes) expected' err w'',
          (executor.fs_write p.text relative_path content expected' capability extra).run
            (machine Bytes) i w' = (.error err, w'') → err.isRecoveryRequired = false

/-- In no reachable state does rollback unblock a target: it is the way out only
where there is nothing to resolve. -/
theorem resolves_iff (hfresh : Fresh self.recovery_store w₀) (hrun : Run self w₀ w)
    (hadmits : self.Admits p.text relative_path capability extra w route t c) :
    ∃ J : Journal Bytes, J.At none t w ∧ (Resolves self p i relative_path capability extra t w ↔
      w.lookup t.path = none ∨ J.Resolvable p.text) := by
  have h := quiescent_run lasting_rooted hfresh hrun
  obtain ⟨J, hJ, hat⟩ := h.journal t
  have hwrites : self.Governs p.text relative_path "FS_WRITE" (needs_cap route relative_path) p t c :=
    ⟨rfl, route, hadmits.found, hadmits.permitted⟩
  have hends : ∀ expected, Quiescent self.recovery_store Journal.Rooted
      ((self.fs_rollback p.text relative_path expected).run (machine Bytes) i w).2 ∧
        UndoEnds Journal.Rooted self p i relative_path expected w
          ((self.fs_rollback p.text relative_path expected).run (machine Bytes) i w).1
            ((self.fs_rollback p.text relative_path expected).run (machine Bytes) i w).2 :=
    fun expected => run_of_wp (fun _ => rfl) (wp_undo_ends lasting_rooted.toStable h)
  refine ⟨J, hat, fun hresolves => ?_, fun hfree => ⟨fun data content err w' hdata hwrite herr => ?_,
    fun expected reply w' hok => ?_⟩⟩
  · by_contra hno
    obtain ⟨hsome, hblocked⟩ := not_or.mp hno
    obtain ⟨data, hdata⟩ := Option.ne_none_iff_exists'.mp hsome
    have hdenied : ∃ err w₁, (self.fs_write p.text relative_path data (some (sha256_bytes data))
        capability extra).run (machine Bytes) i w = (.error err, w₁) ∧ err.isRecoveryRequired = true :=
      write_blocked hadmits h hat hJ hblocked
    obtain ⟨err, w₁, hwrite, herr⟩ := hdenied
    obtain ⟨reply, w₂, hok⟩ := hresolves.succeeds data data err w₁ hdata hwrite herr
    have hend := (hends (sha256_bytes data)).2
    rw [hok] at hend
    obtain ⟨⟨K, hatK, hclear⟩, _⟩ := hresolves.clears _ reply w₂ hok
    cases hend with
    | @undone _ t' c' J₁ J' r s hgov hJ' hat' hback hat₂ =>
      obtain ⟨_, rfl, _⟩ := hwrites.unique hgov
      have hunblocked : (J'.undone i t.path r s).Unblocked p.text :=
        fun x hx => hclear x ((hat₂.mem_iff hatK).mp hx)
      refine hblocked ((hat.resolvable_iff hat' p.text).mpr ?_)
      exact (hJ'.sourced.undone_unblocked_iff hback).mp hunblocked
  · rcases hfree with habsent | hres
    · rw [habsent] at hdata
      cases hdata
    · rw [write_unblocked h hwrites hat hres hwrite] at herr
      cases herr
  · obtain ⟨hq, hend⟩ := hends expected
    rw [hok] at hend hq
    cases hend with
    | undone hgov hJ' hat' hback hat₂ =>
      obtain ⟨_, rfl, _⟩ := hwrites.unique hgov
      have hres : J.Resolvable p.text := by
        rcases hfree with habsent | hres
        · have hcurrent := hback.intent.current
          rw [hback.overtaking.quiet.current, Journal.current, ← hat'.target, habsent] at hcurrent
          cases hcurrent
        · exact hres
      have hclear := (hJ'.sourced.undone_unblocked_iff hback).mpr
        ((hat.resolvable_iff hat' p.text).mp hres)
      refine ⟨⟨_, hat₂, hclear⟩, fun content expected' err w'' hwrite => ?_⟩
      exact write_unblocked hq hgov hat₂ (hback.settled.undone.resolvable_iff.mpr hclear) hwrite

end GovernedExecutor

end jvc

namespace jvc.GovernedExecutor

section Samples

attribute [local instance] asciiText recovery.sampleHost

theorem sampleCut_run : Run sampleExecutor (sampleWorld []) sampleCut := by
  have hcall : Run sampleExecutor (sampleWorld []) _ :=
    .call 0 sampleProject (.fs_write "a.txt" .after none false []) (.dies 20) (.nil _)
  exact hcall

theorem sample_admits : sampleExecutor.Admits sampleProject.text "a.txt" false [] sampleCut
    ⟨sampleProject, "/p", "active"⟩ sampleTarget "a.txt" where
  args := rfl
  found := rfl
  root := by decide +kernel
  granted := by decide
  permitted := by decide
  confirmation := by decide

theorem resolves_iff_cut : ∃ J : Journal SampleBytes, J.At none sampleTarget sampleCut ∧
    (Resolves sampleExecutor sampleProject 0 "a.txt" false [] sampleTarget sampleCut ↔
      sampleCut.lookup sampleTarget.path = none ∨ J.Resolvable sampleProject.text) :=
  resolves_iff sample_fresh sampleCut_run sample_admits

theorem sampleCut_required : requires ((sampleExecutor.fs_write sampleProject.text "a.txt"
    SampleBytes.after (some "1A") false []).run (machine SampleBytes) 0 sampleCut).1 = true := by
  decide +kernel

theorem sampleCut_stuck : ((sampleExecutor.fs_rollback sampleProject.text "a.txt" "1A").run
    (machine SampleBytes) 0 sampleCut).1.isOk = false := by
  decide +kernel

/-- A write that is cut off once its content is in place, before that is recorded,
blocks the target, and rollback is denied too. -/
theorem not_resolves_cut : Run sampleExecutor (sampleWorld []) sampleCut ∧
    ¬ Resolves sampleExecutor sampleProject 0 "a.txt" false [] sampleTarget sampleCut := by
  refine ⟨sampleCut_run, fun hresolves => ?_⟩
  have hdata : sampleCut.lookup sampleTarget.path = some SampleBytes.after := by decide +kernel
  obtain ⟨err, hwrite, herr⟩ := requires_iff.mp sampleCut_required
  obtain ⟨reply, w'', hok⟩ := hresolves.succeeds _ SampleBytes.after err _ hdata
    (Prod.ext hwrite rfl) herr
  have hstuck := sampleCut_stuck
  have hfst := congrArg Prod.fst hok
  rw [show (sha256_bytes SampleBytes.after : String) = "1A" from rfl] at hfst
  rw [hfst] at hstuck
  cases hstuck

end Samples

end jvc.GovernedExecutor
