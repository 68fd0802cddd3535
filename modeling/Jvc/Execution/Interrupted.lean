import Jvc.Execution.Reversal
import Jvc.Execution.Reversible
import Jvc.Recovery.Interrupted

open program program.Prog jvc.recovery jvc.policy

namespace jvc

variable {Bytes α : Type} [Text] [Host Bytes] {i j : Pid} {w w' : World Bytes}

namespace recovery

variable {store : RecoveryStore} {owner : Option Pid} {t : Target store}
  {Inv : Journal Bytes → Prop} {J : Journal Bytes} {body : Jvc Bytes α}
  {Q : Except Err α → World Bytes → Prop}

/-- Wherever work on a target is cut off, its journal keeps the invariant. -/
theorem critical_cut (h : critical owner i t Inv body Q w) (hJ : Inv J) (hat : J.At owner t w)
    (n : Nat) : ∃ K : Journal Bytes, Inv K ∧ K.At owner t (body.cut (machine Bytes) i n w) :=
  cut_invariant (I := fun a => ∃ K : Journal Bytes, Inv K ∧ K.At owner t a) (fun a => Rely.refl a) h
    (fun _ _ _ hguar => hguar.2) ⟨J, hJ, hat⟩ n

theorem critical_run (h : critical owner i t Inv body Q w) :
    Q (body.run (machine Bytes) i w).1 (body.run (machine Bytes) i w).2 :=
  run_of_wp (fun a => Rely.refl a) h

/-- The process that dies holds the lock of the target, or nobody does. -/
theorem Journal.At.dies (h : J.At owner t w) (howner : owner = none ∨ owner = some i) :
    J.At none t (w.crash i) := by
  have hlock : w.locks t.lock = owner := h.lock
  refine h.crash ?_
  simp only [World.crash, hlock]
  rcases howner with rfl | rfl
  · rw [if_neg (by simp)]
  · rw [if_pos rfl]

/-- A rollback that goes through is cut off while the pending receipts are settled,
or on its way from its intent. -/
theorem cut_rollback {p : ProjectId} {expected : String} {reply : RollbackResult}
    (hat : J.At (some i) t w) (hJ : J.Rooted)
    (hrun : (store.rollback p.text t.path expected).run (machine Bytes) i w = (.ok reply, w')) :
    reply.path = t.path ∧ ∃ s : Entry Bytes, s.receipt_id = reply.receipt_id ∧
      J.Underway i t.path s J ∧ ∀ n, ∃ K : Journal Bytes, K.Rooted ∧ J.Underway i t.path s K ∧
        K.At (some i) t ((store.rollback p.text t.path expected).cut (machine Bytes) i n w) := by
  rw [RecoveryStore.rollback_eq] at hrun ⊢
  obtain ⟨⟨post, receipt⟩, u, hsource, happly, hcut⟩ := cut_seq_ok (machine Bytes) i hrun
  let Inv : Journal Bytes → Prop := fun K => K.Rooted ∧ Overtaking i t.path J K
  have hsettle : ∀ K K', Inv K → Step i t.path .settle K K' → Inv K' := fun K K' hK hstep =>
    ⟨hstep.rooted hK.1, hK.2.tail (.inl hstep)⟩
  have hover : ∀ K K', Inv K → Step i t.path .overtake K K' → Inv K' := fun K K' hK hstep =>
    ⟨hstep.rooted hK.1, hK.2.tail (.inr hstep)⟩
  have hInv : Inv J := ⟨hJ, .refl⟩
  have hcritical : critical (some i) i t Inv (store.rollback_source p.text t.path expected)
      (fun r a => ∀ found, r = .ok found → ∃ (J' : Journal Bytes) (s : Entry Bytes), Inv J' ∧
        J'.Settled p.text ∧ J'.At (some i) t a ∧ J'.current = some found.1 ∧
          J'.TheHead p.text found.1 s ∧ ¬ J'.Points p.text TxState.blocking s.receipt_id ∧
            found.2 = s.receipt t) w := by
    refine critical_rollback_source (fun J' => Inv J' ∧ J'.Settled p.text) (fun _ _ => True) hat
      (fun hat₁ hdone hfailed => ?_) (fun J' hJ' => hJ'.1.2.quiet.current)
      (fun a J' post s hat' hJ' hcurrent _ hhead hclear => ?_) (fun a err _ _ _ found h => by cases h)
      (fun a J' err _ _ found h => by cases h) fun a J' err post _ _ _ _ found h => by cases h
    · exact critical_supersede_pending hsettle hover hat₁ hInv
        (fun a J' ids _ hat' hJ' _ hsettled _ => hdone a J' ids hat' ⟨hJ', hsettled⟩)
        fun a J' err _ hat' _ _ _ _ => hfailed a J' err hat' trivial
    · rintro found hfound
      cases hfound
      exact ⟨J', s, hJ'.1, hJ'.2, hat', hcurrent, hhead, hclear, rfl⟩
  have hfound := critical_run hcritical
  rw [hsource] at hfound
  obtain ⟨J', s, ⟨hJ', hovertaking⟩, hsettled, hat', hcurrent, hhead, hclear, hreceipt⟩ :=
    hfound _ rfl
  simp only at hreceipt hcurrent hhead
  subst hreceipt
  have hw : s.kind.isWrite = true := hhead.1.1.2.2.1
  have hstate : s.tx_state = .VERIFIED := hhead.1.1.2.2.2.1
  let Inv₁ : Journal Bytes → Prop := fun K =>
    K.Rooted ∧ ∃ r, J'.Intends p post r s ∧ J'.Midway r s K
  let Inv₂ : Journal Bytes → Prop := fun K => K.Rooted ∧ J.Underway i t.path s K
  have hundo : ∀ K K', Inv₁ K → Step i t.path .undo K K' → Inv₁ K' := by
    rintro K K' ⟨hK, r, hint, hmid⟩ hstep
    exact ⟨hstep.rooted hK, r, hint, hmid.step hint hJ'.sourced.wf hK hstep⟩
  have hundoing : critical (some i) i t Inv₂ (store.apply_rollback p.text t.path post (s.receipt t))
      (fun r _ => ∀ reply, r = .ok reply → reply.receipt_id = s.receipt_id ∧ reply.path = t.path) u := by
    refine critical_apply_rollback_from (fun K hK => ?_) hundo
      (fun r hint hstep => ⟨hstep.rooted hJ', r, hint, .prepared rfl (.inl rfl)⟩) hat'
      ⟨hJ', .settling hovertaking hovertaking hhead.1.1.1 hw hstate⟩ hsettled hcurrent hhead hclear
      (fun a r _ _ _ _ reply hreply => ?_) (fun a err _ _ reply h => by cases h)
      fun a r err _ _ _ _ _ reply h => by cases h
    · obtain ⟨hroot, r, hint, hmid⟩ := hK
      exact ⟨hroot, .midway hovertaking hint hmid⟩
    · cases hreply
      exact ⟨rfl, rfl⟩
  have hdone := critical_run hundoing
  rw [happly] at hdone
  obtain ⟨hid, hpath⟩ := hdone reply rfl
  refine ⟨hpath, s, hid.symm, .settling .refl hovertaking hhead.1.1.1 hw hstate, fun n => ?_⟩
  rcases hcut n with ⟨m, hm⟩ | ⟨m, hm⟩
  · obtain ⟨K, ⟨hK, hoverK⟩, hatK⟩ := critical_cut hcritical hInv hat m
    exact ⟨K, hK, .settling hoverK hovertaking hhead.1.1.1 hw hstate, by rw [hm]; exact hatK⟩
  · obtain ⟨K, ⟨hK, hunder⟩, hatK⟩ := critical_cut hundoing
      ⟨hJ', .settling hovertaking hovertaking hhead.1.1.1 hw hstate⟩ hat' m
    exact ⟨K, hK, hunder, by rw [hm]; exact hatK⟩

omit [Text] [Host Bytes] in
/-- A program that only looks leaves the host as it is. -/
theorem cut_of_looks (h : body.wp (machine Bytes) i Eq (fun _ _ => False) Q w) (n : Nat) :
    body.cut (machine Bytes) i n w = w := by
  have hsteps := cut_of_wp (fun _ => rfl) h n
  generalize body.cut (machine Bytes) i n w = u at hsteps
  induction hsteps with
  | refl => rfl
  | tail _ hno => exact hno.elim

omit [Text] [Host Bytes] in
/-- The lock is granted where it is free. -/
theorem run_acquire (l : LockName) (w : World Bytes) : (acquire l).run (machine Bytes) i w =
    if w.locks l = none then (.ok true, w.setLock l (some i))
    else (.ok false, { w with timeouts := (i, l) :: w.timeouts }) := by
  by_cases hfree : w.locks l = none
  · have hstep : (machine Bytes).step i (.acquire l) w = (true, w.setLock l (some i)) := if_pos hfree
    rw [if_pos hfree]
    exact congrArg (fun x : Bool × World Bytes => (Except.ok x.1, x.2)) hstep
  · have hstep : (machine Bytes).step i (.acquire l) w =
        (false, { w with timeouts := (i, l) :: w.timeouts }) := if_neg hfree
    rw [if_neg hfree]
    exact congrArg (fun x : Bool × World Bytes => (Except.ok x.1, x.2)) hstep

omit [Text] [Host Bytes] in
/-- A critical section that goes through is cut off before it has the lock, inside,
or after the release. -/
theorem cut_with_lock {l : LockName} {a : α}
    (hrun : (with_lock l body).run (machine Bytes) i w = (.ok a, w')) :
    (∃ u, body.run (machine Bytes) i (w.setLock l (some i)) = (.ok a, u)) ∧
      ∀ n, (with_lock l body).cut (machine Bytes) i n w = w ∨
        ∃ m, (with_lock l body).cut (machine Bytes) i n w =
            body.cut (machine Bytes) i m (w.setLock l (some i)) ∨
          (with_lock l body).cut (machine Bytes) i n w =
            (body.cut (machine Bytes) i m (w.setLock l (some i))).setLock l none := by
  obtain ⟨acquired, w₁, hacquire, hrest, hcut⟩ := cut_seq_ok (machine Bytes) i hrun
  rw [run_acquire] at hacquire
  split at hacquire
  · rename_i hfree
    cases hacquire
    change (body.ensuring (release l)).run (machine Bytes) i (w.setLock l (some i)) = (.ok a, w')
      at hrest
    rw [run_ensuring] at hrest
    have hresult : (body.run (machine Bytes) i (w.setLock l (some i))).1 = .ok a :=
      congrArg Prod.fst hrest
    obtain ⟨k, hk⟩ := run_state_eq_cut (machine Bytes) i body (w.setLock l (some i))
    have hsection : ∀ m, ∃ m', (body.ensuring (release l)).cut (machine Bytes) i m
        (w.setLock l (some i)) = body.cut (machine Bytes) i m' (w.setLock l (some i)) ∨
          (body.ensuring (release l)).cut (machine Bytes) i m (w.setLock l (some i)) =
            (body.cut (machine Bytes) i m' (w.setLock l (some i))).setLock l none := by
      intro m
      rcases cut_ensuring (machine Bytes) i body (release l) m (w.setLock l (some i)) with
        ⟨m', hm⟩ | ⟨m', hm⟩
      · exact ⟨m', .inl hm⟩
      · rw [hk] at hm
        cases m' with
        | zero => exact ⟨k, .inl hm⟩
        | succ m' =>
          refine ⟨k, .inr (hm.trans ?_)⟩
          cases m' <;> rfl
    have hparts : ∀ n, (∃ m, (with_lock l body).cut (machine Bytes) i n w =
        (acquire l).cut (machine Bytes) i m w) ∨ ∃ m, (with_lock l body).cut (machine Bytes) i n w =
          (body.ensuring (release l)).cut (machine Bytes) i m (w.setLock l (some i)) := hcut
    refine ⟨⟨_, Prod.ext hresult rfl⟩, fun n => ?_⟩
    rcases hparts n with ⟨m, hm⟩ | ⟨m, hm⟩
    · rw [hm]
      cases m with
      | zero => exact .inl rfl
      | succ m =>
        have hgot : (acquire l).cut (machine Bytes) i (m + 1) w =
            ((acquire l).run (machine Bytes) i w).2 := by
          cases m <;> rfl
        rw [run_acquire, if_pos hfree] at hgot
        refine .inr ⟨0, .inl (hgot.trans ?_)⟩
        rw [cut, after_zero]
    · rw [hm]
      exact .inr (hsection m)
  · cases hacquire
    cases hrest

end recovery

namespace GovernedExecutor

variable {executor : GovernedExecutor} {p q : ProjectId} {relative_path expected : String}
  {reply : RollbackResult}

/-- A rollback inside the lock that goes through, wherever it is cut off. -/
theorem cut_rollback_locked {t : Target executor.recovery_store} {J : Journal Bytes} {c : String}
    (hat : J.At (some i) t w) (hJ : J.Rooted)
    (hrun : (executor.rollback_locked p.text t.path c expected).run (machine Bytes) i w =
      (.ok reply, w')) :
    reply.path = t.path ∧ ∃ s : Entry Bytes, s.receipt_id = reply.receipt_id ∧
      J.Underway i t.path s J ∧ ∀ n, ∃ K : Journal Bytes, K.Rooted ∧ J.Underway i t.path s K ∧
        K.At (some i) t
          ((executor.rollback_locked p.text t.path c expected).cut (machine Bytes) i n w) := by
  rw [rollback_locked] at hrun ⊢
  obtain ⟨corrupt, u, hcorrupt, hrest, hcut⟩ := cut_seq_ok (machine Bytes) i hrun
  have hlooks : critical (some i) i t (fun K => K = J) executor.recovery_store.corrupt_receipt_files
      (fun r a => r = .ok [] ∧ J.At (some i) t a) w :=
    critical_corrupt_receipt_files hat fun a _ hat' => ⟨rfl, hat'⟩
  have hfound := critical_run hlooks
  rw [hcorrupt] at hfound
  obtain ⟨hnone, hat'⟩ := hfound
  cases hnone
  obtain ⟨hpath, s, hid, hstart, hrollback⟩ := cut_rollback hat' hJ hrest
  refine ⟨hpath, s, hid, hstart, fun n => ?_⟩
  rcases hcut n with ⟨m, hm⟩ | ⟨m, hm⟩
  · obtain ⟨K, rfl, hatK⟩ := critical_cut hlooks rfl hat m
    exact ⟨K, hJ, hstart, by rw [hm]; exact hatK⟩
  · obtain ⟨K, hK, hunder, hatK⟩ := hrollback m
    exact ⟨K, hK, hunder, by rw [hm]; exact hatK⟩

omit [Host Bytes] in
/-- A governed call that goes through is its critical section. -/
theorem governed_eq {operation : String} {privileged : Bool} {route : Route} {a : α}
    {b : Path → String → Jvc Bytes α} (hrun : Prog.run (machine Bytes) i (do
      let permitted ← Prog.ofExcept
        (assert_permitted_path route.root relative_path operation privileged)
      executor.assert_outside_host_stores permitted.1
      with_lock (target_lock permitted.1) (b permitted.1 permitted.2)) w = (.ok a, w')) :
    ∃ (t : Target executor.recovery_store) (c : String), (do
      let permitted ← Prog.ofExcept
        (assert_permitted_path route.root relative_path operation privileged)
      executor.assert_outside_host_stores permitted.1
      with_lock (target_lock permitted.1) (b permitted.1 permitted.2)) =
        with_lock t.lock (b t.path c) := by
  cases hpermitted : assert_permitted_path route.root relative_path operation privileged with
  | error err =>
    rw [hpermitted] at hrun
    rw [run_seq_error (machine Bytes) i (e := err) rfl] at hrun
    cases hrun
  | ok found =>
    obtain ⟨path, c⟩ := found
    have hok : ∀ f : Path × String → Jvc Bytes α,
        (Prog.ofExcept (Except.ok (path, c)) >>= f) = f (path, c) := fun _ => rfl
    rw [hpermitted, hok] at hrun
    cases hout : is_within_store path executor.confirmation_store ||
        is_within_store path executor.recovery_store.root with
    | true =>
      rw [assert_outside_host_stores, hout] at hrun
      cases hrun
    | false =>
      have hpass : executor.assert_outside_host_stores path = (pure () : Jvc Bytes Unit) := by
        rw [assert_outside_host_stores, hout]
        rfl
      have hcanonical := (assert_permitted_path_eq_ok.mp hpermitted).1
      obtain ⟨parts, hparts⟩ := canonical_target_parts hcanonical
      refine ⟨⟨path, canonical_target_ne hcanonical, hparts.resolved,
        (Bool.or_eq_false_iff.mp hout).2⟩, c, ?_⟩
      rw [hok, hpass]
      rfl

/-- A governed rollback that goes through, wherever its process dies. -/
theorem dies_rollback (h : Quiescent executor.recovery_store Journal.Rooted w)
    (hrun : (executor.fs_rollback p.text relative_path expected).run (machine Bytes) i w =
      (.ok reply, w')) :
    ∃ t : Target executor.recovery_store, t.path = reply.path ∧ ∃ (J : Journal Bytes) (s : Entry Bytes),
      J.Rooted ∧ J.At none t w ∧ s.receipt_id = reply.receipt_id ∧ ∀ n, ∃ K : Journal Bytes,
        K.Rooted ∧ J.Underway i t.path s K ∧ K.At none t
          (((executor.fs_rollback p.text relative_path expected).cut (machine Bytes) i n w).crash i) := by
  rw [fs_rollback] at hrun ⊢
  obtain ⟨route, u, hroute, hrest, hcut⟩ := cut_seq_ok (machine Bytes) i hrun
  have hlooks : (executor.resolve_project p.text).wp (machine Bytes) i Eq (fun _ _ => False)
      (fun _ _ => True) w :=
    wp_resolve_project rfl (fun _ _ _ _ _ => trivial) fun _ _ _ _ _ => trivial
  have hsame : u = w := by
    obtain ⟨n, hn⟩ := run_state_eq_cut (machine Bytes) i (executor.resolve_project p.text) w
    rw [hroute, cut_of_looks hlooks] at hn
    exact hn
  subst hsame
  obtain ⟨t, c, hsection⟩ := governed_eq
    (b := fun target c => executor.rollback_locked p.text target c expected) hrest
  rw [hsection] at hrest
  obtain ⟨J, hJ, hat⟩ := h.journal t
  obtain ⟨⟨v, hlocked⟩, hlock⟩ := cut_with_lock hrest
  have hat₁ := hat.setLock t.lock (some i)
  rw [if_pos rfl] at hat₁
  obtain ⟨hpath, s, hid, hstart, hrollback⟩ := cut_rollback_locked hat₁ hJ hlocked
  have hidle : ∀ {a : World Bytes}, a = u → ∃ K : Journal Bytes, K.Rooted ∧
      J.Underway i t.path s K ∧ K.At none t (a.crash i) := by
    rintro a rfl
    exact ⟨J, hJ, hstart, hat.dies (.inl rfl)⟩
  refine ⟨t, hpath.symm, J, s, hJ, hat, hid, fun n => ?_⟩
  rcases hcut n with ⟨m, hm⟩ | ⟨m, hm⟩
  · exact hidle (hm.trans (cut_of_looks hlooks m))
  · rw [hsection] at hm
    rw [hm]
    rcases hlock m with hbefore | ⟨k, hwithin⟩
    · exact hidle hbefore
    · obtain ⟨K, hK, hunder, hatK⟩ := hrollback k
      refine ⟨K, hK, hunder, ?_⟩
      rcases hwithin with hinside | hafter
      · rw [hinside]
        exact hatK.dies (.inr rfl)
      · have hfree := hatK.setLock t.lock none
        rw [if_pos rfl] at hfree
        rw [hafter]
        exact hfree.dies (.inl rfl)

/-- A rollback that would go through is cut off anywhere, whatever has happened before,
and the host recovers: it comes to one of two clean ends exactly where the journal
covered what the rollback had done. -/
theorem rollback_interrupted_iff {w₀ : World Bytes} (hfresh : Fresh executor.recovery_store w₀)
    (h : Run executor w₀ w)
    (hrun : (executor.fs_rollback p.text relative_path expected).run (machine Bytes) i w =
      (.ok reply, w')) (n : Nat) :
    ∃ t : Target executor.recovery_store, t.path = reply.path ∧ ∃ J K R : Journal Bytes,
      J.At none t w ∧
        K.At none t (Call.leaves executor p i (.fs_rollback relative_path expected) (.dies n) w) ∧
        R.At none t (Call.leaves executor q j .recover .completes
          (Call.leaves executor p i (.fs_rollback relative_path expected) (.dies n) w)) ∧
        ((J.Unapplied R reply.receipt_id ∨ J.Completed R reply.receipt_id) ↔
          J.Covered K reply.receipt_id) := by
  have hquiet := quiescent_run lasting_rooted hfresh h
  obtain ⟨t, hpath, J, s, hJ, hat, hid, hdies⟩ := dies_rollback hquiet hrun
  obtain ⟨K, hK, hunder, hatK⟩ := hdies n
  have hleaves : Call.leaves executor p i (.fs_rollback relative_path expected) (.dies n) w =
      ((executor.fs_rollback p.text relative_path expected).cut (machine Bytes) i n w).crash i := by
    rw [Call.leaves, Call.body, cut_map]
  have hstopped := quiescent_call lasting_rooted.toStable hquiet (p := p) (i := i)
    (.fs_rollback relative_path expected) (.dies n)
  rw [← hleaves] at hatK
  obtain ⟨R, _, hrec, hatR, hdecided⟩ := run_of_wp (fun _ => rfl)
    (wp_recover_decides (i := j) lasting_rooted.toStable hstopped t hK hatK)
  refine ⟨t, hpath, J, K, R, hat, hatK, ?_, ?_⟩
  · rw [Call.leaves, Call.body, run_map_state]
    exact hatR
  · rw [← hid]
    exact hunder.outcome_iff hJ.sourced (hK.sourced.reconciled_recovering hrec) hdecided

end GovernedExecutor

end jvc

namespace jvc.GovernedExecutor

section Samples

attribute [local instance] asciiText recovery.sampleHost

theorem sampleUndoing_served : (sampleUndoing sampleServed).1.toOption =
    some ⟨"recovery-demo-20260101T000002Z-000000000-0123456789ab",
      "rollback-demo-20260101T000006Z-000000000-0123456789ab", "/p/a.txt", .restored "0A"⟩ := by
  decide +kernel

/-- The rollback of the edit, cut off once its receipt is APPLIED. -/
def sampleStopped : World SampleBytes :=
  Call.leaves sampleExecutor sampleProject 0 (.fs_rollback "a.txt" "1A") (.dies 41) sampleServed

theorem rollback_interrupted_iff_stopped :
    ∃ t : Target sampleExecutor.recovery_store, t.path = "/p/a.txt" ∧ ∃ J K R : Journal SampleBytes,
      J.At none t sampleServed ∧ K.At none t sampleStopped ∧
        R.At none t (Call.leaves sampleExecutor sampleProject 1 .recover .completes sampleStopped) ∧
        ((J.Unapplied R "recovery-demo-20260101T000002Z-000000000-0123456789ab" ∨
            J.Completed R "recovery-demo-20260101T000002Z-000000000-0123456789ab") ↔
          J.Covered K "recovery-demo-20260101T000002Z-000000000-0123456789ab") := by
  have hundo : (sampleExecutor.fs_rollback sampleProject.text "a.txt" "1A").run
      (machine SampleBytes) 0 sampleServed =
        (.ok ⟨"recovery-demo-20260101T000002Z-000000000-0123456789ab",
          "rollback-demo-20260101T000006Z-000000000-0123456789ab", "/p/a.txt", .restored "0A"⟩,
            (sampleUndoing sampleServed).2) :=
    eq_of_toOption sampleUndoing_served
  rw [sampleStopped]
  exact rollback_interrupted_iff sampleFirst_fresh sampleServed_history.run hundo 41

end Samples

end jvc.GovernedExecutor
