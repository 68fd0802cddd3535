import Jvc.Execution.Interrupted
import Jvc.Execution.Resolution
import Jvc.Recovery.Partway

open program program.Prog jvc.recovery jvc.policy

namespace jvc

variable {Bytes : Type} [Text] [Host Bytes] {i j : Pid} {w w' : World Bytes}

namespace recovery

variable {store : RecoveryStore} {t : Target store} {J K : Journal Bytes} {p : ProjectId}
  {content : Bytes}

/-- A journal among the others, which keep what they keep. -/
def Beneath (Inv : Journal Bytes → Prop) (t : Target store) (P : Journal Bytes → Prop) :
    Option Pid → Target store → Journal Bytes → Prop :=
  fun _ t' J => Inv J ∧ (t' = t → P J)

theorem Quiescent.beneath {Inv P : Journal Bytes → Prop} (h : Quiescent store Inv w)
    (hJ : Inv J) (hP : P J) (hat : J.At none t w) : Everywhere store (Beneath Inv t P) w := by
  refine ⟨h.everywhere.sound, fun t' => ?_⟩
  rw [h.idle t']
  by_cases ht : t' = t
  · subst ht
    exact ⟨J, ⟨hJ, fun _ => hP⟩, hat⟩
  · obtain ⟨K, hK, hatK⟩ := h.journal t'
    exact ⟨K, ⟨hK, fun heq => absurd heq ht⟩, hatK⟩

/-- A call that is cut off leaves every journal as one of its steps does. -/
theorem Everywhere.dies {Inv : Option Pid → Target store → Journal Bytes → Prop} {α : Type}
    {body : Jvc Bytes α} {Q : Except Err α → World Bytes → Prop}
    (hacquire : ∀ i t J, Inv none t J → Inv (some i) t J) (hev : Everywhere store Inv w)
    (hidle : Idle store w) (hwp : body.wp (machine Bytes) i Eq (Move store Inv i) Q w) (n : Nat) :
    ((body.cut (machine Bytes) i n w).crash i).dirs = w.dirs ∧ ∀ t : Target store,
      ∃ (o : Option Pid) (K : Journal Bytes), Inv o t K ∧
        K.At none t ((body.cut (machine Bytes) i n w).crash i) := by
  have hkeep : Everywhere store Inv (body.cut (machine Bytes) i n w) ∧
      Own store i (body.cut (machine Bytes) i n w) ∧
        (body.cut (machine Bytes) i n w).dirs = w.dirs := by
    refine cut_invariant (I := fun a => Everywhere store Inv a ∧ Own store i a ∧ a.dirs = w.dirs)
      (fun _ => rfl) hwp (fun a b ha hmove => ⟨hmove.everywhere hacquire ha.1, ha.2.1.move hmove, ?_⟩)
      ⟨hev, fun t => .inl (hidle t), rfl⟩ n
    rw [← ha.2.2]
    cases hmove with
    | touch t hguar => exact hguar.1.dirs
    | _ => rfl
  obtain ⟨hev', hown, hdirs⟩ := hkeep
  refine ⟨hdirs, fun t => ?_⟩
  obtain ⟨K, hK, hat⟩ := hev'.journal t
  exact ⟨_, K, hK, hat.crash (hown.crash t)⟩

end recovery

namespace GovernedExecutor

variable {executor : GovernedExecutor} {p q : ProjectId} {relative_path c : String}
  {content : Bytes} {expected : Option String} {capability privileged : Bool}
  {extra : List String} {t : Target executor.recovery_store} {J : Journal Bytes}

/-- The steps of a write, on the journal of its target. -/
theorem wp_write_partway (h : Quiescent executor.recovery_store Journal.Rooted w)
    (hgov : executor.Governs p.text relative_path "FS_WRITE" privileged p t c)
    (hJ : J.Rooted) (hat : J.At none t w) :
    (executor.fs_write p.text relative_path content expected capability extra).wp (machine Bytes) i
      Eq (Move executor.recovery_store
        (Beneath Journal.Rooted t (J.Writing i t.path p content)) i) (fun _ _ => True) w := by
  have hev := h.beneath hJ (P := J.Writing i t.path p content) (.settling .refl) hat
  refine wp_fs_write rfl (fun _ _ _ _ _ => trivial) (fun _ _ _ => trivial)
    fun w' privileged' q t' c' hw hgov' => ?_
  subst hw
  obtain ⟨rfl, rfl, rfl⟩ := hgov.unique hgov'
  refine wp_with_lock_alone (fun _ _ _ hK => hK) hev hat ⟨hJ, fun _ => .settling .refl⟩
    fun w₁ _ hat₁ => ?_
  refine critical_write_locked_from (p := p)
    (fun K (hK : K.Rooted ∧ Settling i t.path J K) => ⟨hK.1, fun _ => .settling hK.2⟩)
    (fun K (hK : K.Rooted ∧ ∃ (J' : Journal Bytes) (e : Entry Bytes), Settling i t.path J J' ∧
      J'.Announces p e ∧ J'.Logged ∧ J'.Partway e content K) => ⟨hK.1, fun _ => ?_⟩)
    (fun K K' hK hstep => ⟨hstep.rooted hK.1, hK.2.tail hstep⟩)
    (fun _ K K' hK hstep => ⟨hstep.rooted hK.1, ?_⟩)
    (fun K K' hK hstep hcontent => ⟨hstep.rooted hK.1, ?_⟩) hat₁ ⟨hJ, .refl⟩ hJ.logged
    (fun w₂ J' e hat₂ hJ₂ _ => ⟨_, hJ₂, hat₂, fun _ _ _ _ _ => trivial⟩)
    fun w₂ J' err hat₂ hJ₂ _ =>
      ⟨J', ⟨hJ₂.1, fun _ => .settling hJ₂.2⟩, hat₂, fun _ _ _ _ _ => trivial⟩
  · obtain ⟨J', e, hsettling, hann, hlogged, hpartway⟩ := hK.2
    exact .partway hsettling hann hlogged hpartway
  · cases hstep with
    | @prepare _ e prev hfresh hkind hstate hsettled hfree hprev =>
      refine ⟨K, e, hK.2, ⟨rfl, ?_, hstate, fun x hx hid => ?_, ?_⟩, hK.1.logged,
        .announced rfl rfl rfl⟩
      · rw [hkind]
        rfl
      · exact hfresh (hid ▸ List.mem_map_of_mem hx)
      · rw [hkind]
        exact hprev
  · obtain ⟨J', e, hsettling, hann, hlogged, hpartway⟩ := hK.2
    exact ⟨J', e, hsettling, hann, hlogged, hpartway.step hann hlogged hstep hcontent⟩

/-- A write that is cut off anywhere, whatever has happened before, and the host
recovers: it comes to one of two clean ends exactly where the journal had noted what the
write had done. -/
theorem write_interrupted_iff {w₀ : World Bytes} (hfresh : Fresh executor.recovery_store w₀)
    (h : Run executor w₀ w)
    (hgov : executor.Governs p.text relative_path "FS_WRITE" privileged p t c) (n : Nat) :
    ∃ J K R : Journal Bytes, J.At none t w ∧
      K.At none t (Call.leaves executor p i
        (.fs_write relative_path content expected capability extra) (.dies n) w) ∧
      R.At none t (Call.leaves executor q j .recover .completes (Call.leaves executor p i
        (.fs_write relative_path content expected capability extra) (.dies n) w)) ∧
      ((J.Unwritten R ∨ J.Rewritten R content) ↔ J.Noted K) := by
  have hquiet := quiescent_run lasting_rooted hfresh h
  obtain ⟨J, hJ, hat⟩ := hquiet.journal t
  have hwp : (executor.fs_write p.text relative_path content expected capability extra).wp
      (machine Bytes) i Eq (Move executor.recovery_store
        (Beneath Journal.Rooted t (J.Writing i t.path p content)) i) (fun _ _ => True) w :=
    wp_write_partway hquiet hgov hJ hat
  obtain ⟨_, hjournals⟩ := Everywhere.dies (fun _ _ _ hK => hK)
    (hquiet.beneath hJ (.settling .refl) hat) hquiet.idle hwp n
  obtain ⟨_, K, ⟨hK, hwriting⟩, hatK⟩ := hjournals t
  have hleaves : Call.leaves executor p i (.fs_write relative_path content expected capability extra)
      (.dies n) w = ((executor.fs_write p.text relative_path content expected capability extra).cut
        (machine Bytes) i n w).crash i := by
    rw [Call.leaves, Call.body, cut_map]
  have hstopped := quiescent_call lasting_rooted.toStable hquiet (p := p) (i := i)
    (.fs_write relative_path content expected capability extra) (.dies n)
  rw [← hleaves] at hatK
  obtain ⟨R, _, hrec, hatR, hdecided⟩ := run_of_wp (fun _ => rfl)
    (wp_recover_decides (i := j) lasting_rooted.toStable hstopped t hK hatK)
  refine ⟨J, K, R, hat, hatK, ?_, ?_⟩
  · rw [Call.leaves, Call.body, run_map_state]
    exact hatR
  · cases hwriting rfl with
    | settling hsettling =>
      refine iff_of_true (.inl ⟨?_, fun r hr hnew => ?_⟩) (.inr hsettling.quiet.target)
      · exact hrec.quiet.target.trans hsettling.quiet.target
      · have hmem : r.receipt_id ∈ R.entries.map Entry.receipt_id := List.mem_map_of_mem hr
        rw [hrec.quiet.ids, hsettling.quiet.ids] at hmem
        exact absurd hmem hnew
    | partway hsettling hann hlogged hpartway =>
      have hJ' : Journal.Rooted _ :=
        hsettling.preserves (fun _ _ hJ hstep => hstep.rooted hJ) hJ
      exact hpartway.outcome_iff hK.sourced hrec hdecided hsettling.quiet.ids hJ'.sourced.wf hann
        hsettling.quiet.target

attribute [local irreducible] assert_permitted_path

/-- A target that is too large to be backed up is not written. -/
theorem critical_write_oversized (hat : J.At (some i) t w) (hJ : J.Rooted) (hsize : J.Oversized) :
    critical (some i) i t Journal.Rooted
      (executor.write_locked p.text t.path c content expected) (fun r w₂ =>
        ∃ J' : Journal Bytes, J'.Rooted ∧ J'.At (some i) t w₂ ∧ ∃ err, r = .error err) w := by
  obtain ⟨data, hdata, hlarge⟩ := hsize
  refine wp_seq.mpr (critical_assert_unblocked (fun K K' hK hstep => hstep.rooted hK) hat hJ
    (fun w₁ J' hat₁ hJ' hsettling _ _ => ?_) fun w₁ J' err hat₁ hJ' _ _ _ => ⟨J', hJ', hat₁, err, rfl⟩)
  refine wp_seq.mpr (critical_check_preimage hat₁ (fun w₂ hat₂ _ _ => ?_)
    (fun err _ _ => ⟨J', hJ', hat₁, err, rfl⟩) fun w₂ err hat₂ _ _ => ⟨J', hJ', hat₂, err, rfl⟩)
  rw [hsettling.quiet.target, hdata]
  refine wp_seq.mpr (wp_seq.mpr (critical_allocate hat₂ hJ' (fun h => absurd h (by decide))
    (fun w₃ s _ hat₃ _ => ?_) fun w₃ err _ hat₃ _ => ⟨J', hJ', hat₃, err, rfl⟩))
  refine wp_seq.mpr (wp_seq.mpr (wp_raiseIf.mpr ⟨fun _ => ⟨J', hJ', hat₃, _, rfl⟩, fun hno => ?_⟩))
  exact absurd (decide_eq_true hlarge) (by rw [hno]; exact Bool.false_ne_true)

variable {route : Route} {result : Except Err WriteReply}

/-- A write of an ungated target whose content is too large to be backed up fails. -/
theorem write_oversized (h : Quiescent executor.recovery_store Journal.Rooted w)
    (hplain : executor.Ungated p.text relative_path extra w route t c) (hat : J.At none t w)
    (hJ : J.Rooted) (hsize : J.Oversized) (hrun : (executor.fs_write p.text relative_path content
      expected capability extra).run (machine Bytes) i w = (result, w')) :
    ∃ err, result = .error err := by
  have hgov : executor.Governs p.text relative_path "FS_WRITE" false route.project_id t c :=
    hplain.toReaches.governs "FS_WRITE"
  have herror : (executor.fs_write p.text relative_path content expected capability extra).wp
      (machine Bytes) i Eq (Move executor.recovery_store (fun _ _ J => J.Rooted) i)
      (fun r _ => ∃ err, r = .error err) w := by
    refine wp_fs_write rfl (fun _ err _ _ _ => ⟨err, rfl⟩)
      (fun w₁ hw hnone => ?_) fun w₁ privileged' q t' c' hw hgov'' => ?_
    · subst hw
      exact absurd hplain (hnone route t c)
    · subst hw
      obtain ⟨rfl, rfl, rfl⟩ := hgov.unique hgov''
      have hp := hgov.eq_of_project
      rw [← hp]
      refine wp_with_lock_alone (fun _ _ _ hK => hK) h.everywhere hat hJ fun w₂ _ hat₂ => ?_
      refine wp_post (critical_write_oversized hat₂ hJ hsize) ?_
      rintro r w₃ ⟨K, hK, hatK, err, rfl⟩
      exact ⟨K, hK, hatK, fun _ _ _ _ _ => ⟨err, rfl⟩⟩
  have hfail := run_of_wp (fun _ => rfl) herror
  rw [hrun] at hfail
  exact hfail

/-- When a write of an ungated target passes. -/
theorem write_passes_iff (h : Quiescent executor.recovery_store Journal.Rooted w)
    (hplain : executor.Ungated p.text relative_path extra w route t c) (hat : J.At none t w)
    (hJ : J.Rooted) (hrun : (executor.fs_write p.text relative_path content expected capability
      extra).run (machine Bytes) i w = (result, w')) (hno : w'.NoRepeat) :
    (∃ reply, result = .ok reply) ↔
      J.Resolvable p.text ∧ J.Expected expected ∧ ¬ J.Oversized ∧ too_long t.path = false := by
  have hgov : executor.Governs p.text relative_path "FS_WRITE" false route.project_id t c :=
    hplain.toReaches.governs "FS_WRITE"
  have hwp : (executor.fs_write p.text relative_path content expected capability extra).wp
      (machine Bytes) i Eq (Move executor.recovery_store (fun _ _ J => J.Rooted) i)
      (fun r w' => Quiescent executor.recovery_store Journal.Rooted w' ∧
        WriteEnds Journal.Rooted executor p i relative_path content expected extra w r w') w :=
    wp_write_ends lasting_rooted.toStable h
  have hend := (run_of_wp (fun _ => rfl) hwp).2
  rw [hrun] at hend
  have htarget : ∀ {K : Journal Bytes} {o : Option Pid}, K.At o t w → K.target = J.target :=
    fun hK => by rw [← hK.target, hat.target]
  constructor
  · rintro ⟨reply, rfl⟩
    cases hend with
    | unconfirmed hnone => exact absurd hplain (hnone route t c)
    | @wrote _ _ t' c' J₁ J' e hgov' hJ₁ hat₁ hJ' hwrote hat' hapart =>
      obtain ⟨_, rfl, _⟩ := hgov.unique hgov'
      have hsame := htarget hat₁
      refine ⟨?_, ?_, fun hsize => ?_, hat'.fits _ List.mem_cons_self⟩
      · rw [hat.resolvable_iff hat₁]
        exact hJ₁.sourced.resolvable_of_settling hwrote.settling hwrote.settled hwrote.unblocked
      · have hexpected := hwrote.expected
        rw [Journal.Expected, hsame] at hexpected
        exact hexpected
      · obtain ⟨err, herr⟩ := write_oversized h hplain hat hJ hsize hrun
        cases herr
  · rintro ⟨hres, hexpected, hsize, hfits⟩
    cases hend with
    | refused _ hnone => exact absurd hplain (hnone route t c)
    | unconfirmed => exact ⟨_, rfl⟩
    | wrote => exact ⟨_, rfl⟩
    | denied hgov' _ hat₁ _ _ hdenied =>
      obtain ⟨_, rfl, _⟩ := hgov.unique hgov'
      have hsame := htarget hat₁
      cases hdenied with
      | blocked _ hblocked => exact absurd ((hat.resolvable_iff hat₁ p.text).mp hres) hblocked
      | unnamed _ _ hlong =>
        rw [hfits] at hlong
        cases hlong
      | stale _ _ hstale =>
        refine absurd ?_ hstale
        rw [Journal.Expected, hsame]
        exact hexpected
      | oversized _ _ hlarge =>
        refine absurd ?_ hsize
        obtain ⟨data, hdata, hlarge⟩ := hlarge
        exact ⟨data, hsame ▸ hdata, hlarge⟩
      | repeated _ _ hrepeat => exact absurd hno hrepeat.2

/-- A write of an ungated target that is cut off anywhere and has left the target as it
was: making the same call again succeeds exactly where the call would have. -/
theorem write_retry {w₀ w'' : World Bytes} {result' : Except Err WriteReply}
    (hfresh : Fresh executor.recovery_store w₀) (h : Run executor w₀ w)
    (hplain : executor.Ungated p.text relative_path extra w route t c) (n : Nat)
    (hsame : (Call.leaves executor p i (.fs_write relative_path content expected capability extra)
      (.dies n) w).lookup t.path = w.lookup t.path)
    (hrun : (executor.fs_write p.text relative_path content expected capability extra).run
      (machine Bytes) i w = (result, w')) (hno : w'.NoRepeat)
    (hretry : (executor.fs_write p.text relative_path content expected capability extra).run
      (machine Bytes) j (Call.leaves executor p i
        (.fs_write relative_path content expected capability extra) (.dies n) w) = (result', w''))
    (hno' : w''.NoRepeat) : (∃ reply, result' = .ok reply) ↔ ∃ reply, result = .ok reply := by
  have hquiet := quiescent_run lasting_rooted hfresh h
  obtain ⟨J, hJ, hat⟩ := hquiet.journal t
  have hgov : executor.Governs p.text relative_path "FS_WRITE" false route.project_id t c :=
    hplain.toReaches.governs "FS_WRITE"
  have hq := hgov.eq_of_project
  rw [hq] at hgov
  have hwp : (executor.fs_write p.text relative_path content expected capability extra).wp
      (machine Bytes) i Eq (Move executor.recovery_store
        (Beneath Journal.Rooted t (J.Writing i t.path p content)) i) (fun _ _ => True) w :=
    wp_write_partway hquiet hgov hJ hat
  obtain ⟨hdirs, hjournals⟩ := Everywhere.dies (fun _ _ _ hK => hK)
    (hquiet.beneath hJ (.settling .refl) hat) hquiet.idle hwp n
  obtain ⟨_, K, ⟨hK, hwriting⟩, hatK⟩ := hjournals t
  have hleaves : Call.leaves executor p i (.fs_write relative_path content expected capability extra)
      (.dies n) w = ((executor.fs_write p.text relative_path content expected capability extra).cut
        (machine Bytes) i n w).crash i := by
    rw [Call.leaves, Call.body, cut_map]
  have hstopped := quiescent_call lasting_rooted.toStable hquiet (p := p) (i := i)
    (.fs_write relative_path content expected capability extra) (.dies n)
  rw [← hleaves] at hatK hdirs
  have htarget : K.target = J.target := by rw [← hatK.target, ← hat.target, hsame]
  rw [write_passes_iff hstopped (hplain.of_dirs hdirs) hatK hK hretry hno',
    write_passes_iff hquiet hplain hat hJ hrun hno,
    (hwriting rfl).resolvable_iff hJ.sourced hK.sourced htarget]
  simp only [Journal.Expected, Journal.Oversized, htarget]

end GovernedExecutor

end jvc

namespace jvc.GovernedExecutor

section Samples

attribute [local instance] asciiText recovery.sampleHost

theorem sample_writes : sampleExecutor.Governs sampleProject.text "a.txt" "FS_WRITE" false
    sampleProject sampleTarget "a.txt" :=
  ⟨rfl, ⟨sampleProject, "/p", "active"⟩, rfl, by decide⟩

theorem write_interrupted_iff_cut : ∃ J K R : Journal SampleBytes,
    J.At none sampleTarget (sampleWorld []) ∧ K.At none sampleTarget sampleCut ∧
      R.At none sampleTarget
        (Call.leaves sampleExecutor sampleProject 1 .recover .completes sampleCut) ∧
      ((J.Unwritten R ∨ J.Rewritten R .after) ↔ J.Noted K) :=
  write_interrupted_iff sample_fresh (.nil _) sample_writes 20

/-- A write of the sample file, cut off once its receipt is PREPARED. -/
def retryCut : World SampleBytes :=
  Call.leaves sampleExecutor sampleProject 0 (.fs_write "a.txt" .after none false []) (.dies 18)
    sampleFirst

theorem retry_ungated : sampleExecutor.Ungated sampleProject.text "a.txt" [] sampleFirst
    ⟨sampleProject, "/p", "active"⟩ sampleTarget "a.txt" where
  found := rfl
  root := by decide
  permitted := by decide
  confirmation := by decide
  active := by decide
  plain := by decide
  args := rfl

theorem write_retry_cut :
    (∃ reply, (sampleWriting none retryCut).1 = .ok reply) ↔
      ∃ reply, (sampleWriting none sampleFirst).1 = .ok reply := by
  have hsame : retryCut.lookup sampleTarget.path = sampleFirst.lookup sampleTarget.path := by
    decide +kernel
  have hticks : ∀ a, a < (sampleWriting none retryCut).2.ticks →
      ∀ b, b < (sampleWriting none retryCut).2.ticks →
        (sampleWriting none retryCut).2.stamps a = (sampleWriting none retryCut).2.stamps b →
          a = b := by
    decide +kernel
  have hticks' : ∀ a, a < (sampleWriting none sampleFirst).2.ticks →
      ∀ b, b < (sampleWriting none sampleFirst).2.ticks →
        (sampleWriting none sampleFirst).2.stamps a = (sampleWriting none sampleFirst).2.stamps b →
          a = b := by
    decide +kernel
  have hrun : (sampleExecutor.fs_write sampleProject.text "a.txt" .after none false []).run
      (machine SampleBytes) 0 sampleFirst =
        ((sampleWriting none sampleFirst).1, (sampleWriting none sampleFirst).2) := by
    rw [sampleWriting]
  have hretry : (sampleExecutor.fs_write sampleProject.text "a.txt" .after none false []).run
      (machine SampleBytes) 0 (Call.leaves sampleExecutor sampleProject 0
        (.fs_write "a.txt" .after none false []) (.dies 18) sampleFirst) =
        ((sampleWriting none retryCut).1, (sampleWriting none retryCut).2) := by
    rw [sampleWriting, retryCut]
  exact write_retry sampleFirst_fresh (.nil _) retry_ungated 18 hsame hrun
    (fun a b ha hb _ _ => hticks' a ha b hb) hretry fun a b ha hb _ _ => hticks a ha b hb

end Samples

end jvc.GovernedExecutor
