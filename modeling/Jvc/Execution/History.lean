import Jvc.Execution.Ends
import Jvc.Recovery.Convergence
import Jvc.Recovery.Ready

open program program.Prog jvc.recovery

namespace jvc

variable {Bytes : Type} [Text] [Host Bytes] {i : Pid} {w w' : World Bytes}

/-- The operations on the files of a project and on its journal. -/
inductive Call (Bytes : Type)
  | fs_write (relative_path : String) (content : Bytes) (expected : Option String)
      (capability : Bool) (extra : List String)
  | fs_rollback (relative_path expected : String)
  | recover

/-- The path that an operation is given. -/
def Call.relative_path {Bytes : Type} : Call Bytes → Option String
  | .fs_write relative_path .. => some relative_path
  | .fs_rollback relative_path _ => some relative_path
  | .recover => none

/-- What an operation returns. -/
inductive Reply
  | written (reply : WriteReply)
  | rolledBack (result : RollbackResult)
  | recovered (summary : Summary)

/-- A call returns or raises, or its process dies after some of its steps. -/
inductive Fate
  | completes
  | dies (steps : Nat)

namespace Call

def isRecover : Call Bytes → Bool
  | .recover => true
  | _ => false

/-- A rollback or a recovery that is cut off leaves its transactions open. -/
def interrupted : Call Bytes → Fate → Bool
  | .fs_write .., _ => false
  | _, .completes => false
  | _, .dies _ => true

def body (self : GovernedExecutor) (p : ProjectId) : Call Bytes → Jvc Bytes Reply
  | .fs_write relative_path content expected capability extra =>
    .written <$> self.fs_write p.text relative_path content expected capability extra
  | .fs_rollback relative_path expected =>
    .rolledBack <$> self.fs_rollback p.text relative_path expected
  | .recover => .recovered <$> self.recover

/-- The host after the call. -/
def leaves (self : GovernedExecutor) (p : ProjectId) (i : Pid) (c : Call Bytes) :
    Fate → World Bytes → World Bytes
  | .completes, w => ((c.body self p).run (machine Bytes) i w).2
  | .dies n, w => ((c.body self p).cut (machine Bytes) i n w).crash i

end Call

/-- One call after the other on the files of a project, each by a process of its
own; `next` says which call may follow, after one that was interrupted or not. -/
inductive History (self : GovernedExecutor) (p : ProjectId) (next : Bool → Call Bytes → Prop) :
    Bool → World Bytes → World Bytes → Prop
  | nil (w : World Bytes) : History self p next false w w
  | call {interrupted : Bool} {w w' : World Bytes} (i : Pid) (c : Call Bytes) (fate : Fate)
      (hnext : next interrupted c) (h : History self p next interrupted w w') :
      History self p next (c.interrupted fate) w (c.leaves self p i fate w')

/-- After an interrupted rollback or recovery comes a recovery. -/
def Resumed (interrupted : Bool) (c : Call Bytes) : Prop := interrupted = true → c.isRecover = true

namespace recovery

variable {store : RecoveryStore} {p : ProjectId}
  {Inv : Option Pid → Target store → Journal Bytes → Prop}

/-- A host whose recovery store is empty, before the first operation. -/
structure Fresh (store : RecoveryStore) (w : World Bytes) : Prop where
  empty : ∀ name, w.lookup (store.root ++ "/" ++ name) = none
  unlocked : ∀ l, w.locks l = none
  changes : w.changes = []

/-- The lineage of every target of the project. -/
abbrev Lineages (store : RecoveryStore) (p : ProjectId) (interrupted : Bool) :
    Option Pid → Target store → Journal Bytes → Prop :=
  fun _ _ J => J.Lineage p interrupted

/-- The host between two calls. -/
structure Kept (store : RecoveryStore) (p : ProjectId) (interrupted : Bool) (w : World Bytes) :
    Prop where
  everywhere : Everywhere store (Lineages store p interrupted) w
  idle : Idle store w

theorem Kept.journal {interrupted : Bool} (h : Kept store p interrupted w) (t : Target store) :
    ∃ J : Journal Bytes, J.Lineage p interrupted ∧ J.At none t w :=
  h.everywhere.journal_of_idle h.idle t

theorem Kept.of_journals {interrupted : Bool} (hsound : store.Sound w)
    (h : ∀ t : Target store, ∃ J : Journal Bytes, J.Lineage p interrupted ∧ J.At none t w) :
    Kept store p interrupted w := by
  have hquiescent : Quiescent store (fun J => J.Lineage p interrupted) w := .of_journals hsound h
  exact ⟨hquiescent.everywhere, hquiescent.idle⟩

omit [Text] [Host Bytes] in
theorem Fresh.no_receipt (h : Fresh store w) {path : Path}
    (hp : store.isReceiptFile path = true) : w.lookup path = none := by
  have hstart : ∀ front back : String, globMatch store.root front back path = true →
      w.lookup path = none := by
    intro front back hmatch
    simp only [globMatch, Bool.and_eq_true, List.isPrefixOf_iff_prefix] at hmatch
    obtain ⟨rest, hrest⟩ := hmatch.1.1
    have heq : path = store.root ++ "/" ++ (front ++ String.ofList rest) := by
      apply String.toList_injective
      rw [← hrest]
      simp
    rw [heq]
    exact h.empty _
  rcases Bool.or_eq_true_iff.mp hp with hmatch | hmatch
  · exact hstart _ _ hmatch
  · exact hstart _ _ hmatch

theorem Fresh.sound (h : Fresh store w) : store.Sound w := by
  refine ⟨fun path data hp hdata => ?_, fun front s hsome => ?_⟩
  · rw [h.no_receipt hp] at hdata
    cases hdata
  · have hreceipt : w.lookup (store.receipt_path (front ++ s.text)) = none := by
      have hnone := h.empty (front ++ s.text ++ ".json")
      simpa [RecoveryStore.receipt_path, String.append_assoc] using hnone
    have hbackup : w.lookup (store.backup_path (front ++ s.text)) = none := by
      have hnone := h.empty (front ++ s.text ++ ".bak")
      simpa [RecoveryStore.backup_path, String.append_assoc] using hnone
    rw [hreceipt, hbackup] at hsome
    rcases hsome with hs | hs <;> cases hs

/-- A target without receipts. -/
theorem Fresh.start (h : Fresh store w) (t : Target store) :
    (Journal.start (w.lookup t.path)).At none t w where
  lock := h.unlocked t.lock
  sound := h.sound
  wf := ⟨List.nodup_nil, fun _ he => absurd he List.not_mem_nil⟩
  held := fun _ he => absurd he List.not_mem_nil
  backup := fun _ he => absurd he List.not_mem_nil
  complete := fun path r hp hr _ => by
    rw [h.no_receipt hp] at hr
    cases hr
  target := rfl
  fits := fun _ he => absurd he List.not_mem_nil
  log := by
    rw [h.changes]
    rfl

theorem Fresh.kept (h : Fresh store w) (p : ProjectId) : Kept store p false w := by
  refine ⟨⟨h.sound, fun t => ?_⟩, fun t => h.unlocked t.lock⟩
  rw [h.unlocked]
  exact ⟨_, Journal.lineage_start p _, h.start t⟩

/-- A call that is cut off keeps what every one of its steps keeps. -/
theorem Kept.cut {α : Type} {body : Jvc Bytes α} {interrupted : Bool}
    {Q : Except Err α → World Bytes → Prop} (h : Kept store p interrupted w)
    (hwp : body.wp (machine Bytes) i Eq (Move store (Lineages store p interrupted) i) Q w)
    (n : Nat) : Kept store p interrupted ((body.cut (machine Bytes) i n w).crash i) := by
  have hrest : Quiescent store (fun J => J.Lineage p interrupted) w := ⟨h.everywhere, h.idle⟩
  have hcut := hrest.cut hwp n
  exact ⟨hcut.everywhere, hcut.idle⟩

theorem Kept.weaken {interrupted : Bool} (h : Kept store p interrupted w) :
    Kept store p true w := by
  refine ⟨⟨h.everywhere.sound, fun t => ?_⟩, h.idle⟩
  obtain ⟨J, hJ, hat⟩ := h.everywhere.journal t
  exact ⟨J, hJ.weaken, hat⟩

end recovery

namespace GovernedExecutor

variable {self : GovernedExecutor} {p : ProjectId}

/-- A write of the project keeps the lineage of every target. -/
theorem wp_write_kept {relative_path : String} {content : Bytes} {expected : Option String}
    {capability : Bool} {extra : List String} (h : Kept self.recovery_store p false w) :
    (self.fs_write p.text relative_path content expected capability extra).wp (machine Bytes) i Eq
      (Move self.recovery_store (Lineages self.recovery_store p false) i)
      (fun _ w' => Kept self.recovery_store p false w') w := by
  refine wp_fs_write rfl (fun w' err hw _ _ => by subst hw; exact h)
    (fun w' hw _ => by subst hw; exact h) fun w' privileged q t c hw hgov => ?_
  subst hw
  have hq := hgov.eq_of_project
  subst hq
  obtain ⟨J, hJ, hat⟩ := h.journal t
  refine wp_with_lock_alone (fun _ _ _ hJ => hJ) h.everywhere hat hJ fun w₁ hw₁ hat₁ => ?_
  have hstep : ∀ (l : Label), (∀ r, l = .prepare r → r = q) → l ≠ .undo → (∀ r, l ≠ .intend r) →
      ∀ J J' : Journal Bytes, J.Lineage q false → Step i t.path l J J' → J'.Lineage q false := by
    intro l hprepare hundo hintend J J' hJ hone
    refine hJ.step hone (fun r hr => ⟨?_, rfl⟩) fun _ => ⟨hundo, hintend⟩
    exact hr.elim (hprepare r) fun hr => absurd hr (hintend r)
  have hdone : ∀ (w₂ : World Bytes) (J' : Journal Bytes),
      J'.At (some i) t w₂ → J'.Lineage q false → ∃ J' : Journal Bytes, J'.Lineage q false ∧
        J'.At (some i) t w₂ ∧ ∀ w₃, Later self.recovery_store i w₂ w₃ → J'.At none t w₃ →
          Everywhere self.recovery_store (Lineages self.recovery_store q false) w₃ →
            Apart t w w₃ → Kept self.recovery_store q false w₃ := by
    intro w₂ J' hat₂ hJ₂
    exact ⟨J', hJ₂, hat₂, fun w₃ _ hat₃ hev₃ hapart =>
      ⟨hev₃, hapart.idle h.everywhere h.idle hat₃.lock⟩⟩
  refine GovernedExecutor.critical_write_locked (p := q) (fun _ hJ => hJ)
    (hstep .settle (fun _ hr => by cases hr) (by decide) fun _ hr => by cases hr)
    (fun _ => hstep (.prepare q) (fun r hr => by cases hr; rfl) (fun hr => by cases hr) fun _ hr => by cases hr)
    (hstep .write (fun _ hr => by cases hr) (by decide) fun _ hr => by cases hr)
    hat₁ hJ hJ.traced.logged (fun w₂ J' e hat₂ hJ₂ _ => hdone w₂ _ hat₂ hJ₂)
    fun w₂ J' err hat₂ hJ₂ _ => hdone w₂ J' hat₂ hJ₂

/-- How a rollback of the project ends. -/
inductive RollbackEnds (self : GovernedExecutor) (p : ProjectId) (i : Pid)
    (relative_path expected : String) (w : World Bytes) :
    Except Err RollbackResult → World Bytes → Prop
  | refused {err : Err} (herr : err.isRecoveryRequired = false)
      (hno : ∀ route t c, ¬ self.Reaches p.text relative_path w route t c) :
      RollbackEnds self p i relative_path expected w (.error err) w
  | denied {w' : World Bytes} {err : Err} {t : Target self.recovery_store} {c : String}
      {J J' : Journal Bytes}
      (hgov : self.Governs p.text relative_path "FS_ROLLBACK" false p t c)
      (hat : J.At none t w) (hJ : J.Lineage p false) (hat' : J'.At none t w')
      (hdenied : RollbackDenied i t.path p expected J w' err J') :
      RollbackEnds self p i relative_path expected w (.error err) w'
  | undone {w' : World Bytes} {t : Target self.recovery_store} {c : String}
      {J J' : Journal Bytes} {r s : Entry Bytes}
      (hgov : self.Governs p.text relative_path "FS_ROLLBACK" false p t c)
      (hat : J.At none t w) (hJ : J.Lineage p false) (hJ' : J'.Lineage p false)
      (hback : RolledBack i t.path p expected J J' r s)
      (hat' : (J'.undone i t.path r s).At none t w') :
      RollbackEnds self p i relative_path expected w
        (.ok ⟨s.receipt_id, r.receipt_id, t.path, s.undoing⟩) w'

/-- A rollback of the project that is not cut off keeps the lineage of every target. -/
theorem wp_rollback_kept {relative_path expected : String}
    (h : Kept self.recovery_store p false w) :
    (self.fs_rollback p.text relative_path expected).wp (machine Bytes) i Eq
      (Move self.recovery_store (Lineages self.recovery_store p true) i)
      (fun r w' => Kept self.recovery_store p false w' ∧
        RollbackEnds self p i relative_path expected w r w') w := by
  refine wp_fs_rollback rfl (fun w' err hw herr hno => ?_) fun w' q t c hw hgov => ?_
  · subst hw
    exact ⟨h, .refused herr hno⟩
  subst hw
  have hq := hgov.eq_of_project
  subst hq
  obtain ⟨J, hJ, hat⟩ := h.journal t
  refine wp_with_lock_alone (fun _ _ _ hJ => hJ) h.weaken.everywhere hat hJ.weaken
    fun w₁ hw₁ hat₁ => ?_
  have hsettle : ∀ J J' : Journal Bytes, J.Lineage q false → Step i t.path .settle J J' →
      J'.Lineage q false := fun J J' hJ hone =>
    hJ.step hone (fun r hr => by rcases hr with hr | hr <;> cases hr)
      fun _ => ⟨by decide, fun r hr => by cases hr⟩
  have hover : ∀ J J' : Journal Bytes, J.Lineage q false → Step i t.path .overtake J J' →
      J'.Lineage q false := fun J J' hJ hone =>
    hJ.step hone (fun r hr => by rcases hr with hr | hr <;> cases hr)
      fun _ => ⟨by decide, fun r hr => by cases hr⟩
  have hundo : ∀ J J' : Journal Bytes, J.Lineage q true → Step i t.path .undo J J' →
      J'.Lineage q true := fun J J' hJ hone =>
    hJ.step hone (fun r hr => by rcases hr with hr | hr <;> cases hr) fun hno => by cases hno
  -- the other targets are as they were, this one is ready again
  have hkept : ∀ (w₃ : World Bytes) (K : Journal Bytes), K.At none t w₃ → K.Lineage q false →
      Everywhere self.recovery_store (Lineages self.recovery_store q true) w₃ → Apart t w w₃ →
        Kept self.recovery_store q false w₃ := by
    intro w₃ K hat₃ hK hev₃ hapart
    refine .of_journals hev₃.sound fun t' => ?_
    by_cases hpath : t'.path = t.path
    · rw [Target.eq_of_path hpath]
      exact ⟨K, hK, hat₃⟩
    · obtain ⟨K', hK', hatK'⟩ := h.journal t'
      exact ⟨K', hK', hapart.view t' hpath none K' hatK'⟩
  refine GovernedExecutor.critical_rollback_locked (p := q) (fun _ hJ => hJ.weaken) hsettle hover
    (fun J J' hJ hone => hJ.intend hone) hundo hat₁ hJ (fun w₂ J' r s hat₂ hJ₂ hback => ?_)
    (fun w₂ J' r s err _ _ hovertaking _ hint hlost _ => ?_) fun w₂ J' err hat₂ hJ₂ hdenied => ?_
  · have hJ' : J'.Lineage q false := hback.overtaking.preserves hsettle hover hJ
    have hready : (J'.undone i t.path r s).Lineage q false :=
      ⟨hJ₂.chained, hJ₂.orderly, hJ₂.traced,
        fun _ => (hJ'.ready rfl).undone hJ'.chained.wf hback.intent⟩
    refine ⟨_, hJ₂, hat₂, fun w₃ _ hat₃ hev₃ hapart => ?_⟩
    exact ⟨hkept w₃ _ hat₃ hready hev₃ hapart, .undone hgov hat hJ hJ' hback hat₃⟩
  · have hJ' : J'.Lineage q false := hovertaking.preserves hsettle hover hJ
    rw [hJ'.chained.intact s hint.source] at hlost
    cases hlost
  · refine ⟨J', hJ₂.weaken, hat₂, fun w₃ hw₃ hat₃ hev₃ hapart => ?_⟩
    exact ⟨hkept w₃ J' hat₃ hJ₂ hev₃ hapart, .denied hgov hat hJ hat₃ (hdenied.later hw₃)⟩

theorem quiet_kept {l : Label} (hl : l.quiet = true) (t : Target self.recovery_store)
    (J J' : Journal Bytes) (hJ : J.Lineage p true) (hstep : Step i t.path l J J') :
    J'.Lineage p true := by
  refine hJ.step hstep (fun r hr => ?_) fun hno => by cases hno
  rcases hr with rfl | rfl <;> cases hl

theorem wp_recover_kept_sound {interrupted : Bool} (h : Kept self.recovery_store p interrupted w) :
    (self.recover).wp (machine Bytes) i Eq
      (Move self.recovery_store (Lineages self.recovery_store p true) i)
      (fun _ w' => self.recovery_store.Sound w') w := by
  refine wp_mono (fun a b hab => ?_) (fun _ _ => id) (fun _ _ => id)
    (wp_recover (fun _ _ _ hJ => hJ) (quiet_kept rfl) (quiet_kept rfl) h.weaken.everywhere
      fun w' files s l _ hev _ _ _ _ orphans => hev.sound)
  subst hab
  exact .refl a

/-- A recovery that is not cut off makes the journal of every target ready. -/
theorem wp_recover_kept {interrupted : Bool} (h : Kept self.recovery_store p interrupted w)
    (t : Target self.recovery_store) {J : Journal Bytes} (hJ : J.Lineage p true)
    (hat : J.At none t w) :
    (self.recover).wp (machine Bytes) i Eq
      (Move self.recovery_store (Lineages self.recovery_store p true) i)
      (fun _ w' => ∃ J' : Journal Bytes, Recovering i t.path J J' ∧ J'.Lineage p false ∧
        J'.At none t w') w := by
  refine wp_recover_alone (fun _ _ _ hJ => hJ) (quiet_kept rfl) (quiet_kept rfl)
    h.weaken.everywhere h.idle hat hJ fun w' s files J' hrestarted hdecided => ?_
  have hJ' := hrestarted.inv
  refine ⟨J', hrestarted.recovering, ?_, hrestarted.view⟩
  exact ⟨hJ'.chained, hJ'.orderly, hJ'.traced, fun _ => .of_decided hdecided⟩

/-- Every call that may follow keeps the lineage of every target. -/
theorem kept_call {interrupted : Bool} {c : Call Bytes} (h : Kept self.recovery_store p interrupted w)
    (hnext : Resumed interrupted c) (fate : Fate) :
    Kept self.recovery_store p (c.interrupted fate) (c.leaves self p i fate w) := by
  cases c with
  | fs_write relative_path content expected capability extra =>
    have hready : interrupted = false := by
      by_contra hopen
      have hrec := hnext (by simpa using hopen)
      cases hrec
    subst hready
    have hwp : (self.fs_write p.text relative_path content expected capability extra).wp
        (machine Bytes) i Eq (Move self.recovery_store (Lineages self.recovery_store p false) i)
        (fun _ w' => Kept self.recovery_store p false w') w := wp_write_kept h
    cases fate with
    | completes =>
      rw [Call.leaves, Call.body, run_map_state]
      exact run_of_wp (fun _ => rfl) hwp
    | dies n =>
      rw [Call.leaves, Call.body, cut_map]
      exact h.cut hwp n
  | fs_rollback relative_path expected =>
    have hready : interrupted = false := by
      by_contra hopen
      have hrec := hnext (by simpa using hopen)
      cases hrec
    subst hready
    have hwp : (self.fs_rollback p.text relative_path expected).wp (machine Bytes) i Eq
        (Move self.recovery_store (Lineages self.recovery_store p true) i)
        (fun r w' => Kept self.recovery_store p false w' ∧
          RollbackEnds self p i relative_path expected w r w') w := wp_rollback_kept h
    cases fate with
    | completes =>
      rw [Call.leaves, Call.body, run_map_state]
      exact (run_of_wp (fun _ => rfl) hwp).1
    | dies n =>
      rw [Call.leaves, Call.body, cut_map]
      exact h.weaken.cut hwp n
  | recover =>
    have hsound := wp_recover_kept_sound (i := i) h
    cases fate with
    | completes =>
      rw [Call.leaves, Call.body, run_map_state]
      refine Kept.of_journals (run_of_wp (fun _ => rfl) hsound) fun t => ?_
      obtain ⟨J, hJ, hat⟩ := h.weaken.journal t
      obtain ⟨J', _, hJ', hat'⟩ := run_of_wp (fun _ => rfl) (wp_recover_kept (i := i) h t hJ hat)
      exact ⟨J', hJ', hat'⟩
    | dies n =>
      rw [Call.leaves, Call.body, cut_map]
      exact h.weaken.cut hsound n

/-- Whatever calls there have been, every target has its lineage. -/
theorem kept_history {interrupted : Bool} {w₀ : World Bytes}
    (hfresh : Fresh self.recovery_store w₀) (h : History self p Resumed interrupted w₀ w) :
    Kept self.recovery_store p interrupted w := by
  induction h with
  | nil => exact hfresh.kept p
  | call i c fate hnext _ ih => exact kept_call (ih hfresh) hnext fate

/-- In every reachable state of a project's files the journal of a target has its shape. -/
theorem journal_shaped {interrupted : Bool} {w₀ : World Bytes}
    (hfresh : Fresh self.recovery_store w₀) (h : History self p Resumed interrupted w₀ w)
    (t : Target self.recovery_store) : ∃ J : Journal Bytes, J.At none t w ∧ J.Shaped := by
  obtain ⟨J, hJ, hat⟩ := (kept_history hfresh h).journal t
  exact ⟨J, hat, hJ.shaped⟩

end GovernedExecutor

end jvc

namespace jvc.GovernedExecutor

theorem sampleProject_matched : matchId false "demo".toList = true := by decide

def sampleProject : ProjectId := ⟨"demo", sampleProject_matched⟩

/-- An active project in `/p`, with host stores beside it. -/
def sampleExecutor : GovernedExecutor where
  registry := ⟨[⟨sampleProject, "/p", "active"⟩]⟩
  recovery_store := sampleStore
  confirmation_store := "/trust"
  stores_outside := by decide

/-- A file of the sample project. -/
def sampleTarget : Target sampleExecutor.recovery_store :=
  ⟨"/p/a.txt", by decide, by decide +kernel, by decide⟩

section Samples

attribute [local instance] asciiText recovery.sampleHost

theorem sample_fresh : Fresh sampleExecutor.recovery_store (sampleWorld []) :=
  ⟨fun _ => rfl, fun _ => rfl, rfl⟩

/-- A write of the sample file, cut off after its twentieth step. -/
def sampleCut : World SampleBytes :=
  Call.leaves sampleExecutor sampleProject 0 (.fs_write "a.txt" .after none false []) (.dies 20)
    (sampleWorld [])

/-- The first receipts of a host have different ids. -/
def sampleStamps : Nat → Stamp
  | 0 => .sample
  | 1 => ⟨"20260101T000001Z-000000000-0123456789ab", by decide, by decide⟩
  | 2 => ⟨"20260101T000002Z-000000000-0123456789ab", by decide, by decide⟩
  | 3 => ⟨"20260101T000003Z-000000000-0123456789ab", by decide, by decide⟩
  | 4 => ⟨"20260101T000004Z-000000000-0123456789ab", by decide, by decide⟩
  | 5 => ⟨"20260101T000005Z-000000000-0123456789ab", by decide, by decide⟩
  | _ + 6 => ⟨"20260101T000006Z-000000000-0123456789ab", by decide, by decide⟩

/-- The sample host before anything is written. -/
def sampleFirst : World SampleBytes := { sampleWorld [] with stamps := sampleStamps }

theorem sampleFirst_fresh : Fresh sampleExecutor.recovery_store sampleFirst :=
  ⟨fun _ => rfl, fun _ => rfl, rfl⟩

/-- The sample file created and edited; a second edit is cut off once its receipt is PREPARED,
and the host recovers. -/
def sampleServed : World SampleBytes :=
  Call.leaves sampleExecutor sampleProject 1 .recover .completes
    (Call.leaves sampleExecutor sampleProject 0 (.fs_write "a.txt" .other (some "1A") false [])
      (.dies 31)
      (Call.leaves sampleExecutor sampleProject 0 (.fs_write "a.txt" .after (some "0A") false [])
        .completes
        (Call.leaves sampleExecutor sampleProject 0 (.fs_write "a.txt" .before none false [])
          .completes sampleFirst)))

theorem sampleServed_history :
    History sampleExecutor sampleProject Resumed false sampleFirst sampleServed := by
  have hnext : ∀ c : Call SampleBytes, Resumed false c := fun _ h => absurd h Bool.false_ne_true
  have hcreated : History sampleExecutor sampleProject Resumed _ sampleFirst _ :=
    .call 0 (.fs_write "a.txt" .before none false []) .completes (hnext _) (.nil _)
  have hedited : History sampleExecutor sampleProject Resumed _ sampleFirst _ :=
    .call 0 (.fs_write "a.txt" .after (some "0A") false []) .completes (hnext _) hcreated
  have hcut : History sampleExecutor sampleProject Resumed _ sampleFirst _ :=
    .call 0 (.fs_write "a.txt" .other (some "1A") false []) (.dies 31) (hnext _) hedited
  have hrecovered : History sampleExecutor sampleProject Resumed _ sampleFirst _ :=
    .call 1 .recover .completes (hnext _) hcut
  exact hrecovered

theorem journal_shaped_cut :
    ∃ J : Journal SampleBytes, J.At none sampleTarget sampleServed ∧ J.Shaped :=
  journal_shaped sampleFirst_fresh sampleServed_history sampleTarget

end Samples

end jvc.GovernedExecutor
