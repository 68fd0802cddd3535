import Jvc.Execution.Calls
import Jvc.Execution.Restart
import Jvc.Recovery.Sources

open program program.Prog

namespace jvc

variable {Bytes : Type} [Text] [Host Bytes]

namespace recovery

variable {store : RecoveryStore} {Inv : Journal Bytes → Prop} {i : Pid} {w w' : World Bytes}

/-- An invariant of journals that every step keeps. -/
structure Stable (Inv : Journal Bytes → Prop) : Prop where
  step : ∀ {i : Pid} {t : Path} {l : Label} {J J' : Journal Bytes}, Inv J → Step i t l J J' → Inv J'
  logged : ∀ {J : Journal Bytes}, Inv J → J.Logged
  intact : ∀ {J : Journal Bytes}, Inv J → ∀ e ∈ J.entries, e.backup_ok = true

/-- The host between two calls: every target has a journal, and none is locked. -/
structure Quiescent (store : RecoveryStore) (Inv : Journal Bytes → Prop) (w : World Bytes) :
    Prop where
  everywhere : Everywhere store (fun _ _ J => Inv J) w
  idle : Idle store w

theorem Quiescent.journal (h : Quiescent store Inv w) (t : Target store) :
    ∃ J : Journal Bytes, Inv J ∧ J.At none t w := h.everywhere.journal_of_idle h.idle t

theorem Quiescent.of_journals (hsound : store.Sound w)
    (h : ∀ t : Target store, ∃ J : Journal Bytes, Inv J ∧ J.At none t w) :
    Quiescent store Inv w := by
  have hidle : Idle store w := by
    intro t
    obtain ⟨J, _, hat⟩ := h t
    exact hat.lock
  refine ⟨⟨hsound, fun t => ?_⟩, hidle⟩
  rw [hidle t]
  exact h t

theorem RollbackDenied.later {t : Path} {p : ProjectId} {expected : String} {J J' : Journal Bytes}
    {err : Err} (h : RollbackDenied i t p expected J w err J') (hw : Later store i w w') :
    RollbackDenied i t p expected J w' err J' := by
  cases h with
  | stale hcurrent herr => exact .stale hcurrent herr
  | pending hover hres herr => exact .pending hover hres herr
  | headless hover hsettled hcurrent hhead => exact .headless hover hsettled hcurrent hhead
  | repeated hover hsettled hrepeat => exact .repeated hover hsettled (hrepeat.later hw)

section Crash

/-- Every target is free or locked by the process. -/
def Own (store : RecoveryStore) (i : Pid) (w : World Bytes) : Prop :=
  ∀ t : Target store, w.locks t.lock = none ∨ w.locks t.lock = some i

theorem Own.move {Inv : Option Pid → Target store → Journal Bytes → Prop} (h : Own store i w)
    (hmove : Move store Inv i w w') : Own store i w' := by
  intro t
  cases hmove with
  | acquire t' =>
    rw [World.locks_setLock]
    split
    · exact .inr rfl
    · exact h t
  | timeout => exact h t
  | touch t' hguar =>
    rw [hguar.1.locks]
    exact h t
  | release t' =>
    rw [World.locks_setLock]
    split
    · exact .inl rfl
    · exact h t

/-- The files of a journal do not depend on who has its lock. -/
theorem Journal.At.crash {owner : Option Pid} {t : Target store} {J : Journal Bytes}
    (h : J.At owner t w) (hfree : (w.crash i).locks t.lock = none) : J.At none t (w.crash i) where
  lock := hfree
  sound := ⟨h.sound.receipts, h.sound.drawn⟩
  wf := h.wf
  held := h.held
  backup := h.backup
  complete := h.complete
  target := h.target
  fits := h.fits
  log := h.log

omit [Text] [Host Bytes] in
theorem Own.crash (h : Own store i w) (t : Target store) : (w.crash i).locks t.lock = none := by
  simp only [World.crash]
  rcases h t with hfree | hown
  · rw [hfree]
    split <;> rfl
  · rw [hown, if_pos rfl]

/-- A call that is cut off keeps what every one of its steps keeps. -/
theorem Quiescent.cut {α : Type} {body : Jvc Bytes α} {Q : Except Err α → World Bytes → Prop}
    (h : Quiescent store Inv w)
    (hwp : body.wp (machine Bytes) i Eq (Move store (fun _ _ J => Inv J) i) Q w) (n : Nat) :
    Quiescent store Inv ((body.cut (machine Bytes) i n w).crash i) := by
  have hkeep : Everywhere store (fun _ _ J => Inv J) (body.cut (machine Bytes) i n w) ∧
      Own store i (body.cut (machine Bytes) i n w) :=
    cut_invariant (I := fun a => Everywhere store (fun _ _ J => Inv J) a ∧ Own store i a)
      (fun _ => rfl) hwp
      (fun a b ha hmove => ⟨hmove.everywhere (fun _ _ _ hJ => hJ) ha.1, ha.2.move hmove⟩)
      ⟨h.everywhere, fun t => .inl (h.idle t)⟩ n
  obtain ⟨hev, hown⟩ := hkeep
  refine ⟨⟨⟨hev.sound.receipts, hev.sound.drawn⟩, fun t => ?_⟩, hown.crash⟩
  obtain ⟨J, hJ, hat⟩ := hev.journal t
  rw [hown.crash t]
  exact ⟨J, hJ, hat.crash (hown.crash t)⟩

end Crash

end recovery

namespace GovernedExecutor

open recovery

variable {self : GovernedExecutor} {Inv : Journal Bytes → Prop} {p : ProjectId} {i : Pid}
  {w w' : World Bytes} {relative_path : String}

omit [Host Bytes] in
/-- The project a call works for is the one it names. -/
theorem Governs.eq_of_project {operation c : String} {privileged : Bool} {q : ProjectId}
    {t : Target self.recovery_store}
    (h : self.Governs p.text relative_path operation privileged q t c) : q = p := by
  obtain ⟨text, _⟩ := q
  have htext := h.project
  subst htext
  rfl

theorem WriteDenied.later {store : RecoveryStore} {t : Path} {expected : Option String}
    {J J' : Journal Bytes} {err : Err} (h : WriteDenied i t p expected J w err J')
    (hw : Later store i w w') : WriteDenied i t p expected J w' err J' := by
  cases h with
  | blocked hsettling hres herr => exact .blocked hsettling hres herr
  | unnamed hsettling hfree hlong herr => exact .unnamed hsettling hfree hlong herr
  | stale hsettling hfree hstale herr => exact .stale hsettling hfree hstale herr
  | oversized hsettling hfree hsize herr => exact .oversized hsettling hfree hsize herr
  | repeated hsettling hfree hrepeat => exact .repeated hsettling hfree (hrepeat.later hw)

/-- How a write ends, from a host where every target has a journal. -/
inductive WriteEnds (Inv : Journal Bytes → Prop) (self : GovernedExecutor) (p : ProjectId) (i : Pid)
    (relative_path : String) (content : Bytes) (expected : Option String) (extra : List String)
    (w : World Bytes) : Except Err WriteReply → World Bytes → Prop
  | refused {err : Err} (herr : err.isRecoveryRequired = false)
      (hno : ∀ route t c, ¬ self.Ungated p.text relative_path extra w route t c) :
      WriteEnds Inv self p i relative_path content expected extra w (.error err) w
  | unconfirmed (hno : ∀ route t c, ¬ self.Ungated p.text relative_path extra w route t c) :
      WriteEnds Inv self p i relative_path content expected extra w
        (.ok (.REQUIRES_CONFIRMATION p.text relative_path)) w
  | denied {w' : World Bytes} {err : Err} {privileged : Bool} {t : Target self.recovery_store}
      {c : String} {J J' : Journal Bytes}
      (hgov : self.Governs p.text relative_path "FS_WRITE" privileged p t c)
      (hJ : Inv J) (hat : J.At none t w) (hat' : J'.At none t w') (hapart : Apart t w w')
      (hdenied : WriteDenied i t.path p expected J w' err J') :
      WriteEnds Inv self p i relative_path content expected extra w (.error err) w'
  | wrote {w' : World Bytes} {privileged : Bool} {t : Target self.recovery_store}
      {c : String} {J J' : Journal Bytes} {e : Entry Bytes}
      (hgov : self.Governs p.text relative_path "FS_WRITE" privileged p t c)
      (hJ : Inv J) (hat : J.At none t w) (hJ' : Inv J') (hwrote : Wrote i t.path p expected J J' e)
      (hat' : (J'.written i t.path e content).At none t w') (hapart : Apart t w w') :
      WriteEnds Inv self p i relative_path content expected extra w
        (.ok (reply p.text c J' e content)) w'

/-- How a rollback ends, from a host where every target has a journal. -/
inductive UndoEnds (Inv : Journal Bytes → Prop) (self : GovernedExecutor) (p : ProjectId) (i : Pid)
    (relative_path expected : String) (w : World Bytes) :
    Except Err RollbackResult → World Bytes → Prop
  | refused {err : Err} (herr : err.isRecoveryRequired = false)
      (hno : ∀ route t c, ¬ self.Reaches p.text relative_path w route t c) :
      UndoEnds Inv self p i relative_path expected w (.error err) w
  | denied {w' : World Bytes} {err : Err} {t : Target self.recovery_store} {c : String}
      {J J' : Journal Bytes}
      (hgov : self.Governs p.text relative_path "FS_ROLLBACK" false p t c)
      (hJ : Inv J) (hat : J.At none t w) (hat' : J'.At none t w') (hapart : Apart t w w')
      (hdenied : RollbackDenied i t.path p expected J w' err J') :
      UndoEnds Inv self p i relative_path expected w (.error err) w'
  | undone {w' : World Bytes} {t : Target self.recovery_store} {c : String}
      {J J' : Journal Bytes} {r s : Entry Bytes}
      (hgov : self.Governs p.text relative_path "FS_ROLLBACK" false p t c)
      (hJ : Inv J) (hat : J.At none t w) (hback : RolledBack i t.path p expected J J' r s)
      (hat' : (J'.undone i t.path r s).At none t w') (hapart : Apart t w w') :
      UndoEnds Inv self p i relative_path expected w
        (.ok ⟨s.receipt_id, r.receipt_id, t.path, s.undoing⟩) w'

section Stable

variable (hS : Stable Inv)
include hS

theorem wp_write_ends {content : Bytes} {expected : Option String} {capability : Bool}
    {extra : List String} (h : Quiescent self.recovery_store Inv w) :
    (self.fs_write p.text relative_path content expected capability extra).wp (machine Bytes) i Eq
      (Move self.recovery_store (fun _ _ J => Inv J) i)
      (fun r w' => Quiescent self.recovery_store Inv w' ∧
        WriteEnds Inv self p i relative_path content expected extra w r w') w := by
  refine wp_fs_write rfl (fun w' err hw herr hno => ?_) (fun w' hw hno => ?_)
    fun w' privileged q t c hw hgov => ?_
  · subst hw
    exact ⟨h, .refused herr hno⟩
  · subst hw
    exact ⟨h, .unconfirmed hno⟩
  subst hw
  have hq := hgov.eq_of_project
  subst hq
  obtain ⟨J, hJ, hat⟩ := h.journal t
  refine wp_with_lock_alone (fun _ _ _ hJ => hJ) h.everywhere hat hJ fun w₁ hw₁ hat₁ => ?_
  have hkeep : ∀ (l : Label) (J J' : Journal Bytes), Inv J → Step i t.path l J J' → Inv J' :=
    fun l J J' hJ hone => hS.step hJ hone
  refine critical_write_locked (p := q) (fun _ hJ => hJ) (hkeep .settle)
    (fun _ => hkeep (.prepare q)) (hkeep .write) hat₁ hJ (hS.logged hJ)
    (fun w₂ J' e hat₂ hJ₂ hwrote => ?_) fun w₂ J' err hat₂ hJ₂ hdenied => ?_
  · refine ⟨_, hJ₂, hat₂, fun w₃ _ hat₃ hev₃ hapart => ?_⟩
    have hJ' : Inv J' := hwrote.settling.preserves (hkeep .settle) hJ
    exact ⟨⟨hev₃, hapart.idle h.everywhere h.idle hat₃.lock⟩,
      .wrote hgov hJ hat hJ' hwrote hat₃ hapart⟩
  · refine ⟨J', hJ₂, hat₂, fun w₃ hw₃ hat₃ hev₃ hapart => ?_⟩
    exact ⟨⟨hev₃, hapart.idle h.everywhere h.idle hat₃.lock⟩,
      .denied hgov hJ hat hat₃ hapart (hdenied.later hw₃)⟩

theorem wp_undo_ends {expected : String} (h : Quiescent self.recovery_store Inv w) :
    (self.fs_rollback p.text relative_path expected).wp (machine Bytes) i Eq
      (Move self.recovery_store (fun _ _ J => Inv J) i)
      (fun r w' => Quiescent self.recovery_store Inv w' ∧
        UndoEnds Inv self p i relative_path expected w r w') w := by
  refine wp_fs_rollback rfl (fun w' err hw herr hno => ?_) fun w' q t c hw hgov => ?_
  · subst hw
    exact ⟨h, .refused herr hno⟩
  subst hw
  have hq := hgov.eq_of_project
  subst hq
  obtain ⟨J, hJ, hat⟩ := h.journal t
  refine wp_with_lock_alone (fun _ _ _ hJ => hJ) h.everywhere hat hJ fun w₁ hw₁ hat₁ => ?_
  have hkeep : ∀ (l : Label) (J J' : Journal Bytes), Inv J → Step i t.path l J J' → Inv J' :=
    fun l J J' hJ hone => hS.step hJ hone
  refine critical_rollback_locked (p := q) (fun _ hJ => hJ) (hkeep .settle) (hkeep .overtake)
    (hkeep (.intend q)) (hkeep .undo) hat₁ hJ (fun w₂ J' r s hat₂ hJ₂ hback => ?_)
    (fun w₂ J' r s err _ _ hover _ hint hlost _ => ?_) fun w₂ J' err hat₂ hJ₂ hdenied => ?_
  · refine ⟨_, hJ₂, hat₂, fun w₃ _ hat₃ hev₃ hapart => ?_⟩
    exact ⟨⟨hev₃, hapart.idle h.everywhere h.idle hat₃.lock⟩, .undone hgov hJ hat hback hat₃ hapart⟩
  · have hJ' : Inv J' := hover.preserves (hkeep .settle) (hkeep .overtake) hJ
    rw [hS.intact hJ' s hint.source] at hlost
    cases hlost
  · refine ⟨J', hJ₂, hat₂, fun w₃ hw₃ hat₃ hev₃ hapart => ?_⟩
    exact ⟨⟨hev₃, hapart.idle h.everywhere h.idle hat₃.lock⟩,
      .denied hgov hJ hat hat₃ hapart (hdenied.later hw₃)⟩

theorem wp_recover_sound (h : Quiescent self.recovery_store Inv w) :
    (self.recover).wp (machine Bytes) i Eq (Move self.recovery_store (fun _ _ J => Inv J) i)
      (fun _ w' => self.recovery_store.Sound w') w := by
  refine wp_mono (fun a b hab => ?_) (fun _ _ => id) (fun _ _ => id)
    (wp_recover (fun _ _ _ hJ => hJ) (fun _ _ _ => hS.step) (fun _ _ _ => hS.step) h.everywhere
      fun w' files s l _ hev _ _ _ _ orphans => hev.sound)
  subst hab
  exact .refl a

/-- A recovery decides every receipt of a target. -/
theorem wp_recover_decides (h : Quiescent self.recovery_store Inv w)
    (t : Target self.recovery_store) {J : Journal Bytes} (hJ : Inv J) (hat : J.At none t w) :
    (self.recover).wp (machine Bytes) i Eq (Move self.recovery_store (fun _ _ J => Inv J) i)
      (fun _ w' => ∃ J' : Journal Bytes, Inv J' ∧ Recovering i t.path J J' ∧ J'.At none t w' ∧
        ∀ x ∈ J'.entries, x.Decided J') w := by
  refine wp_recover_alone (fun _ _ _ hJ => hJ) (fun _ _ _ => hS.step) (fun _ _ _ => hS.step)
    h.everywhere h.idle hat hJ fun w' s files J' hrestarted hdecided => ?_
  exact ⟨J', hrestarted.inv, hrestarted.recovering, hrestarted.view, hdecided⟩

end Stable

end GovernedExecutor

end jvc
