import Jvc.Execution.History

open program program.Prog jvc.recovery

namespace jvc

variable {Bytes : Type}

/-- A file replaced, created or deleted by a program that is not governed. -/
def World.edited (w : World Bytes) (p : Path) : Option Bytes → World Bytes
  | some data => { w with files := w.files.insert p data }
  | none => { w with files := w.files.erase p }

theorem World.lookup_edited (w : World Bytes) (p q : Path) (content : Option Bytes) :
    (w.edited p content).lookup q = if q = p then content else w.lookup q := by
  cases content with
  | some data =>
    split
    · rename_i h
      rw [h]
      exact AList.lookup_insert _
    · rename_i h
      exact AList.lookup_insert_ne h
  | none =>
    split
    · rename_i h
      rw [h]
      exact AList.lookup_erase _ _
    · rename_i h
      exact AList.lookup_erase_ne h

@[simp] theorem World.locks_edited (w : World Bytes) (p : Path) (content : Option Bytes) :
    (w.edited p content).locks = w.locks := by
  cases content <;> rfl

@[simp] theorem World.changes_edited (w : World Bytes) (p : Path) (content : Option Bytes) :
    (w.edited p content).changes = w.changes := by
  cases content <;> rfl

@[simp] theorem World.drawn_edited (w : World Bytes) (p : Path) (content : Option Bytes)
    (s : Stamp) : (w.edited p content).Drawn s ↔ w.Drawn s := by
  cases content <;> rfl

variable [Text] [Host Bytes]

/-- What may happen to the files of a host between which nobody touches the store:
calls of any project, each completed or cut off, and changes from outside. -/
inductive Run (self : GovernedExecutor) : World Bytes → World Bytes → Prop
  | nil (w : World Bytes) : Run self w w
  | call {w w' : World Bytes} (i : Pid) (p : ProjectId) (c : Call Bytes) (fate : Fate)
      (h : Run self w w') : Run self w (c.leaves self p i fate w')
  | edit {w w' : World Bytes} (t : Target self.recovery_store) (content : Option Bytes)
      (h : Run self w w') : Run self w (w'.edited t.path content)

theorem History.run {self : GovernedExecutor} {p : ProjectId} {next : Bool → Call Bytes → Prop}
    {interrupted : Bool} {w w' : World Bytes} (h : History self p next interrupted w w') :
    Run self w w' := by
  induction h with
  | nil w => exact .nil w
  | call i c fate _ _ ih => exact .call i p c fate ih

namespace recovery

variable {store : RecoveryStore} {Inv : Journal Bytes → Prop} {w : World Bytes}

theorem RecoveryStore.Sound.edited (h : store.Sound w) (t : Target store)
    (content : Option Bytes) : store.Sound (w.edited t.path content) := by
  refine ⟨fun p data hp hdata => ?_, fun front s hsome => ?_⟩
  · rw [World.lookup_edited, if_neg] at hdata
    · exact h.receipts p data hp hdata
    · rintro rfl
      rw [t.not_receiptFile] at hp
      cases hp
  · rw [World.lookup_edited, if_neg (t.path_ne_receipt_path _).symm, World.lookup_edited,
      if_neg (t.path_ne_backup_path _).symm] at hsome
    rw [World.drawn_edited]
    exact h.drawn front s hsome

/-- A change from outside is one of the target, not of its receipts. -/
theorem Journal.At.edited {owner : Option Pid} {t : Target store} {J : Journal Bytes}
    (h : J.At owner t w) (content : Option Bytes) :
    { J with target := content }.At owner t (w.edited t.path content) where
  lock := by
    rw [World.locks_edited]
    exact h.lock
  sound := h.sound.edited t content
  wf := ⟨h.wf.nodup, h.wf.source⟩
  held := fun e he => by
    rw [World.lookup_edited, if_neg (t.path_ne_receipt_path _).symm]
    exact h.held e he
  backup := fun e he hw => by
    rw [World.lookup_edited, if_neg (t.path_ne_backup_path _).symm]
    exact h.backup e he hw
  complete := fun p r hp hr hpath => by
    rw [World.lookup_edited, if_neg] at hr
    · exact h.complete p r hp hr hpath
    · rintro rfl
      rw [t.not_receiptFile] at hp
      cases hp
  target := by rw [World.lookup_edited, if_pos rfl]
  fits := h.fits
  log := by
    rw [World.changes_edited]
    exact h.log

theorem Journal.At.edited_other {owner : Option Pid} {t t' : Target store} {J : Journal Bytes}
    (h : J.At owner t' w) (hne : t'.path ≠ t.path) (content : Option Bytes) :
    J.At owner t' (w.edited t.path content) where
  lock := by
    rw [World.locks_edited]
    exact h.lock
  sound := h.sound.edited t content
  wf := h.wf
  held := fun e he => by
    rw [World.lookup_edited, if_neg (t.path_ne_receipt_path _).symm]
    exact h.held e he
  backup := fun e he hw => by
    rw [World.lookup_edited, if_neg (t.path_ne_backup_path _).symm]
    exact h.backup e he hw
  complete := fun p r hp hr hpath => by
    rw [World.lookup_edited, if_neg] at hr
    · exact h.complete p r hp hr hpath
    · rintro rfl
      rw [t.not_receiptFile] at hp
      cases hp
  target := by
    rw [World.lookup_edited, if_neg hne]
    exact h.target
  fits := h.fits
  log := by
    rw [World.changes_edited]
    exact h.log

theorem Quiescent.edited (h : Quiescent store Inv w)
    (hInv : ∀ (J : Journal Bytes) content, Inv J → Inv { J with target := content })
    (t : Target store) (content : Option Bytes) : Quiescent store Inv (w.edited t.path content) := by
  refine ⟨⟨h.everywhere.sound.edited t content, fun t' => ?_⟩, fun t' => ?_⟩
  · rw [World.locks_edited]
    obtain ⟨J, hJ, hat⟩ := h.everywhere.journal t'
    by_cases hpath : t'.path = t.path
    · have htt := Target.eq_of_path hpath
      subst htt
      exact ⟨_, hInv J content hJ, hat.edited content⟩
    · exact ⟨J, hJ, hat.edited_other hpath content⟩
  · rw [World.locks_edited]
    exact h.idle t'

theorem Fresh.quiescent (h : Fresh store w) (hInv : ∀ target, Inv (Journal.start target)) :
    Quiescent store Inv w := by
  refine ⟨⟨h.sound, fun t => ?_⟩, fun t => h.unlocked t.lock⟩
  rw [h.unlocked]
  exact ⟨_, hInv _, h.start t⟩

/-- What every step keeps holds of a fresh journal, and after changes from outside. -/
structure Lasting (Inv : Journal Bytes → Prop) : Prop extends Stable Inv where
  start : ∀ target, Inv (Journal.start target)
  edit : ∀ {J : Journal Bytes} (content : Option Bytes), Inv J → Inv { J with target := content }

theorem lasting_rooted : Lasting (Journal.Rooted : Journal Bytes → Prop) where
  step := fun hJ hstep => hstep.rooted hJ
  logged := fun hJ => hJ.logged
  intact := fun hJ => hJ.sourced.intact
  start := fun _ => ⟨⟨⟨List.nodup_nil, fun _ h => absurd h List.not_mem_nil⟩,
    fun _ h => absurd h List.not_mem_nil, fun _ h => absurd h List.not_mem_nil⟩,
    fun _ h => absurd h List.not_mem_nil, trivial⟩
  edit := fun _ hJ => ⟨⟨⟨hJ.sourced.wf.nodup, hJ.sourced.wf.source⟩, hJ.sourced.intact,
    hJ.sourced.sources⟩, hJ.logged, hJ.older⟩

end recovery

namespace GovernedExecutor

variable {self : GovernedExecutor} {Inv : Journal Bytes → Prop} {p : ProjectId} {i : Pid}
  {w w₀ : World Bytes}

theorem quiescent_call (hS : Stable Inv) (h : Quiescent self.recovery_store Inv w) (c : Call Bytes)
    (fate : Fate) : Quiescent self.recovery_store Inv (c.leaves self p i fate w) := by
  cases c with
  | fs_write relative_path content expected capability extra =>
    have hwp : (self.fs_write p.text relative_path content expected capability extra).wp
        (machine Bytes) i Eq (Move self.recovery_store (fun _ _ J => Inv J) i)
        (fun r w' => Quiescent self.recovery_store Inv w' ∧
          WriteEnds Inv self p i relative_path content expected extra w r w') w :=
      wp_write_ends hS h
    cases fate with
    | completes =>
      rw [Call.leaves, Call.body, run_map_state]
      exact (run_of_wp (fun _ => rfl) hwp).1
    | dies n =>
      rw [Call.leaves, Call.body, cut_map]
      exact h.cut hwp n
  | fs_rollback relative_path expected =>
    have hwp : (self.fs_rollback p.text relative_path expected).wp (machine Bytes) i Eq
        (Move self.recovery_store (fun _ _ J => Inv J) i)
        (fun r w' => Quiescent self.recovery_store Inv w' ∧
          UndoEnds Inv self p i relative_path expected w r w') w := wp_undo_ends hS h
    cases fate with
    | completes =>
      rw [Call.leaves, Call.body, run_map_state]
      exact (run_of_wp (fun _ => rfl) hwp).1
    | dies n =>
      rw [Call.leaves, Call.body, cut_map]
      exact h.cut hwp n
  | recover =>
    have hsound := wp_recover_sound (i := i) hS h
    cases fate with
    | completes =>
      rw [Call.leaves, Call.body, run_map_state]
      refine .of_journals (run_of_wp (fun _ => rfl) hsound) fun t => ?_
      obtain ⟨J, hJ, hat⟩ := h.journal t
      obtain ⟨J', hJ', _, hat', _⟩ :=
        run_of_wp (fun _ => rfl) (wp_recover_decides (i := i) hS h t hJ hat)
      exact ⟨J', hJ', hat'⟩
    | dies n =>
      rw [Call.leaves, Call.body, cut_map]
      exact h.cut hsound n

/-- Whatever has happened so far, the journals keep what lasts. -/
theorem quiescent_run (hL : Lasting Inv) (hfresh : Fresh self.recovery_store w₀)
    (h : Run self w₀ w) : Quiescent self.recovery_store Inv w := by
  induction h with
  | nil => exact hfresh.quiescent hL.start
  | call i p c fate _ ih => exact quiescent_call hL.toStable ih c fate
  | edit t content _ ih => exact ih.edited (fun _ _ => hL.edit _) t content

end GovernedExecutor

end jvc
