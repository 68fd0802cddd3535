import Jvc.Execution.Sections
import Jvc.Recovery.Deciding

open program program.Prog jvc.recovery jvc.policy

namespace jvc

variable {Bytes α : Type} [Text] [Host Bytes] {store : RecoveryStore}
  {Inv : Option Pid → Target store → Journal Bytes → Prop} {i j : Pid} {w w' : World Bytes}

namespace recovery

/-- The host holds a journal of every target, whoever has its lock. -/
structure Everywhere (store : RecoveryStore)
    (Inv : Option Pid → Target store → Journal Bytes → Prop) (w : World Bytes) : Prop where
  sound : store.Sound w
  journal : ∀ t : Target store, ∃ J, Inv (w.locks t.lock) t J ∧ J.At (w.locks t.lock) t w

/-- What the other processes may do to the host of process `i`. -/
structure Others (store : RecoveryStore)
    (Inv : Option Pid → Target store → Journal Bytes → Prop) (i : Pid) (w w' : World Bytes) : Prop extends Later store i w w' where
  view : ∀ (t : Target store) (J : Journal Bytes), J.At (some i) t w → J.At (some i) t w'
  everywhere : Everywhere store Inv w → Everywhere store Inv w'
  dirs : w'.dirs = w.dirs
  locks : ∀ l, w'.locks l = some i ↔ w.locks l = some i
  waits : w'.waited i = w.waited i

/-- The steps of process `i`. -/
inductive Move (store : RecoveryStore)
    (Inv : Option Pid → Target store → Journal Bytes → Prop) (i : Pid) :
    World Bytes → World Bytes → Prop
  | acquire {w : World Bytes} (t : Target store) (hfree : w.locks t.lock = none) :
      Move store Inv i w (w.setLock t.lock (some i))
  | timeout {w : World Bytes} (t : Target store) (hheld : w.locks t.lock ≠ none) :
      Move store Inv i w { w with timeouts := (i, t.lock) :: w.timeouts }
  | touch {w w' : World Bytes} (t : Target store) (h : Guar (some i) i t (Inv (some i) t) w w') :
      Move store Inv i w w'
  | release {w : World Bytes} {J : Journal Bytes} (t : Target store) (hJ : Inv none t J)
      (hat : J.At (some i) t w) :
      Move store Inv i w (w.setLock t.lock none)

end recovery

omit [Text] [Host Bytes] in
theorem World.locks_setLock (w : World Bytes) (l l' : LockName) (o : Option Pid) :
    (w.setLock l o).locks l' = if l' = l then o else w.locks l' := by
  simp only [World.setLock, Function.update_apply]

namespace recovery

theorem RecoveryStore.Sound.setLock (h : store.Sound w) (l : LockName) (o : Option Pid) :
    store.Sound (w.setLock l o) := ⟨h.receipts, h.drawn⟩

/-- A journal does not depend on locks other than its own. -/
theorem Journal.At.setLock {owner : Option Pid} {t : Target store} {J : Journal Bytes}
    (h : J.At owner t w) (l : LockName) (o : Option Pid) :
    J.At (if t.lock = l then o else owner) t (w.setLock l o) where
  lock := by
    rw [World.locks_setLock]
    split
    · rfl
    · exact h.lock
  sound := h.sound.setLock l o
  wf := h.wf
  held := h.held
  backup := h.backup
  complete := h.complete
  target := h.target
  fits := h.fits
  log := h.log

theorem Later.setLock (w : World Bytes) (l : LockName) (o : Option Pid) :
    Later store i w (w.setLock l o) :=
  ⟨fun _ r _ h => ⟨r, h, rfl⟩, fun _ h => h, fun _ h => h,
    fun _ _ _ h => ⟨h.drawn, h.receipt, h.backup⟩, rfl, le_rfl, fun _ _ => rfl⟩

theorem Later.timeout (w : World Bytes) (l : LockName) :
    Later store i w { w with timeouts := (j, l) :: w.timeouts } :=
  ⟨fun _ r _ h => ⟨r, h, rfl⟩, fun _ h => h, fun _ h => h,
    fun _ _ _ h => ⟨h.drawn, h.receipt, h.backup⟩, rfl, le_rfl, fun _ _ => rfl⟩

theorem Journal.At.timeout {owner : Option Pid} {t : Target store} {J : Journal Bytes}
    (h : J.At owner t w) (entry : Pid × LockName) :
    J.At owner t { w with timeouts := entry :: w.timeouts } :=
  ⟨h.lock, ⟨h.sound.receipts, h.sound.drawn⟩, h.wf, h.held, h.backup, h.complete, h.target, h.fits,
    h.log⟩

/-- A lock operation on one target keeps every journal. -/
theorem Everywhere.setLock (h : Everywhere store Inv w) {t : Target store} {J : Journal Bytes}
    {owner o : Option Pid} (hJ : Inv o t J) (hat : J.At owner t w) :
    Everywhere store Inv (w.setLock t.lock o) := by
  refine ⟨h.sound.setLock t.lock o, fun t' => ?_⟩
  by_cases heq : t'.lock = t.lock
  · have htt := Target.lock_inj heq
    subst htt
    have hset := hat.setLock t'.lock o
    rw [if_pos rfl] at hset
    rw [World.locks_setLock, if_pos rfl]
    exact ⟨J, hJ, hset⟩
  · obtain ⟨J', hJ', hat'⟩ := h.journal t'
    have hset := hat'.setLock t.lock o
    rw [if_neg heq] at hset
    rw [World.locks_setLock, if_neg heq]
    exact ⟨J', hJ', hset⟩

section Steps

variable (hacquire : ∀ i t J, Inv none t J → Inv (some i) t J)
include hacquire

/-- Every step of a process keeps a journal of every target. -/
theorem Move.everywhere (h : Move store Inv i w w') (hev : Everywhere store Inv w) :
    Everywhere store Inv w' := by
  cases h with
  | acquire t hfree =>
    obtain ⟨J, hJ, hat⟩ := hev.journal t
    rw [hfree] at hJ hat
    exact hev.setLock (hacquire i t J hJ) hat
  | timeout t =>
    refine ⟨⟨hev.sound.receipts, hev.sound.drawn⟩, fun t' => ?_⟩
    obtain ⟨J, hJ, hat⟩ := hev.journal t'
    exact ⟨J, hJ, hat.timeout _⟩
  | touch t hguar =>
    obtain ⟨htouch, J, hJ, hat⟩ := hguar
    refine ⟨hat.sound, fun t' => ?_⟩
    by_cases hpath : t'.path = t.path
    · have htt := Target.eq_of_path hpath
      subst htt
      have hlock : w'.locks t'.lock = some i := hat.lock
      rw [hlock]
      exact ⟨J, hJ, hat⟩
    · obtain ⟨J', hJ', hat'⟩ := hev.journal t'
      rw [← htouch.locks] at hJ' hat'
      exact ⟨J', hJ', htouch.view_other hpath hat'⟩
  | release t hJ hat => exact hev.setLock hJ hat

end Steps

/-- While the random part of ids does not repeat, the ids a process has drawn
are its own. -/
theorem Touch.reserved_other {t : Target store} (h : Touch j t w w') (hne : i ≠ j)
    (hno : w'.NoRepeat) {front : String} {s : Stamp} {backup : Option Bytes}
    (hres : store.Reserved i front s backup w) : store.Reserved i front s backup w' := by
  have hforeign : ∀ (front' : String) (s' : Stamp) (backup' : Option Bytes),
      store.Reserved j front' s' backup' w → w'.stamps = w.stamps → w'.ticks = w.ticks →
        w'.drawer = w.drawer → front ++ s.text ≠ front' ++ s'.text := by
    intro front' s' backup' hres' hstamps hticks hdrawers heq
    have hs := Stamp.eq_of_append heq
    obtain ⟨n, hn, hstamp, hdrawer⟩ := hres.drawn
    obtain ⟨m, hm, hstamp', hdrawer'⟩ := hres'.drawn
    have hnm := hno n m (by rwa [hticks]) (by rwa [hticks]) (by rw [hdrawers, hdrawer]; rfl)
      (by rw [hdrawers, hdrawer']; rfl) (by rw [hstamps, hstamp, hstamp', hs])
    rw [hnm, hdrawer'] at hdrawer
    exact hne (Option.some.inj hdrawer).symm
  cases h with
  | tick => exact { hres with drawn := hres.drawn.imp fun n hn => ⟨Nat.lt_succ_of_lt hn.1, hn.2⟩ }
  | draw =>
    obtain ⟨n, hn, hstamp, hdrawer⟩ := hres.drawn
    refine ⟨⟨n, Nat.lt_succ_of_lt hn, hstamp, ?_⟩, hres.receipt, hres.backup⟩
    simpa only [Function.update_of_ne hn.ne] using hdrawer
  | rewrite old e hid hold =>
    refine hres.write (fun heq => ?_) (receipt_path_ne_backup_path _ _)
    rw [heq, hres.receipt] at hold
    cases hold
  | record e hid hres' =>
    refine hres.write (fun heq => ?_) (receipt_path_ne_backup_path _ _)
    rw [hid] at heq
    exact hforeign _ _ _ hres' rfl rfl rfl (receipt_path_inj heq).symm
  | save data hres' =>
    refine hres.write (receipt_path_ne_backup_path _ _).symm fun heq => ?_
    exact hforeign _ _ _ hres' rfl rfl rfl (backup_path_inj heq).symm
  | change data id => exact hres.write (t.path_ne_receipt_path _) (t.path_ne_backup_path _)
  | delete =>
    refine ⟨hres.drawn, ?_, ?_⟩
    · rw [World.lookup_remove, if_neg (t.path_ne_receipt_path _).symm, hres.receipt]
    · rw [World.lookup_remove, if_neg (t.path_ne_backup_path _).symm, hres.backup]

theorem Touch.timeouts {t : Target store} (h : Touch j t w w') : w'.timeouts = w.timeouts := by
  cases h <;> rfl

theorem Touch.dirs {t : Target store} (h : Touch j t w w') : w'.dirs = w.dirs := by
  cases h <;> rfl

/-- The steps of one process are what the others have to expect. -/
theorem Move.others (hacquire : ∀ i t J, Inv none t J → Inv (some i) t J)
    (h : Move store Inv j w w') (hne : i ≠ j) (hno : w'.NoRepeat) :
    Others store Inv i w w' := by
  refine { toLater := ?_, view := ?_, everywhere := h.everywhere hacquire, dirs := ?_
           locks := ?_, waits := ?_ }
  · cases h with
    | acquire t => exact .setLock _ _ _
    | timeout t => exact .timeout _ _
    | touch t hguar =>
      exact ⟨hguar.1.grows, hguar.1.receipts, hguar.1.backups,
        fun front s backup => hguar.1.reserved_other hne hno, hguar.1.stamps, hguar.1.ticks,
        hguar.1.drawers⟩
    | release t _ _ => exact .setLock _ _ _
  · intro t' J hat
    cases h with
    | acquire t hfree =>
      have hlock : t'.lock ≠ t.lock := by
        intro heq
        have hown : w.locks t'.lock = some i := hat.lock
        rw [heq, hfree] at hown
        cases hown
      have hset := hat.setLock t.lock (some j)
      rwa [if_neg hlock] at hset
    | timeout t => exact hat.timeout _
    | touch t hguar =>
      obtain ⟨htouch, J', _, hat'⟩ := hguar
      refine htouch.view_other (fun hpath => ?_) hat
      have hown : w.locks t'.lock = some i := hat.lock
      have hown' : w'.locks t.lock = some j := hat'.lock
      rw [htouch.locks, ← Target.eq_of_path hpath, hown] at hown'
      exact hne (Option.some.inj hown')
    | release t _ hheld =>
      have hlock : t'.lock ≠ t.lock := by
        intro heq
        have hown : w.locks t'.lock = some i := hat.lock
        have hheld' : w.locks t.lock = some j := hheld.lock
        rw [heq, hheld'] at hown
        exact hne (Option.some.inj hown).symm
      have hset := hat.setLock t.lock none
      rwa [if_neg hlock] at hset
  · cases h with
    | touch t hguar => exact hguar.1.dirs
    | _ => rfl
  · intro l
    cases h with
    | acquire t hfree =>
      rw [World.locks_setLock]
      split
      · rename_i heq
        rw [heq, hfree]
        simp [Ne.symm hne]
      · rfl
    | timeout t => exact Iff.rfl
    | touch t hguar => rw [hguar.1.locks]
    | release t _ hheld =>
      have hheld' : w.locks t.lock = some j := hheld.lock
      rw [World.locks_setLock]
      split
      · rename_i heq
        rw [heq, hheld']
        simp [Ne.symm hne]
      · rfl
  · cases h with
    | timeout t =>
      have hother : (j == i) = false := by simpa using hne.symm
      simp only [World.waited, List.filter_cons, hother, Bool.false_eq_true, if_false]
    | touch t hguar => simp only [World.waited, hguar.1.timeouts]
    | _ => rfl

theorem Others.refl (w : World Bytes) : Others store Inv i w w :=
  { toLater := .refl w, view := fun _ _ h => h, everywhere := fun h => h, dirs := rfl
    locks := fun _ => Iff.rfl, waits := rfl }

theorem Others.trans {a b c : World Bytes} (hab : Others store Inv i a b)
    (hbc : Others store Inv i b c) : Others store Inv i a c :=
  { toLater := hab.toLater.trans hbc.toLater
    view := fun t J h => hbc.view t J (hab.view t J h)
    everywhere := fun h => hbc.everywhere (hab.everywhere h)
    dirs := hbc.dirs.trans hab.dirs
    locks := fun l => (hbc.locks l).trans (hab.locks l)
    waits := hbc.waits.trans hab.waits }

theorem Others.rely (h : Others store Inv i w w') (t : Target store) :
    Rely (some i) i t w w' := ⟨h.toLater, fun J => h.view t J⟩

variable {t : Target store}

/-- Work on one target, as all others see it. -/
structure Apart (t : Target store) (w w' : World Bytes) : Prop where
  view : ∀ t' : Target store, t'.path ≠ t.path → ∀ owner (J : Journal Bytes),
    J.At owner t' w → J.At owner t' w'
  dirs : w'.dirs = w.dirs

theorem Apart.trans {a b c : World Bytes} (hab : Apart t a b) (hbc : Apart t b c) :
    Apart t a c :=
  ⟨fun t' hne owner J h => hbc.view t' hne owner J (hab.view t' hne owner J h),
    hbc.dirs.trans hab.dirs⟩

theorem Apart.setLock (w : World Bytes) (o : Option Pid) : Apart t w (w.setLock t.lock o) := by
  refine ⟨fun t' hne owner J hat => ?_, rfl⟩
  have hset := hat.setLock t.lock o
  rwa [if_neg fun heq => hne (congrArg Target.path (Target.lock_inj heq))] at hset

section Lock

variable (hacquire : ∀ i t J, Inv none t J → Inv (some i) t J)
include hacquire

variable {body : Jvc Bytes α} {Q : Except Err α → World Bytes → Prop}

/-- A critical section among other processes, of which more may be known than that
they keep the journals: it runs on a journal of the target, or the lock is not granted. -/
theorem wp_with_lock_among {R : World Bytes → World Bytes → Prop} {I : World Bytes → Prop}
    (hR : ∀ a b, R a b → Others store Inv i a b) (hIR : ∀ a b, I a → R a b → I b)
    (hItouch : ∀ a b, I a → Guar (some i) i t (Inv (some i) t) a b → I b)
    (hIfree : ∀ a, I a → I (a.setLock t.lock none)) (hev : Everywhere store Inv w)
    (htimeout : ∀ w₀ err, R w w₀ → err.isLockTimeout = true →
      Everywhere store Inv { w₀ with timeouts := (i, t.lock) :: w₀.timeouts } →
        Q (.error err) { w₀ with timeouts := (i, t.lock) :: w₀.timeouts })
    (hbody : ∀ w₀ J, R w w₀ → Inv none t J → J.At (some i) t (w₀.setLock t.lock (some i)) →
      I (w₀.setLock t.lock (some i)) ∧
        critical (some i) i t (Inv (some i) t) body (fun r w₂ => ∃ J' : Journal Bytes,
          Inv none t J' ∧ J'.At (some i) t w₂ ∧ ∀ w₃, Later store i w₂ w₃ → J'.At none t w₃ →
            Everywhere store Inv w₃ → w₃.waited i = w.waited i → I w₃ → Q r w₃)
          (w₀.setLock t.lock (some i))) :
    wp (machine Bytes) i R (Move store Inv i) (with_lock t.lock body) Q w := by
  refine wp_seq.mpr fun w₁ hw => ?_
  have hw₁ := hR w w₁ hw
  have hev₁ := hw₁.everywhere hev
  by_cases hfree : w₁.locks t.lock = none
  · have hstep : (machine Bytes).step i (.acquire t.lock) w₁ =
        (true, w₁.setLock t.lock (some i)) := if_pos hfree
    rw [hstep]
    refine ⟨.inr (.acquire t hfree), ?_⟩
    obtain ⟨J, hJ, hat⟩ := hev₁.journal t
    rw [hfree] at hJ hat
    have hat₂ := hat.setLock t.lock (some i)
    rw [if_pos rfl] at hat₂
    obtain ⟨hI, hsection⟩ := hbody w₁ J hw hJ hat₂
    have hmono : body.wp (machine Bytes) i R (Guar (some i) i t (Inv (some i) t)) _
        (w₁.setLock t.lock (some i)) :=
      wp_mono (fun a b hab => (hR a b hab).rely t) (fun a b hab => hab) (fun _ _ h => h) hsection
    have hinv := wp_invariant
      (I := fun a => Everywhere store Inv a ∧ a.waited i = w.waited i ∧ I a)
      (fun a b ha hab => ⟨(hR a b hab).everywhere ha.1, (hR a b hab).waits.trans ha.2.1,
        hIR a b ha.2.2 hab⟩)
      (fun a b ha hab => ⟨(Move.touch (i := i) t hab).everywhere hacquire ha.1, by
        rw [← ha.2.1]
        simp only [World.waited, hab.1.timeouts], hItouch a b ha.2.2 hab⟩)
      ⟨hev₁.setLock (hacquire i t J hJ) hat, hw₁.waits, hI⟩ hmono
    have hdone : body.wp (machine Bytes) i R (Move store Inv i) _ (w₁.setLock t.lock (some i)) :=
      wp_mono (fun _ _ => id) (fun a b hab => .touch t hab) (fun _ _ h => h) hinv
    refine wp_seq.mpr (wp_raiseIf.mpr ⟨fun h => (Bool.false_ne_true h).elim, fun _ => ?_⟩)
    refine wp_ensuring.mpr (wp_post hdone ?_)
    rintro r w₂ ⟨⟨J', hJ', hat', hQ⟩, hev₂, hwaits₂, hI₂⟩ w₃ hw'
    have hw₃ := hR w₂ w₃ hw'
    have hat₃ := hw₃.view t J' hat'
    have hev₃ := (hw₃.everywhere hev₂).setLock hJ' hat₃
    have hnone := hat₃.setLock t.lock none
    rw [if_pos rfl] at hnone
    refine ⟨.inr (.release t hJ' hat₃), ?_⟩
    exact hQ _ (hw₃.toLater.trans (.setLock _ _ _)) hnone hev₃ (hw₃.waits.trans hwaits₂)
      (hIfree _ (hIR w₂ w₃ hI₂ hw'))
  · have hstep : (machine Bytes).step i (.acquire t.lock) w₁ =
        (false, { w₁ with timeouts := (i, t.lock) :: w₁.timeouts }) := if_neg hfree
    rw [hstep]
    refine ⟨.inr (.timeout t hfree), ?_⟩
    refine wp_seq.mpr (wp_raiseIf.mpr ⟨fun _ => ?_, fun h => (Bool.false_ne_true h.symm).elim⟩)
    exact htimeout w₁ _ hw rfl ((Move.timeout t hfree).everywhere hacquire hev₁)

/-- A critical section among other processes: it runs on a journal of the
target, or the lock is not granted. -/
theorem wp_with_lock (hev : Everywhere store Inv w)
    (htimeout : ∀ w' err, Later store i w w' → Everywhere store Inv w' →
      w'.waited i = t.lock :: w.waited i → err.isLockTimeout = true → Q (.error err) w')
    (hbody : ∀ w₁ J, Later store i w w₁ → Inv none t J → J.At (some i) t w₁ →
      critical (some i) i t (Inv (some i) t) body (fun r w₂ => ∃ J' : Journal Bytes,
        Inv none t J' ∧ J'.At (some i) t w₂ ∧ ∀ w₃, Later store i w₂ w₃ → J'.At none t w₃ →
          Everywhere store Inv w₃ → w₃.waited i = w.waited i → Q r w₃) w₁) :
    wp (machine Bytes) i (Others store Inv i) (Move store Inv i) (with_lock t.lock body) Q w := by
  refine wp_with_lock_among hacquire (I := fun _ => True) (fun _ _ h => h) (fun _ _ _ _ => trivial)
    (fun _ _ _ _ => trivial) (fun _ _ => trivial) hev (fun w₀ err hw₀ herr hev₀ => ?_)
    fun w₀ J hw₀ hJ hat => ⟨trivial, ?_⟩
  · refine htimeout _ err (hw₀.toLater.trans (.timeout _ _)) hev₀ ?_ herr
    have hown : (i == i) = true := beq_self_eq_true i
    rw [← hw₀.waits]
    simp only [World.waited, List.filter_cons, hown, if_true, List.map_cons]
  · refine wp_post (hbody _ J (hw₀.toLater.trans (.setLock _ _ _)) hJ hat) ?_
    rintro r w₂ ⟨J', hJ', hat', hQ⟩
    exact ⟨J', hJ', hat', fun w₃ hw₃ hat₃ hev₃ hwaits _ => hQ w₃ hw₃ hat₃ hev₃ hwaits⟩

/-- A critical section of a process that runs alone. -/
theorem wp_with_lock_alone {J : Journal Bytes} (hev : Everywhere store Inv w)
    (hat : J.At none t w) (hJ : Inv none t J)
    (hbody : ∀ w₁, Later store i w w₁ → J.At (some i) t w₁ →
      critical (some i) i t (Inv (some i) t) body (fun r w₂ => ∃ J' : Journal Bytes,
        Inv none t J' ∧ J'.At (some i) t w₂ ∧ ∀ w₃, Later store i w₂ w₃ → J'.At none t w₃ → Everywhere store Inv w₃ →
          Apart t w w₃ → Q r w₃) w₁) :
    wp (machine Bytes) i Eq (Move store Inv i) (with_lock t.lock body) Q w := by
  refine wp_seq.mpr fun w₁ hw₁ => ?_
  subst hw₁
  have hfree : w.locks t.lock = none := hat.lock
  have hstep : (machine Bytes).step i (.acquire t.lock) w =
      (true, w.setLock t.lock (some i)) := if_pos hfree
  rw [hstep]
  refine ⟨.inr (.acquire t hfree), ?_⟩
  have hat₂ := hat.setLock t.lock (some i)
  rw [if_pos rfl] at hat₂
  have hmono : body.wp (machine Bytes) i Eq (Guar (some i) i t (Inv (some i) t)) _
      (w.setLock t.lock (some i)) :=
    wp_mono (fun a b hab => by subst hab; exact Rely.refl a) (fun a b hab => hab) (fun _ _ h => h)
      (hbody _ (.setLock _ _ _) hat₂)
  have hinv := wp_invariant (I := fun a => Everywhere store Inv a ∧ Apart t w a)
    (fun a b ha hab => by subst hab; exact ha)
    (fun a b ha hab => ⟨(Move.touch (i := i) t hab).everywhere hacquire ha.1, ha.2.trans
      ⟨fun t' hne owner J => hab.1.view_other hne, hab.1.dirs⟩⟩)
    ⟨hev.setLock (hacquire i t J hJ) hat, .setLock w (some i)⟩ hmono
  have hdone : body.wp (machine Bytes) i Eq (Move store Inv i) _ (w.setLock t.lock (some i)) :=
    wp_mono (fun _ _ => id) (fun a b hab => .touch t hab) (fun _ _ h => h) hinv
  refine wp_seq.mpr (wp_raiseIf.mpr ⟨fun h => (Bool.false_ne_true h).elim, fun _ => ?_⟩)
  refine wp_ensuring.mpr (wp_post hdone ?_)
  rintro r w₂ ⟨⟨J', hJ', hat', hQ⟩, hev₂, hapart⟩ w₃ hw₃
  subst hw₃
  have hnone := hat'.setLock t.lock none
  rw [if_pos rfl] at hnone
  refine ⟨.inr (.release t hJ' hat'), ?_⟩
  exact hQ _ (.setLock _ _ _) hnone (hev₂.setLock hJ' hat') (hapart.trans (.setLock _ none))

end Lock

end recovery

end jvc
