import Jvc.Execution.Locking

open program program.Prog

namespace jvc.recovery

variable {Bytes : Type} [Text] [Host Bytes] {store : RecoveryStore}
  {Inv : Option Pid → Target store → Journal Bytes → Prop} {i : Pid} {p : Path}
  {w w' : World Bytes}

section Unlocked

variable {R G : World Bytes → World Bytes → Prop}

/-- Reading a file of the journal without its lock. -/
theorem wp_read_json_known {Q : Except Err Document → World Bytes → Prop}
    (hgrows : ∀ a b, R a b → store.Grows a b) (hp : Known store p w)
    (h : ∀ w' (r : Receipt), R w w' → w'.lookup p = some (Host.dumps r.dict) →
      Q (.ok (.obj r.dict)) w') :
    (read_json p).wp (machine Bytes) i R G Q w := by
  obtain ⟨hfile, r, hr⟩ := hp
  refine wp_seq.mpr (wp_read_bytes (fun w' data hw hdata => ?_) fun w' e hw hnone _ => ?_)
  · obtain ⟨r', hr', _⟩ := hgrows _ _ hw p r hfile hr
    rw [hr'] at hdata
    cases hdata
    simp only [onResult_ok, wp_ofExcept, Host.loads_dumps]
    exact h w' r' hw hr'
  · obtain ⟨r', hr', _⟩ := hgrows _ _ hw p r hfile hr
    rw [hr'] at hnone
    cases hnone

/-- Checking a backup without the lock, whatever comes out. -/
theorem wp_backup_ok {r : Receipt} {Q : Except Err Bool → World Bytes → Prop} (hrefl : R w w)
    (htrans : ∀ a b c, R a b → R b c → R a c) (h : ∀ w' b, R w w' → Q (.ok b) w') :
    (RecoveryStore.backup_ok r).wp (machine Bytes) i R G Q w := by
  unfold RecoveryStore.backup_ok
  simp only
  split
  · exact h w _ hrefl
  · split
    · exact h w _ hrefl
    · refine wp_seq.mpr (wp_attempt.mpr (wp_seq.mpr (wp_stat (fun w₁ hw₁ => ?_)
        fun w₁ hw₁ _ _ => ⟨fun _ => h w₁ _ hw₁, fun hno => by cases hno⟩)))
      simp only [onResult_ok]
      split
      · refine wp_seq.mpr (wp_sha256_file (fun w₂ data hw₂ _ => ?_) fun w₂ err hw₂ _ herr => ?_)
        · exact h w₂ _ (htrans _ _ _ hw₁ hw₂)
        · refine ⟨fun _ => h w₂ _ (htrans _ _ _ hw₁ hw₂), fun hno => ?_⟩
          rw [herr] at hno
          cases hno
      · exact h w₁ _ hw₁

/-- Only the receipts that may still change are decided under their lock. -/
theorem wp_recover_valid {t : Target store} {e : Entry Bytes} {s : Summary}
    {lock_for : Option (Path → LockName)} {Q : Except Err Summary → World Bytes → Prop}
    (hrefl : R w w) (htrans : ∀ a b c, R a b → R b c → R a c)
    (hdone : ∀ w' seen outcome, R w w' → e.tx_state.incomplete = false →
      (e.tx_state = .VERIFIED → e.kind.isWrite = true) →
        Q (.ok (RecoveryStore.Summary.add { s with seen_backup_ids := seen } e.receipt_id
          outcome)) w')
    (hunder : ∀ w' seen, R w w' →
      wp (machine Bytes) i R G (store.decide_under lock_for (store.receipt_path e.receipt_id)
        (e.receipt t) { s with seen_backup_ids := seen }) Q w') :
    wp (machine Bytes) i R G
      (store.recover_valid lock_for (store.receipt_path e.receipt_id) (e.receipt t) s) Q w := by
  simp only [RecoveryStore.recover_valid, Entry.receipt_tx_state]
  cases hs : e.tx_state with
  | PREPARED | APPLIED => exact hunder w _ hrefl
  | VERIFIED =>
    cases hk : e.kind with
    | write prev pre post backup =>
      have hop : ((e.receipt t).original_operation == .FS_WRITE) = true := by
        simp [hk, Kind.operation]
      simp only [hop, if_true]
      refine wp_seq.mpr (wp_backup_ok hrefl htrans fun w' b hw => ?_)
      cases b with
      | true =>
        exact hdone w' _ .verified hw (by rw [hs]; rfl) fun _ => by rw [hk]; rfl
      | false => exact hunder w' _ hw
    | rollback source expected restored =>
      have hop : ((e.receipt t).original_operation == .FS_WRITE) = false := by
        simp [hk, Kind.operation]
      simp only [hop, Bool.false_eq_true, if_false]
      exact hunder w _ hrefl
  | RECOVERED_UNAPPLIED | ROLLED_BACK | SUPERSEDED =>
    exact hdone w _ .recovered hrefl (by rw [hs]; rfl) fun h => by rw [hs] at h; cases h
  | RECOVERY_REQUIRED =>
    exact hdone w _ .required hrefl (by rw [hs]; rfl) fun h => by rw [hs] at h; cases h

/-- One file of the scan, with the receipt it shows. -/
theorem wp_recover_file {s : Summary} {lock_for : Option (Path → LockName)}
    {Q : Except Err Summary → World Bytes → Prop} (hgrows : ∀ a b, R a b → store.Grows a b)
    (hsound : ∀ w', R w w' → store.Sound w') (hp : Known store p w)
    (h : ∀ w' (t : Target store) (e : Entry Bytes), R w w' → p = store.receipt_path e.receipt_id →
      w'.lookup p = some (Host.dumps (e.receipt t).dict) →
        wp (machine Bytes) i R G (store.recover_valid lock_for p (e.receipt t) s) Q w') :
    wp (machine Bytes) i R G (store.recover_file lock_for p s) Q w := by
  refine wp_seq.mpr (wp_attempt.mpr (wp_read_json_known hgrows hp fun w₁ r hw₁ hr => ?_))
  obtain ⟨t, e, hfile, hdata⟩ := (hsound w₁ hw₁).receipts p _ hp.1 hr
  have hre := dumps_inj hdata
  subst hre
  simp only [onResult_ok, validate_receipt_dict]
  exact h w₁ t e hw₁ hfile hr

omit [Text] [Host Bytes] in
theorem wp_find_orphan_backups {seen : List String}
    {Q : Except Err (List String) → World Bytes → Prop} (h : ∀ w' l, R w w' → Q (.ok l) w') :
    wp (machine Bytes) i R G (store.find_orphan_backups seen) Q w :=
  wp_seq.mpr (wp_glob fun w' hw => h w' _ hw)

end Unlocked

/-- The scan of `recover()` over the journal's files: each receipt gets one
decision, or is deferred with the lock that was not granted. -/
inductive Scanned (store : RecoveryStore) :
    List Path → Summary → List (String × Target store) → Summary → Prop
  | nil (s : Summary) : Scanned store [] s [] s
  | decided {s s' : Summary} {files : List Path} {l : List (String × Target store)} {id : String}
      (outcome : Outcome) (seen : List String)
      (h : Scanned store files
        (RecoveryStore.Summary.add { s with seen_backup_ids := seen } id outcome) l s') :
      Scanned store (store.receipt_path id :: files) s l s'
  | deferred {s s' : Summary} {files : List Path} {l : List (String × Target store)} {id : String}
      (t : Target store) (seen : List String)
      (h : Scanned store files
        { s with seen_backup_ids := seen, deferred := s.deferred ++ [id] } l s') :
      Scanned store (store.receipt_path id :: files) s ((id, t) :: l) s'

namespace Scanned

variable {files : List Path} {s s' : Summary} {l : List (String × Target store)}

omit [Text] [Host Bytes] in
theorem deferred_eq (h : Scanned store files s l s') :
    s'.deferred = s.deferred ++ l.map Prod.fst := by
  induction h with
  | nil s => simp
  | decided outcome seen _ ih =>
    rw [ih]
    cases outcome <;> rfl
  | deferred t seen _ ih => simp [ih]

end Scanned

/-- A receipt of the store that belongs to a target. -/
def Belongs (store : RecoveryStore) (w : World Bytes) (x : String × Target store) : Prop :=
  store.isReceiptFile (store.receipt_path x.1) = true ∧
    ∃ r : Receipt, w.lookup (store.receipt_path x.1) = some (Host.dumps r.dict) ∧
      r.path = x.2.path

theorem Belongs.later {x : String × Target store} (h : Belongs store w x)
    (hw : Later store i w w') : Belongs store w' x := by
  obtain ⟨hfile, r, hr, hpath⟩ := h
  obtain ⟨r', hr', hpath'⟩ := hw.grows _ r hfile hr
  exact ⟨hfile, r', hr', hpath'.trans hpath⟩

section Among

variable (hacquire : ∀ i t J, Inv none t J → Inv (some i) t J)
  (hsettle : ∀ (t : Target store) J J', Inv none t J → Step i t.path .settle J J' → Inv none t J')
  (haudit : ∀ (t : Target store) J J', Inv none t J → Step i t.path .audit J J' → Inv none t J')
include hacquire hsettle haudit

/-- Deciding a receipt under its lock, or deferring it, among other processes. -/
theorem wp_decide_under {t : Target store} {e : Entry Bytes} {s : Summary}
    {Q : Except Err Summary → World Bytes → Prop} (hev : Everywhere store Inv w)
    (hp : Belongs store w (e.receipt_id, t))
    (hok : ∀ w' outcome, Later store i w w' → Everywhere store Inv w' →
      w'.waited i = w.waited i → Q (.ok (RecoveryStore.Summary.add s e.receipt_id outcome)) w')
    (hdefer : ∀ w', Later store i w w' → Everywhere store Inv w' →
      w'.waited i = t.lock :: w.waited i →
        Q (.ok { s with deferred := s.deferred ++ [e.receipt_id] }) w') :
    wp (machine Bytes) i (Others store Inv i) (Move store Inv i)
      (store.decide_under (some GovernedExecutor.target_lock) (store.receipt_path e.receipt_id)
        (e.receipt t) s) Q w := by
  refine wp_seq.mpr (wp_attempt.mpr ?_)
  refine wp_with_lock (t := t) hacquire hev (fun w₁ err hw₁ hev₁ hwaits herr => ?_)
    fun w₁ J hw₁ hJ hat => ?_
  · refine ⟨fun _ => hdefer w₁ hw₁ hev₁ hwaits, fun hno => ?_⟩
    rw [herr] at hno
    cases hno
  · obtain ⟨_, r, hr, hpath⟩ := hp.later hw₁
    obtain ⟨x, hx, hfile, _⟩ := hat.receipt_of e.isReceiptFile hr hpath
    rw [hfile]
    refine critical_mono (hacquire i t) (critical_decide_locked (hsettle t) (haudit t) hat hJ hx
      fun w₂ outcome hw₂ hat₂ => ?_)
    have hJ₂ : Inv none t (J.decide x) :=
      (Journal.decide_recovering hx).preserves (hsettle t) (haudit t) hJ
    refine ⟨J.decide x, hJ₂, hat₂, fun w₃ hw₃ _ hev₃ hwaits => ?_⟩
    exact hok w₃ outcome ((hw₁.trans hw₂).trans hw₃) hev₃ hwaits

/-- The scan, among other processes. -/
theorem wp_recover_scan {files : List Path} {s : Summary}
    {Q : Except Err Summary → World Bytes → Prop} (hev : Everywhere store Inv w)
    (hfiles : ∀ p ∈ files, Known store p w)
    (h : ∀ w' s' l, Later store i w w' → Everywhere store Inv w' → Scanned store files s l s' →
      w'.waited i = (l.map fun x => x.2.lock).reverse ++ w.waited i →
        (∀ x ∈ l, Belongs store w' x) → Q (.ok s') w') :
    wp (machine Bytes) i (Others store Inv i) (Move store Inv i)
      (store.recover_scan (some GovernedExecutor.target_lock) files s) Q w := by
  induction files generalizing w s with
  | nil => exact h w s [] (.refl w) hev (.nil s) rfl fun x hx => absurd hx List.not_mem_nil
  | cons p rest ih =>
    have hp := hfiles p List.mem_cons_self
    refine wp_seq.mpr (wp_recover_file (fun _ _ hab => hab.grows)
      (fun w' hw => (hw.everywhere hev).sound) hp fun w₁ t e hw₁ hfile hdata => ?_)
    subst hfile
    have hev₁ := hw₁.everywhere hev
    have hbelongs : Belongs store w₁ (e.receipt_id, t) :=
      ⟨e.isReceiptFile, e.receipt t, hdata, rfl⟩
    have hnext : ∀ w₂ s₂ l₂, Later store i w₁ w₂ → Everywhere store Inv w₂ →
        w₂.waited i = (l₂.map fun x => Target.lock x.2).reverse ++ w₁.waited i →
          (∀ x ∈ l₂, x = (e.receipt_id, t)) →
            (∀ l s', Scanned store rest s₂ l s' →
              Scanned store (store.receipt_path e.receipt_id :: rest) s (l₂ ++ l) s') →
                wp (machine Bytes) i (Others store Inv i) (Move store Inv i)
                  (store.recover_scan (some GovernedExecutor.target_lock) rest s₂) Q w₂ := by
      intro w₂ s₂ l₂ hw₂ hev₂ hwaits₂ hown hscan
      refine ih hev₂ (fun q hq => (hfiles q (List.mem_cons_of_mem _ hq)).later
        (hw₁.toLater.trans hw₂)) fun w₃ s₃ l hw₃ hev₃ hrest hwaits₃ hall => ?_
      refine h w₃ s₃ (l₂ ++ l) ((hw₁.toLater.trans hw₂).trans hw₃) hev₃ (hscan l s₃ hrest) ?_ ?_
      · rw [hwaits₃, hwaits₂, hw₁.waits]
        simp
      · intro x hx
        rcases List.mem_append.mp hx with hx | hx
        · rw [hown x hx]
          exact hbelongs.later (hw₂.trans hw₃)
        · exact hall x hx
    refine wp_recover_valid (.refl w₁) (fun _ _ _ => Others.trans)
      (fun w₂ seen outcome hw₂ _ _ => ?_) fun w₂ seen hw₂ => ?_
    · exact hnext w₂ _ [] hw₂.toLater (hw₂.everywhere hev₁) hw₂.waits
        (fun x hx => absurd hx List.not_mem_nil) fun l s' hl => .decided outcome seen hl
    · refine wp_decide_under hacquire hsettle haudit (hw₂.everywhere hev₁)
        (hbelongs.later hw₂.toLater) (fun w₃ outcome hw₃ hev₃ hwaits => ?_)
        fun w₃ hw₃ hev₃ hwaits => ?_
      · exact hnext w₃ _ [] (hw₂.toLater.trans hw₃) hev₃ (hwaits.trans hw₂.waits)
          (fun x hx => absurd hx List.not_mem_nil) fun l s' hl => .decided outcome seen hl
      · refine hnext w₃ _ [(e.receipt_id, t)] (hw₂.toLater.trans hw₃) hev₃ ?_
          (fun x hx => List.mem_singleton.mp hx) fun l s' hl => .deferred t seen hl
        rw [hwaits, hw₂.waits]
        rfl

/-- `recover()` among other processes. -/
theorem wp_recover {Q : Except Err Summary → World Bytes → Prop} (hev : Everywhere store Inv w)
    (h : ∀ w' files s l, Later store i w w' → Everywhere store Inv w' → files.Nodup →
      Scanned store files {} l s → w'.waited i = (l.map fun x => x.2.lock).reverse ++ w.waited i →
        (∀ x ∈ l, Belongs store w' x) → ∀ orphans, Q (.ok { s with orphans }) w') :
    wp (machine Bytes) i (Others store Inv i) (Move store Inv i)
      (store.recover (some GovernedExecutor.target_lock)) Q w := by
  refine wp_seq.mpr (wp_seq.mpr (wp_glob fun w₁ hw₁ => wp_seq.mpr (wp_glob fun w₂ hw₂ => ?_)))
  have hev₁ := hw₁.everywhere hev
  have hev₂ := hw₂.everywhere hev₁
  refine wp_seq.mpr (wp_recover_scan hacquire hsettle haudit hev₂ (fun p hp => ?_)
    fun w₃ s l hw₃ hev₃ hscan hwaits hall => ?_)
  · rcases List.mem_append.mp hp with hp | hp
    · obtain ⟨hmatch, hsome⟩ := World.mem_globbed.mp hp
      exact (Known.of_sound hev₁.sound (Bool.or_eq_true_iff.mpr (.inl hmatch)) hsome).later
        hw₂.toLater
    · obtain ⟨hmatch, hsome⟩ := World.mem_globbed.mp hp
      exact .of_sound hev₂.sound (Bool.or_eq_true_iff.mpr (.inr hmatch)) hsome
  · refine wp_seq.mpr (wp_find_orphan_backups fun w₄ orphans hw₄ => ?_)
    refine h w₄ _ s l ((hw₁.toLater.trans hw₂.toLater).trans (hw₃.trans hw₄.toLater))
      (hw₄.everywhere hev₃) (listing_nodup w₁ w₂) hscan ?_ (fun x hx => (hall x hx).later hw₄.toLater)
      orphans
    rw [hw₄.waits, hwaits, hw₂.waits, hw₁.waits]

end Among

/-- No target is locked. -/
def Idle (store : RecoveryStore) (w : World Bytes) : Prop :=
  ∀ t : Target store, w.locks t.lock = none

theorem Everywhere.journal_of_idle (h : Everywhere store Inv w) (hidle : Idle store w)
    (t : Target store) : ∃ J, Inv none t J ∧ J.At none t w := by
  obtain ⟨J, hJ, hat⟩ := h.journal t
  rw [hidle t] at hJ hat
  exact ⟨J, hJ, hat⟩

/-- Work on one target ends with no target locked. -/
theorem Apart.idle {t : Target store} (h : Apart t w w') (hev : Everywhere store Inv w)
    (hidle : Idle store w) (hfree : w'.locks t.lock = none) : Idle store w' := by
  intro t'
  by_cases hpath : t'.path = t.path
  · rw [Target.eq_of_path hpath]
    exact hfree
  · obtain ⟨J, _, hat⟩ := hev.journal_of_idle hidle t'
    exact (h.view t' hpath none J hat).lock

/-- What `recover()` has made of the journal of a target, when it has looked at
the given files. -/
structure Restarted (store : RecoveryStore)
    (Inv : Option Pid → Target store → Journal Bytes → Prop) (i : Pid) (t : Target store)
    (files : List Path) (w w' : World Bytes) (J J' : Journal Bytes) : Prop where
  later : Later store i w w'
  everywhere : Everywhere store Inv w'
  idle : Idle store w'
  dirs : w'.dirs = w.dirs
  recovering : Recovering i t.path J J'
  inv : Inv none t J'
  view : J'.At none t w'
  decided : ∀ x ∈ J'.entries, store.receipt_path x.receipt_id ∈ files → x.Decided J'

section Alone

variable (hacquire : ∀ i t J, Inv none t J → Inv (some i) t J)
  (hsettle : ∀ (t : Target store) J J', Inv none t J → Step i t.path .settle J J' → Inv none t J')
  (haudit : ∀ (t : Target store) J J', Inv none t J → Step i t.path .audit J J' → Inv none t J')
include hacquire hsettle haudit

/-- Deciding a receipt under its lock, when no other process is there. -/
theorem wp_decide_under_alone {t t' : Target store} {J : Journal Bytes} {e : Entry Bytes}
    {s : Summary} {Q : Except Err Summary → World Bytes → Prop} (hev : Everywhere store Inv w)
    (hidle : Idle store w) (hat : J.At none t w) (hJ : Inv none t J)
    (hp : w.lookup (store.receipt_path e.receipt_id) = some (Host.dumps (e.receipt t').dict))
    (h : ∀ w' outcome J', Restarted store Inv i t [store.receipt_path e.receipt_id] w w' J J' →
      Q (.ok (RecoveryStore.Summary.add s e.receipt_id outcome)) w') :
    wp (machine Bytes) i Eq (Move store Inv i)
      (store.decide_under (some GovernedExecutor.target_lock) (store.receipt_path e.receipt_id)
        (e.receipt t') s) Q w := by
  obtain ⟨K, hK, hatK, hsame⟩ : ∃ K, Inv none t' K ∧ K.At none t' w ∧ (t' = t → K = J) := by
    by_cases htt : t' = t
    · subst htt
      exact ⟨J, hJ, hat, fun _ => rfl⟩
    · obtain ⟨K, hK, hatK⟩ := hev.journal_of_idle hidle t'
      exact ⟨K, hK, hatK, fun heq => absurd heq htt⟩
  obtain ⟨x, hx, hfile, _⟩ := hatK.receipt_of e.isReceiptFile hp rfl
  refine wp_seq.mpr (wp_attempt.mpr (wp_with_lock_alone (t := t') hacquire hev hatK hK
    fun w₁ hw₁ hat₁ => ?_))
  rw [hfile]
  have hrec : Recovering i t'.path K (K.decide x) := Journal.decide_recovering hx
  have hK' : Inv none t' (K.decide x) := hrec.preserves (hsettle t') (haudit t') hK
  refine critical_mono (hacquire i t') (critical_decide_locked (hsettle t') (haudit t') hat₁ hK hx
    fun w₂ outcome hw₂ hat₂ => ?_)
  refine ⟨K.decide x, hK', hat₂, fun w₃ hw₃ hat₃ hev₃ hapart => ?_⟩
  have hlater : Later store i w w₃ := (hw₁.trans hw₂).trans hw₃
  have hidle₃ : Idle store w₃ := hapart.idle hev hidle hat₃.lock
  by_cases hpath : t'.path = t.path
  · have htt := Target.eq_of_path hpath
    subst htt
    have hKJ := hsame rfl
    subst hKJ
    refine h w₃ outcome _ ⟨hlater, hev₃, hidle₃, hapart.dirs, hrec, hK', hat₃, fun y hy hfile' => ?_⟩
    rw [List.mem_singleton, hfile] at hfile'
    exact Journal.decide_decided hatK.wf hx hy (receipt_path_inj hfile')
  · have hat' := hapart.view t (fun heq => hpath heq.symm) none J hat
    refine h w₃ outcome J ⟨hlater, hev₃, hidle₃, hapart.dirs, .refl, hJ, hat', fun y hy hfile' => ?_⟩
    rw [List.mem_singleton] at hfile'
    have hheld := hat.held y hy
    rw [hfile', hp] at hheld
    exact absurd (congrArg Receipt.path (dumps_inj (Option.some.inj hheld))) hpath

/-- The scan, when no other process is there. -/
theorem wp_recover_scan_alone {t : Target store} {J : Journal Bytes} {files : List Path}
    {s : Summary} {Q : Except Err Summary → World Bytes → Prop} (hev : Everywhere store Inv w)
    (hidle : Idle store w) (hat : J.At none t w) (hJ : Inv none t J)
    (hfiles : ∀ p ∈ files, Known store p w)
    (h : ∀ w' s' J', Restarted store Inv i t files w w' J J' → Q (.ok s') w') :
    wp (machine Bytes) i Eq (Move store Inv i)
      (store.recover_scan (some GovernedExecutor.target_lock) files s) Q w := by
  induction files generalizing w s J with
  | nil =>
    exact h w s J ⟨.refl w, hev, hidle, rfl, .refl, hJ, hat, fun x _ hx => absurd hx List.not_mem_nil⟩
  | cons p rest ih =>
    have hp := hfiles p List.mem_cons_self
    refine wp_seq.mpr (wp_recover_file (fun a b hab => by subst hab; exact .refl a)
      (fun w' hw => by subst hw; exact hev.sound) hp fun w₁ t' e hw₁ hfile hdata => ?_)
    subst hw₁ hfile
    have hnext : ∀ w₂ s₂ J₂, Restarted store Inv i t [store.receipt_path e.receipt_id] w w₂ J J₂ →
        wp (machine Bytes) i Eq (Move store Inv i)
          (store.recover_scan (some GovernedExecutor.target_lock) rest s₂) Q w₂ := by
      intro w₂ s₂ J₂ h₂
      refine ih h₂.everywhere h₂.idle h₂.view h₂.inv
        (fun q hq => (hfiles q (List.mem_cons_of_mem _ hq)).later h₂.later) fun w₃ s₃ J₃ h₃ => ?_
      refine h w₃ s₃ J₃ ⟨h₂.later.trans h₃.later, h₃.everywhere, h₃.idle, h₃.dirs.trans h₂.dirs,
        h₂.recovering.trans h₃.recovering, h₃.inv, h₃.view, fun x hx hfile => ?_⟩
      rcases List.mem_cons.mp hfile with hown | hfile
      · obtain ⟨y, hy, s', rfl, _⟩ := h₃.recovering.entry h₂.view.wf hx
        exact (h₂.decided y hy (List.mem_singleton.mpr hown)).recovering h₃.recovering h₂.view.wf
          hy hx rfl
      · exact h₃.decided x hx hfile
    refine wp_recover_valid rfl (fun _ _ _ => Eq.trans)
      (fun w₂ seen outcome hw₂ hcomplete hwrite => ?_) fun w₂ seen hw₂ => ?_
    · subst hw₂
      refine hnext w _ J ⟨.refl w, hev, hidle, rfl, .refl, hJ, hat, fun x hx hfile => ?_⟩
      rw [List.mem_singleton] at hfile
      have hheld := hat.held x hx
      rw [hfile, hdata] at hheld
      have hxe := dumps_inj (Option.some.inj hheld)
      have hstate : e.tx_state = x.tx_state := congrArg Receipt.tx_state hxe
      have hop : e.kind.operation = x.kind.operation := congrArg Receipt.original_operation hxe
      refine ⟨by rw [← hstate, hcomplete], fun id hsource hv => ?_⟩
      have hw := hwrite (by rw [hstate, hv])
      cases hk : x.kind with
      | write =>
        rw [hk] at hsource
        cases hsource
      | rollback =>
        rw [hk] at hop
        cases hke : e.kind with
        | write =>
          rw [hke] at hop
          cases hop
        | rollback =>
          rw [hke] at hw
          cases hw
    · subst hw₂
      exact wp_decide_under_alone hacquire hsettle haudit hev hidle hat hJ hdata
        fun w₃ outcome J₃ h₃ => hnext w₃ _ J₃ h₃

/-- `recover()`, when no other process is there, decides every receipt. -/
theorem wp_recover_alone {t : Target store} {J : Journal Bytes}
    {Q : Except Err Summary → World Bytes → Prop} (hev : Everywhere store Inv w)
    (hidle : Idle store w) (hat : J.At none t w) (hJ : Inv none t J)
    (h : ∀ w' s files J', Restarted store Inv i t files w w' J J' →
      (∀ x ∈ J'.entries, x.Decided J') → Q (.ok s) w') :
    wp (machine Bytes) i Eq (Move store Inv i)
      (store.recover (some GovernedExecutor.target_lock)) Q w := by
  refine wp_seq.mpr (wp_seq.mpr (wp_glob fun w₁ hw₁ => wp_seq.mpr (wp_glob fun w₂ hw₂ => ?_)))
  subst hw₁ hw₂
  have hlisted := hat.listed hat (.refl (i := i) w)
  refine wp_seq.mpr (wp_recover_scan_alone hacquire hsettle haudit hev hidle hat hJ hlisted.known
    fun w₃ s J₃ h₃ => wp_seq.mpr (wp_find_orphan_backups fun w₄ orphans hw₄ => ?_))
  subst hw₄
  refine h w₃ _ _ J₃ h₃ fun x hx => h₃.decided x hx ?_
  obtain ⟨y, hy, s', rfl, _⟩ := h₃.recovering.entry hat.wf hx
  exact hlisted.covers y hy

end Alone

end jvc.recovery
