import Jvc.Execution.Reversible
import Jvc.Lib.Interleaving
import Jvc.Recovery.Calm

open program program.Prog jvc.recovery jvc.policy

namespace jvc

variable {Bytes α : Type} [Text] [Host Bytes] {i j : Pid} {w w' : World Bytes}

namespace recovery

variable {store : RecoveryStore} {t : Target store}

/-- The journal of a target while calls run side by side, from the host `first` on. -/
def Flow (store : RecoveryStore) (first : World Bytes) :
    Option Pid → Target store → Journal Bytes → Prop
  | none, t, J => J.Calm (first.lookup t.path)
  | some i, t, J => J.Busy (first.lookup t.path) i

theorem flow_acquire (first : World Bytes) (i : Pid) (t : Target store) (J : Journal Bytes)
    (h : Flow store first none t J) : Flow store first (some i) t J := Journal.Calm.busy h i

/-- A file that the store keeps for a receipt. -/
def RecoveryStore.Keeps (store : RecoveryStore) (p : Path) : Prop :=
  ∃ id, p = store.receipt_path id ∨ p = store.backup_path id

omit [Text] [Host Bytes] in
theorem Target.not_kept (t : Target store) : ¬ store.Keeps t.path := by
  rintro ⟨id, h | h⟩
  · exact t.path_ne_receipt_path id h
  · exact t.path_ne_backup_path id h

/-- What the process has changed is in the store. -/
def StoreOnly (store : RecoveryStore) (i : Pid) (w : World Bytes) : Prop :=
  ∀ c ∈ w.changes, c.by_process = i → store.Keeps c.path

/-- Work under the lock of a target adds changes of the target and in the store. -/
theorem Touch.changes (h : Touch i t w w') : ∃ new, w'.changes = new ++ w.changes ∧
    ∀ c ∈ new, c.by_process = i ∧ (c.path = t.path ∨ store.Keeps c.path) := by
  have hone : ∀ (c : Change Bytes), c.by_process = i → (c.path = t.path ∨ store.Keeps c.path) →
      w'.changes = c :: w.changes → ∃ new, w'.changes = new ++ w.changes ∧
        ∀ c ∈ new, c.by_process = i ∧ (c.path = t.path ∨ store.Keeps c.path) := by
    intro c hi hpath hchanges
    refine ⟨[c], hchanges, fun x hx => ?_⟩
    rw [List.mem_singleton.mp hx]
    exact ⟨hi, hpath⟩
  cases h with
  | tick => exact ⟨[], rfl, fun _ hc => absurd hc List.not_mem_nil⟩
  | draw => exact ⟨[], rfl, fun _ hc => absurd hc List.not_mem_nil⟩
  | rewrite old e hid hold => exact hone _ rfl (.inr ⟨_, .inl rfl⟩) rfl
  | record e hid hres => exact hone _ rfl (.inr ⟨_, .inl rfl⟩) rfl
  | save data hres => exact hone _ rfl (.inr ⟨_, .inr rfl⟩) rfl
  | change data id => exact hone _ rfl (.inl rfl) rfl
  | delete => exact hone _ rfl (.inl rfl) rfl

variable {Inv : Option Pid → Target store → Journal Bytes → Prop}

/-- The changes a process adds are its own. -/
theorem Move.changes (h : Move store Inv i w w') : ∃ new, w'.changes = new ++ w.changes ∧
    ∀ c ∈ new, c.by_process = i := by
  cases h with
  | touch t hguar =>
    obtain ⟨new, hnew, hown⟩ := hguar.1.changes
    exact ⟨new, hnew, fun c hc => (hown c hc).1⟩
  | _ => exact ⟨[], rfl, fun _ hc => absurd hc List.not_mem_nil⟩

/-- A target that the process has not locked stays as it is. -/
theorem Move.untouched (h : Move store Inv i w w') {o : Option Pid} {J : Journal Bytes}
    (hat : J.At o t w) (hne : o ≠ some i) : ∃ o', J.At o' t w' := by
  have hlock : w.locks t.lock = o := hat.lock
  cases h with
  | acquire t' => exact ⟨_, hat.setLock t'.lock (some i)⟩
  | timeout t' => exact ⟨o, hat.timeout _⟩
  | release t' => exact ⟨_, hat.setLock t'.lock none⟩
  | touch t' hguar =>
    obtain ⟨htouch, J', _, hat'⟩ := hguar
    refine ⟨o, htouch.view_other (fun hpath => hne ?_) hat⟩
    have hown : w'.locks t'.lock = some i := hat'.lock
    rw [htouch.locks, ← Target.eq_of_path hpath, hlock] at hown
    exact hown

/-- What the others do to the host of process `i`: the changes they add are not its own. -/
structure Beside (store : RecoveryStore)
    (Inv : Option Pid → Target store → Journal Bytes → Prop) (i : Pid) (w w' : World Bytes) : Prop
    extends Others store Inv i w w' where
  changes : ∃ new, w'.changes = new ++ w.changes ∧ ∀ c ∈ new, c.by_process ≠ i

theorem Beside.refl (w : World Bytes) : Beside store Inv i w w :=
  ⟨.refl w, [], rfl, fun _ h => absurd h List.not_mem_nil⟩

theorem Beside.trans {a b c : World Bytes} (hab : Beside store Inv i a b)
    (hbc : Beside store Inv i b c) : Beside store Inv i a c := by
  obtain ⟨new, hnew, hothers⟩ := hab.changes
  obtain ⟨new', hnew', hothers'⟩ := hbc.changes
  refine ⟨hab.toOthers.trans hbc.toOthers, new' ++ new, ?_, fun x hx => ?_⟩
  · rw [hnew', hnew, List.append_assoc]
  · rcases List.mem_append.mp hx with hx | hx
    · exact hothers' x hx
    · exact hothers x hx

theorem Move.beside (hacquire : ∀ i t J, Inv none t J → Inv (some i) t J)
    (h : Move store Inv j w w') (hne : i ≠ j) (hno : w'.NoRepeat) : Beside store Inv i w w' := by
  obtain ⟨new, hnew, hown⟩ := h.changes
  refine ⟨h.others hacquire hne hno, new, hnew, fun c hc => ?_⟩
  rw [hown c hc]
  exact hne.symm

theorem Beside.mem (h : Beside store Inv i w w') {c : Change Bytes} (hc : c ∈ w.changes) :
    c ∈ w'.changes := by
  obtain ⟨new, hnew, _⟩ := h.changes
  rw [hnew]
  exact List.mem_append_right _ hc

/-- Of its own changes a process sees no more than there were. -/
theorem Beside.own (h : Beside store Inv i w w') {c : Change Bytes} (hc : c ∈ w'.changes)
    (hi : c.by_process = i) : c ∈ w.changes := by
  obtain ⟨new, hnew, hothers⟩ := h.changes
  rw [hnew] at hc
  exact (List.mem_append.mp hc).resolve_left fun hin => hothers c hin hi

theorem StoreOnly.beside (h : StoreOnly store i w) (hw : Beside store Inv i w w') :
    StoreOnly store i w' := fun c hc hi => h c (hw.own hc hi) hi

omit [Text] [Host Bytes] in
theorem Entry.receipt_rollback_of {e : Entry Bytes} {id : String} (h : e.kind.source = some id) :
    (e.receipt t).rollback_of = some (.str id) := by
  cases hk : e.kind with
  | write =>
    rw [hk] at h
    cases h
  | rollback source expected restored =>
    rw [hk] at h
    simp only [Entry.receipt, Entry.details, hk]
    exact congrArg (some ∘ Val.str) (Option.some.inj h)

theorem RollbackDenied.log {t : Path} {p : ProjectId} {expected : String} {J J' : Journal Bytes}
    {err : Err} (h : RollbackDenied i t p expected J w err J') : J'.log = J.log := by
  cases h with
  | stale => rfl
  | pending hover => exact hover.quiet.log
  | headless hover => exact hover.quiet.log
  | repeated hover => exact hover.quiet.log

/-- What the process has changed is the target, or in the store. -/
def Within (t : Target store) (i : Pid) (w : World Bytes) : Prop :=
  ∀ c ∈ w.changes, c.by_process = i → c.path = t.path ∨ store.Keeps c.path

theorem Within.storeOnly {o : Option Pid} {J : Journal Bytes} (h : Within t i w) (hat : J.At o t w)
    (hlog : ∀ c ∈ J.log, c.by_process ≠ i) : StoreOnly store i w := by
  intro c hc hi
  refine (h c hc hi).resolve_left fun hpath => hlog c ?_ hi
  rw [← hat.log, List.mem_filter]
  exact ⟨hc, beq_iff_eq.mpr hpath⟩

/-- A section on a target among the calls of others: the process that enters it has
not changed the target before. -/
theorem wp_section {first : World Bytes} {body : Jvc Bytes α} {Q : Except Err α → World Bytes → Prop}
    (hev : Everywhere store (Flow store first) w) (hown : StoreOnly store i w)
    (htimeout : ∀ w' err, StoreOnly store i w' → err.isLockTimeout = true → Q (.error err) w')
    (hbody : ∀ w₁ (J : Journal Bytes), J.Calm (first.lookup t.path) → J.At (some i) t w₁ →
      (∀ c ∈ J.log, c.by_process ≠ i) →
        critical (some i) i t (Journal.Busy (first.lookup t.path) i) body (fun r w₂ =>
          ∃ J' : Journal Bytes, J'.Calm (first.lookup t.path) ∧ J'.At (some i) t w₂ ∧
            ∀ w₃, J'.At none t w₃ → Within t i w₃ → Q r w₃) w₁) :
    wp (machine Bytes) i (Beside store (Flow store first) i) (Move store (Flow store first) i)
      (with_lock t.lock body) Q w := by
  refine wp_with_lock_among (flow_acquire first) (I := Within t i) (fun _ _ h => h.toOthers)
    (fun a b ha hab c hc hi => ha c (hab.own hc hi) hi) (fun a b ha hguar c hc hi => ?_)
    (fun a ha => ha) hev (fun w₀ err hw₀ herr _ => ?_) fun w₀ J hw₀ hJ hat => ?_
  · obtain ⟨new, hnew, hpaths⟩ := hguar.1.changes
    rw [hnew] at hc
    rcases List.mem_append.mp hc with hc | hc
    · exact (hpaths c hc).2
    · exact ha c hc hi
  · have hstart : StoreOnly store i w₀ := hown.beside hw₀
    exact htimeout _ err hstart herr
  · have hstart : StoreOnly store i w₀ := hown.beside hw₀
    have hlog : ∀ c ∈ J.log, c.by_process ≠ i := by
      intro c hc hi
      rw [← hat.log, List.mem_filter, beq_iff_eq] at hc
      have hkept := hstart c hc.1 hi
      rw [hc.2] at hkept
      exact t.not_kept hkept
    refine ⟨fun c hc hi => .inr (hstart c hc hi), wp_post (hbody _ J hJ hat hlog) ?_⟩
    rintro r w₂ ⟨J', hJ', hat', hQ⟩
    exact ⟨J', hJ', hat', fun w₃ _ hat₃ _ _ hwithin => hQ w₃ hat₃ hwithin⟩

end recovery

namespace GovernedExecutor

variable {executor : GovernedExecutor} {p : ProjectId}

/-- The digest that a caller gives of the content it has seen. -/
def presented (expected : Option String) : Option String :=
  if absent expected then none else some (strip (Text.upper (expected.getD "")))

theorem current_of_expected {J : Journal Bytes} {expected : Option String} (h : J.Expected expected) :
    J.current = presented expected := by
  unfold Journal.Expected at h
  cases htarget : J.target with
  | none =>
    rw [htarget] at h
    rw [Journal.current, htarget, presented, if_pos h]
    rfl
  | some data =>
    rw [htarget] at h
    obtain ⟨habsent, hdigest⟩ := h
    rw [Journal.current, htarget, presented, if_neg (by rw [habsent]; exact Bool.false_ne_true),
      ← hdigest]
    rfl

theorem WriteDenied.log {t : Path} {expected : Option String} {J J' : Journal Bytes}
    {err : Err} (h : WriteDenied i t p expected J w err J') : J'.log = J.log := by
  cases h with
  | blocked hsettling => exact hsettling.quiet.log
  | unnamed hsettling => exact hsettling.quiet.log
  | stale hsettling => exact hsettling.quiet.log
  | oversized hsettling => exact hsettling.quiet.log
  | repeated hsettling => exact hsettling.quiet.log

/-- What a call of process `i` has done, in a host where it has ended. -/
inductive Concluded (executor : GovernedExecutor) (i : Pid) (p : ProjectId) (first : World Bytes) :
    Call Bytes → Except Err Reply → World Bytes → Prop
  | wrote {w : World Bytes} {relative_path : String} {content : Bytes} {expected : Option String}
      {capability privileged : Bool} {extra : List String} {t : Target executor.recovery_store}
      {c op_class receipt_id : String} {change : Change Bytes}
      (hgov : executor.Governs p.text relative_path "FS_WRITE" privileged p t c)
      (hchange : change ∈ w.changes) (hpath : change.path = t.path) (hby : change.by_process = i)
      (hid : change.receipt_id = some receipt_id)
      (hbefore : change.before.map sha256_bytes = presented expected)
      (hafter : change.after = some content) (hfree : w.locks t.lock ≠ some i) :
      Concluded executor i p first (.fs_write relative_path content expected capability extra)
        (.ok (.written (.PASS op_class p.text c receipt_id (presented expected)
          (sha256_bytes content)))) w
  | undid {w : World Bytes} {relative_path expected : String} {t : Target executor.recovery_store}
      {c : String} {change : Change Bytes} {result : RollbackResult}
      (hgov : executor.Governs p.text relative_path "FS_ROLLBACK" false p t c)
      (htarget : result.path = t.path) (hchange : change ∈ w.changes) (hpath : change.path = t.path)
      (hby : change.by_process = i)
      (hbefore : change.before.map sha256_bytes = some (strip (Text.upper expected))) :
      Concluded executor i p first (.fs_rollback relative_path expected) (.ok (.rolledBack result)) w
  | recovered {w : World Bytes} {summary : Summary}
      {deferred : List (String × Target executor.recovery_store)}
      (hdeferred : summary.deferred = deferred.map Prod.fst)
      (hwaited : w.waited i = (deferred.map fun x => x.2.lock).reverse ++ first.waited i)
      (hbelongs : ∀ x ∈ deferred, Belongs executor.recovery_store w x) :
      Concluded executor i p first .recover (.ok (.recovered summary)) w
  | unconfirmed {w : World Bytes} {relative_path project_id path : String} {content : Bytes}
      {expected : Option String} {capability : Bool} {extra : List String}
      (hown : StoreOnly executor.recovery_store i w) :
      Concluded executor i p first (.fs_write relative_path content expected capability extra)
        (.ok (.written (.REQUIRES_CONFIRMATION project_id path))) w
  | failed {w : World Bytes} {call : Call Bytes} {err : Err}
      (hown : StoreOnly executor.recovery_store i w) :
      Concluded executor i p first call (.error err) w

/-- What is done stays done while the others go on. -/
theorem Concluded.beside {first : World Bytes} {call : Call Bytes} {r : Except Err Reply}
    {Inv : Option Pid → Target executor.recovery_store → Journal Bytes → Prop}
    (h : Concluded executor i p first call r w) (hw : Beside executor.recovery_store Inv i w w') :
    Concluded executor i p first call r w' := by
  cases h with
  | wrote hgov hchange hpath hby hid hbefore hafter hfree =>
    exact .wrote hgov (hw.mem hchange) hpath hby hid hbefore hafter fun hlock =>
      hfree ((hw.locks _).mp hlock)
  | undid hgov htarget hchange hpath hby hbefore =>
    exact .undid hgov htarget (hw.mem hchange) hpath hby hbefore
  | recovered hdeferred hwaited hbelongs =>
    exact .recovered hdeferred (hw.waits.trans hwaited) fun x hx => (hbelongs x hx).later hw.toLater
  | unconfirmed hown => exact .unconfirmed (hown.beside hw)
  | failed hown => exact .failed (hown.beside hw)

section Calls

variable {first : World Bytes} (hev : Everywhere executor.recovery_store (Flow executor.recovery_store first) w)
  (hown : StoreOnly executor.recovery_store i w)
include hev hown

/-- A write among other calls. -/
theorem wp_write_beside {relative_path : String} {content : Bytes} {expected : Option String}
    {capability : Bool} {extra : List String} :
    (executor.fs_write p.text relative_path content expected capability extra).wp (machine Bytes) i
      (Beside executor.recovery_store (Flow executor.recovery_store first) i)
      (Move executor.recovery_store (Flow executor.recovery_store first) i)
      (fun r w' => Concluded executor i p first
        (.fs_write relative_path content expected capability extra) (.written <$> r) w') w := by
  refine wp_fs_write (.refl w) (fun w' err hw _ _ => .failed (hown.beside hw))
    (fun w' hw _ => .unconfirmed (hown.beside hw)) fun w' privileged q t c hw hgov => ?_
  have hq := hgov.eq_of_project
  subst hq
  refine wp_section (hw.everywhere hev) (hown.beside hw)
    (fun w₁ err hown₁ _ => .failed hown₁) fun w₁ J hJ hat hlog => ?_
  refine critical_write_locked (p := q) (fun _ hJ => Journal.Calm.busy hJ i)
    (fun K K' hK hstep => hstep.calm (.inl rfl) hK)
    (fun _ K K' hK hstep => hstep.busy_of_calm (.inl rfl) hK i)
    (fun K K' hK hstep => hstep.busy (.inl rfl) hK) hat hJ hJ.rooted.logged
    (fun w₂ J' e hat₂ hbusy hwrote => ?_) fun w₂ J' err hat₂ hJ' hdenied => ?_
  · have hJ' : J'.Calm (first.lookup t.path) :=
      hwrote.settling.preserves (fun K K' hK hstep => hstep.calm (.inl rfl) hK) hJ
    have hcalm : (J'.written i t.path e content).Calm (first.lookup t.path) := by
      refine hbusy.calm fun x hx => ?_
      rcases List.mem_cons.mp hx with rfl | hx
      · rfl
      · exact hJ'.complete x hx
    refine ⟨_, hcalm, hat₂, fun w₃ hat₃ _ => ?_⟩
    have hcurrent : J'.current = presented expected :=
      hwrote.settling.quiet.current.trans (current_of_expected hwrote.expected)
    have hmade : (⟨i, t.path, J'.target, some content, some e.receipt_id⟩ : Change Bytes) ∈
        w₃.changes.filter fun c => c.path == t.path := by
      rw [hat₃.log]
      exact List.mem_cons_self
    rw [reply, hcurrent]
    refine .wrote hgov (List.mem_filter.mp hmade).1 rfl rfl rfl hcurrent rfl ?_
    rw [hat₃.lock]
    exact fun hno => by cases hno
  · refine ⟨J', hJ', hat₂, fun w₃ hat₃ hwithin => .failed (hwithin.storeOnly hat₃ ?_)⟩
    rw [hdenied.log]
    exact hlog

/-- A rollback among other calls. -/
theorem wp_rollback_beside {relative_path expected : String} :
    (executor.fs_rollback p.text relative_path expected).wp (machine Bytes) i
      (Beside executor.recovery_store (Flow executor.recovery_store first) i)
      (Move executor.recovery_store (Flow executor.recovery_store first) i)
      (fun r w' => Concluded executor i p first (.fs_rollback relative_path expected)
        (.rolledBack <$> r) w') w := by
  refine wp_fs_rollback (.refl w) (fun w' err hw _ _ => .failed (hown.beside hw))
    fun w' q t c hw hgov => ?_
  have hq := hgov.eq_of_project
  subst hq
  refine wp_section (hw.everywhere hev) (hown.beside hw)
    (fun w₁ err hown₁ _ => .failed hown₁) fun w₁ J hJ hat hlog => ?_
  have hsettle : ∀ K K' : Journal Bytes, K.Calm (first.lookup t.path) → Step i t.path .settle K K' →
      K'.Calm (first.lookup t.path) := fun K K' hK hstep => hstep.calm (.inl rfl) hK
  have hover : ∀ K K' : Journal Bytes, K.Calm (first.lookup t.path) → Step i t.path .overtake K K' →
      K'.Calm (first.lookup t.path) := fun K K' hK hstep => hstep.calm (.inr (.inr rfl)) hK
  refine critical_rollback_locked (p := q) (fun _ hJ => Journal.Calm.busy hJ i) hsettle hover
    (fun K K' hK hstep => hstep.busy_of_calm (.inr rfl) hK i)
    (fun K K' hK hstep => hstep.busy (.inr rfl) hK) hat hJ
    (fun w₂ J' r s hat₂ hbusy hback => ?_)
    (fun w₂ J' r s err _ _ hovertaking _ hint hlost _ => ?_) fun w₂ J' err hat₂ hJ' hdenied => ?_
  · have hJ' : J'.Calm (first.lookup t.path) := hback.overtaking.preserves hsettle hover hJ
    have hcalm : (J'.undone i t.path r s).Calm (first.lookup t.path) := by
      refine hbusy.calm fun x hx => ?_
      rcases List.mem_cons.mp hx with rfl | hx
      · rfl
      · obtain ⟨y, hy, ⟨_, rfl⟩ | ⟨_, rfl⟩⟩ := Journal.mem_mark.mp hx
        · rfl
        · exact hJ'.complete x hy
    refine ⟨_, hcalm, hat₂, fun w₃ hat₃ _ => ?_⟩
    have hmade : (⟨i, t.path, J'.target, s.kind.before, none⟩ : Change Bytes) ∈
        w₃.changes.filter fun c => c.path == t.path := by
      rw [hat₃.log]
      exact List.mem_cons_self
    exact .undid hgov rfl (List.mem_filter.mp hmade).1 rfl rfl hback.intent.current
  · have hJ' : J'.Calm (first.lookup t.path) := hovertaking.preserves hsettle hover hJ
    rw [hJ'.rooted.sourced.intact s hint.source] at hlost
    cases hlost
  · refine ⟨J', hJ', hat₂, fun w₃ hat₃ hwithin => .failed (hwithin.storeOnly hat₃ ?_)⟩
    rw [hdenied.log]
    exact hlog

omit hown in
/-- Restart recovery among other calls. -/
theorem wp_recover_beside (hwaited : w.waited i = first.waited i) :
    (executor.recover).wp (machine Bytes) i
      (Beside executor.recovery_store (Flow executor.recovery_store first) i)
      (Move executor.recovery_store (Flow executor.recovery_store first) i)
      (fun r w' => Concluded executor i p first .recover (.recovered <$> r) w') w := by
  refine wp_mono (fun _ _ h => h.toOthers) (fun _ _ => id) (fun _ _ => id)
    (wp_recover (flow_acquire first) (fun t K K' hK hstep => hstep.calm (.inl rfl) hK)
      (fun t K K' hK hstep => hstep.calm (.inr (.inl rfl)) hK) hev
      fun w' files s l _ _ _ hscan hwaits hbelongs orphans => ?_)
  exact .recovered hscan.deferred_eq (hwaits.trans (by rw [hwaited])) hbelongs

/-- Any call among other calls. -/
theorem wp_call_beside (hwaited : w.waited i = first.waited i) (call : Call Bytes) :
    (call.body executor p).wp (machine Bytes) i
      (Beside executor.recovery_store (Flow executor.recovery_store first) i)
      (Move executor.recovery_store (Flow executor.recovery_store first) i)
      (Concluded executor i p first call) w := by
  have hresult : ∀ {α : Type} {f : α → Reply} (r : Except Err α) (w' : World Bytes),
      Concluded executor i p first call (f <$> r) w' →
        onResult (fun a => Concluded executor i p first call (.ok (f a)))
          (fun e => Concluded executor i p first call (.error e)) r w' := by
    intro α f r w' h
    cases r <;> exact h
  cases call with
  | fs_write relative_path content expected capability extra =>
    exact wp_map.mpr (wp_post (wp_write_beside hev hown) hresult)
  | fs_rollback relative_path expected =>
    exact wp_map.mpr (wp_post (wp_rollback_beside hev hown) hresult)
  | recover => exact wp_map.mpr (wp_post (wp_recover_beside hev hwaited) hresult)

end Calls

/-- What every operation of the host does: the clock does not go back, and the ids it
has drawn and will draw are what they were. -/
def Onward (w w' : World Bytes) : Prop :=
  w'.stamps = w.stamps ∧ w.ticks ≤ w'.ticks ∧ ∀ n < w.ticks, w'.drawer n = w.drawer n

omit [Text] [Host Bytes] in
theorem Onward.noRepeat (h : Onward w w') (hno : w'.NoRepeat) : w.NoRepeat := by
  obtain ⟨hstamps, hticks, hdrawers⟩ := h
  intro m n hm hn hdm hdn heq
  refine hno m n (hm.trans_le hticks) (hn.trans_le hticks) ?_ ?_ (by rw [hstamps, heq])
  · rw [hdrawers m hm, hdm]
  · rw [hdrawers n hn, hdn]

omit [Text] [Host Bytes] in
theorem onward_step (op : Op Bytes) (w : World Bytes) :
    Onward w ((machine Bytes).step i op w).2 := by
  have hsame : Onward w w := ⟨rfl, le_rfl, fun _ _ => rfl⟩
  have hattempt : ∀ (by_step : FileStep) (done : World Bytes), done.stamps = w.stamps →
      done.ticks = w.ticks → done.drawer = w.drawer → Onward w (w.attempt by_step done).2 := by
    intro by_step done hstamps hticks hdrawer
    unfold World.attempt
    split
    · exact hsame
    · exact ⟨hstamps, hticks.ge, fun n _ => congrFun hdrawer n⟩
  cases op with
  | acquire l =>
    change Onward w (World.step i (.acquire l) w).2
    simp only [World.step]
    split
    · exact hsame
    · exact hsame
  | stamp => exact ⟨rfl, Nat.le_succ _, fun n hn => Function.update_of_ne hn.ne _ _⟩
  | time_ns => exact ⟨rfl, Nat.le_succ _, fun _ _ => rfl⟩
  | random n => exact ⟨rfl, Nat.le_succ _, fun _ _ => rfl⟩
  | create p data =>
    change Onward w (if (w.lookup p).isSome then (false, w)
      else w.attempt .create (w.write i p data none)).2
    by_cases hsome : (w.lookup p).isSome = true
    · rw [if_pos hsome]
      exact hsame
    · rw [if_neg hsome]
      exact hattempt _ _ rfl rfl rfl
  | persist by_step p data =>
    refine hattempt _ _ ?_ ?_ ?_
    · cases data <;> rfl
    · cases data <;> rfl
    · cases data <;> rfl
  | discard p => exact hattempt _ _ rfl rfl rfl
  | _ => exact hsame

omit [Text] [Host Bytes] in
theorem Onward.trans {a b c : World Bytes} (hab : Onward a b) (hbc : Onward b c) : Onward a c :=
  ⟨hbc.1.trans hab.1, hab.2.1.trans hbc.2.1,
    fun n hn => (hbc.2.2 n (hn.trans_le hab.2.1)).trans (hab.2.2 n hn)⟩

/-- Every process makes one call, of any project. -/
def crowd (executor : GovernedExecutor) (calls : Pid → ProjectId × Call Bytes) (w : World Bytes) :
    Crowd Pid (Op Bytes) Op.Res Err Reply (World Bytes) :=
  ⟨fun i => (calls i).2.body executor (calls i).1, w⟩

/-- Nothing happens but the steps of the calls. -/
def Undisturbed (_ _ : World Bytes) : Prop := False

variable {first : World Bytes} {calls : Pid → ProjectId × Call Bytes}
  {d : Crowd Pid (Op Bytes) Op.Res Err Reply (World Bytes)}

theorem compatible (executor : GovernedExecutor) (first : World Bytes)
    (calls : Pid → ProjectId × Call Bytes) : Crowd.Compatible Undisturbed
      (fun i => While Onward World.NoRepeat
        (Beside executor.recovery_store (Flow executor.recovery_store first) i))
      (fun i => While Onward World.NoRepeat
        (Move executor.recovery_store (Flow executor.recovery_store first) i))
      fun i r w => w.NoRepeat → Concluded executor i (calls i).1 first (calls i).2 r w :=
  .of_while (fun _ => ⟨rfl, le_rfl, fun _ _ => rfl⟩) (fun _ _ _ hst htu => hst.trans htu)
    (fun _ _ h => h.noRepeat) (fun _ => .refl) (fun _ _ _ _ => .trans)
    (fun _ _ _ _ hQ hst => hQ.beside hst)
    (fun _ _ hne _ _ hno hmove => hmove.beside (flow_acquire first) hne.symm hno)
    fun _ _ _ hno => hno.elim

theorem Fresh.flows (h : Fresh executor.recovery_store first) :
    Everywhere executor.recovery_store (Flow executor.recovery_store first) first := by
  refine ⟨h.sound, fun t => ?_⟩
  rw [h.unlocked]
  have hroot : (Journal.start (first.lookup t.path)).Rooted := lasting_rooted.start _
  exact ⟨_, ⟨hroot, fun _ he => absurd he List.not_mem_nil, fun _ he => absurd he List.not_mem_nil,
    rfl⟩, h.start t⟩

theorem verified (h : Fresh executor.recovery_store first) :
    Crowd.Verified (machine Bytes)
      (fun i => While Onward World.NoRepeat
        (Beside executor.recovery_store (Flow executor.recovery_store first) i))
      (fun i => While Onward World.NoRepeat
        (Move executor.recovery_store (Flow executor.recovery_store first) i))
      (fun i r w => w.NoRepeat → Concluded executor i (calls i).1 first (calls i).2 r w)
      (crowd executor calls first) := by
  intro i
  refine wp_while (fun _ _ h => h.noRepeat) (fun op a => onward_step op a)
    (wp_call_beside (Fresh.flows h) (fun c hc => ?_) rfl (calls i).2)
  rw [h.changes] at hc
  cases hc

theorem verified_run (h : Fresh executor.recovery_store first)
    (hrun : Crowd.Run (machine Bytes) Undisturbed (crowd executor calls first) d) :
    Crowd.Verified (machine Bytes)
      (fun i => While Onward World.NoRepeat
        (Beside executor.recovery_store (Flow executor.recovery_store first) i))
      (fun i => While Onward World.NoRepeat
        (Move executor.recovery_store (Flow executor.recovery_store first) i))
      (fun i r w => w.NoRepeat → Concluded executor i (calls i).1 first (calls i).2 r w) d :=
  (verified h).run (compatible executor first calls) hrun

theorem flows_run (h : Fresh executor.recovery_store first)
    (hrun : Crowd.Run (machine Bytes) Undisturbed (crowd executor calls first) d)
    (hno : d.state.NoRepeat) :
    Everywhere executor.recovery_store (Flow executor.recovery_store first) d.state :=
  Crowd.Run.invariant (compatible executor first calls)
    (I := fun a => a.NoRepeat →
      Everywhere executor.recovery_store (Flow executor.recovery_store first) a)
    (fun _ _ _ ha hab hb => (hab.2 hb).everywhere (flow_acquire first) (ha (hab.1.noRepeat hb)))
    (fun _ _ _ hno => hno.elim) (verified h) (fun _ => Fresh.flows h) hrun hno

/-- Under every schedule the journal of a target flows, whoever works on it. -/
theorem journal_flows (h : Everywhere executor.recovery_store (Flow executor.recovery_store first) w)
    (t : Target executor.recovery_store) : ∃ J : Journal Bytes, J.At (w.locks t.lock) t w ∧
      J.Rooted ∧ (∀ e ∈ J.entries, e.Flows J) ∧ Story (first.lookup t.path) J.log J.target ∧
        ∀ e ∈ J.entries, e.tx_state.incomplete = true → ∃ i, w.locks t.lock = some i ∧
          ∀ c ∈ J.log, c.receipt_id = some e.receipt_id → c.by_process = i := by
  obtain ⟨J, hJ, hat⟩ := h.journal t
  refine ⟨J, hat, ?_⟩
  cases hlock : w.locks t.lock with
  | none =>
    rw [hlock] at hJ
    refine ⟨hJ.rooted, hJ.flows, hJ.story, fun e he hp => ?_⟩
    rw [hJ.complete e he] at hp
    cases hp
  | some i =>
    rw [hlock] at hJ
    exact ⟨hJ.rooted, hJ.flows, hJ.story, fun e he hp => ⟨i, rfl, hJ.own e he hp⟩⟩

/-- A receipt of the store is the one of an entry, which flows, and which a process works on
while it is on its way. -/
theorem receipt_flows (h : Everywhere executor.recovery_store (Flow executor.recovery_store first) w)
    {path : Path} {r : Receipt} (hfile : executor.recovery_store.isReceiptFile path = true)
    (hr : w.lookup path = some (Host.dumps r.dict)) :
    ∃ (t : Target executor.recovery_store) (e : Entry Bytes) (J : Journal Bytes),
      r = e.receipt t ∧ e.Flows J ∧
        (e.tx_state.incomplete = true → ∃ i, w.locks t.lock = some i) := by
  obtain ⟨t, e, hpath, hdata⟩ := h.sound.receipts path _ hfile hr
  obtain rfl := dumps_inj hdata
  obtain ⟨J, hat, _, hflows, _, hown⟩ := journal_flows h t
  obtain ⟨x, hx, _, hreceipt⟩ := hat.receipt_of hfile hr rfl
  refine ⟨t, x, J, hreceipt, hflows x hx, fun hp => ?_⟩
  obtain ⟨i, hlock, _⟩ := hown x hx hp
  exact ⟨i, hlock⟩

/-- Calls side by side leave nothing unresolved. -/
structure Peaceful (executor : GovernedExecutor)
    (d : Crowd Pid (Op Bytes) Op.Res Err Reply (World Bytes)) : Prop where
  states : ∀ path (r : Receipt), executor.recovery_store.isReceiptFile path = true →
    d.state.lookup path = some (Host.dumps r.dict) → r.tx_state = .PREPARED ∨
      r.tx_state = .APPLIED ∨ r.tx_state = .VERIFIED ∨ r.tx_state = .ROLLED_BACK
  /-- While a receipt is on its way a process has its target locked. -/
  on_its_way : ∀ path (r : Receipt), executor.recovery_store.isReceiptFile path = true →
    d.state.lookup path = some (Host.dumps r.dict) → r.tx_state.incomplete = true →
      ∃ (t : Target executor.recovery_store) (i : Pid), t.path = r.path ∧
        d.state.locks t.lock = some i
  /-- The receipt of a write that has passed is VERIFIED until a rollback of it is. -/
  passed : ∀ i op_class project_id path receipt_id pre post,
    d.prog i = .ret (.written (.PASS op_class project_id path receipt_id pre post)) →
      ∃ r : Receipt, d.state.lookup (executor.recovery_store.receipt_path receipt_id) =
        some (Host.dumps r.dict) ∧ (r.tx_state = .VERIFIED ∨ r.tx_state = .ROLLED_BACK ∧
          ∃ (id : String) (u : Receipt), d.state.lookup (executor.recovery_store.receipt_path id) =
            some (Host.dumps u.dict) ∧ u.rollback_of = some (.str receipt_id) ∧
              u.tx_state = .VERIFIED)
  /-- A receipt is deferred for each lock that was not granted. -/
  deferred : ∀ i summary, d.prog i = .ret (.recovered summary) →
    ∃ l : List (String × Target executor.recovery_store), summary.deferred = l.map Prod.fst ∧
      d.state.waited i = (l.map fun x => x.2.lock).reverse
  /-- A process works on no target that it has not locked. -/
  guarded : ∀ i op k, d.prog i = .act op k → ((machine Bytes).step i op d.state).2.NoRepeat →
    ∀ (t : Target executor.recovery_store) o (J : Journal Bytes), J.At o t d.state → o ≠ some i →
      ∃ o', J.At o' t ((machine Bytes).step i op d.state).2

/-- The changes of a target, latest first. -/
def updates (t : Target executor.recovery_store) (w : World Bytes) : List (Change Bytes) :=
  w.changes.filter fun c => c.path == t.path

/-- The call of process `i` has shown this digest of the target, and succeeded. -/
inductive Won (executor : GovernedExecutor) (calls : Pid → ProjectId × Call Bytes)
    (d : Crowd Pid (Op Bytes) Op.Res Err Reply (World Bytes)) (i : Pid)
    (t : Target executor.recovery_store) : Option String → Prop
  | write {relative_path : String} {content : Bytes} {expected : Option String}
      {capability privileged : Bool} {extra : List String} {c : String} {reply : WriteReply}
      (hcall : (calls i).2 = .fs_write relative_path content expected capability extra)
      (hgov : executor.Governs (calls i).1.text relative_path "FS_WRITE" privileged (calls i).1 t c)
      (hret : d.prog i = .ret (.written reply))
      (hpass : ∃ op_class project_id path receipt_id pre post,
        reply = .PASS op_class project_id path receipt_id pre post) :
      Won executor calls d i t (presented expected)
  | rollback {relative_path expected c : String} {result : RollbackResult}
      (hcall : (calls i).2 = .fs_rollback relative_path expected)
      (hgov : executor.Governs (calls i).1.text relative_path "FS_ROLLBACK" false (calls i).1 t c)
      (hret : d.prog i = .ret (.rolledBack result)) :
      Won executor calls d i t (some (strip (Text.upper expected)))

/-- Calls side by side are one after the other on each target. -/
structure Serialized (executor : GovernedExecutor) (calls : Pid → ProjectId × Call Bytes)
    (first : World Bytes) (d : Crowd Pid (Op Bytes) Op.Res Err Reply (World Bytes)) : Prop where
  story : ∀ t : Target executor.recovery_store,
    Story (first.lookup t.path) (updates t d.state) (d.state.lookup t.path)
  /-- A write that has passed reports the digests of what it found and of what it left. -/
  written : ∀ i op_class project_id path receipt_id pre post,
    d.prog i = .ret (.written (.PASS op_class project_id path receipt_id pre post)) →
      ∃ (relative_path : String) (content : Bytes) (expected : Option String)
        (capability privileged : Bool) (extra : List String) (t : Target executor.recovery_store)
        (change : Change Bytes),
        (calls i).2 = .fs_write relative_path content expected capability extra ∧
        executor.Governs (calls i).1.text relative_path "FS_WRITE" privileged (calls i).1 t path ∧
        change ∈ updates t d.state ∧ change.by_process = i ∧
        change.receipt_id = some receipt_id ∧ pre = presented expected ∧
        change.before.map sha256_bytes = pre ∧ change.after = some content ∧
        post = sha256_bytes content
  /-- A rollback replaces the content whose digest it was given. -/
  undone : ∀ i result, d.prog i = .ret (.rolledBack result) →
    ∃ (relative_path expected c : String) (t : Target executor.recovery_store)
      (change : Change Bytes),
      (calls i).2 = .fs_rollback relative_path expected ∧
      executor.Governs (calls i).1.text relative_path "FS_ROLLBACK" false (calls i).1 t c ∧
      result.path = t.path ∧ change ∈ updates t d.state ∧ change.by_process = i ∧
      change.before.map sha256_bytes = some (strip (Text.upper expected))
  refused : ∀ i err, d.prog i = .fail err → StoreOnly executor.recovery_store i d.state
  /-- Of two calls that were shown the same content, the first one has won, unless that
  content has come back. -/
  one_winner : ∀ i j (t : Target executor.recovery_store) H, Won executor calls d i t H →
    Won executor calls d j t H → i ≠ j → ∃ newer x older,
      updates t d.state = newer ++ x :: older ∧ x.after.map sha256_bytes = H ∧
        ((∃ a ∈ newer, a.by_process = i) ∧ (∃ b ∈ x :: older, b.by_process = j) ∨
          (∃ b ∈ newer, b.by_process = j) ∧ (∃ a ∈ x :: older, a.by_process = i))

/-- What a call that has succeeded replaced is what it had been shown. -/
theorem Won.change (h : Fresh executor.recovery_store first)
    (hrun : Crowd.Run (machine Bytes) Undisturbed (crowd executor calls first) d)
    (hno : d.state.NoRepeat) {t : Target executor.recovery_store} {H : Option String}
    (hwon : Won executor calls d i t H) :
    ∃ change ∈ updates t d.state, change.by_process = i ∧ change.before.map sha256_bytes = H := by
  have hdone := verified_run h hrun
  cases hwon with
  | @write relative_path _ _ _ _ _ _ _ hcall hgov hret hpass =>
    obtain ⟨op_class, project_id, path, receipt_id, pre, post, rfl⟩ := hpass
    have hconcluded := hdone.returned hret hno
    rw [hcall] at hconcluded
    cases hconcluded with
    | wrote hgov' hchange hpath hby hid hbefore hafter hfree =>
      rw [(hgov'.unique hgov).2.1] at hpath
      exact ⟨_, List.mem_filter.mpr ⟨hchange, beq_iff_eq.mpr hpath⟩, hby, hbefore⟩
  | rollback hcall hgov hret =>
    have hconcluded := hdone.returned hret hno
    rw [hcall] at hconcluded
    cases hconcluded with
    | undid hgov' htarget hchange hpath hby hbefore =>
      rw [(hgov'.unique hgov).2.1] at hpath
      exact ⟨_, List.mem_filter.mpr ⟨hchange, beq_iff_eq.mpr hpath⟩, hby, hbefore⟩

/-- Any number of processes, under any schedule. -/
theorem serialized (h : Fresh executor.recovery_store first)
    (hrun : Crowd.Run (machine Bytes) Undisturbed (crowd executor calls first) d)
    (hno : d.state.NoRepeat) : Serialized executor calls first d := by
  have hstory : ∀ t : Target executor.recovery_store,
      Story (first.lookup t.path) (updates t d.state) (d.state.lookup t.path) := by
    intro t
    obtain ⟨J, hat, _, _, hstory, _⟩ := journal_flows (flows_run h hrun hno) t
    rw [← hat.log, ← hat.target] at hstory
    exact hstory
  have hdone := verified_run h hrun
  refine ⟨hstory, fun i op_class project_id path id pre post hret => ?_, fun i result hret => ?_,
    fun i err hfail => ?_, fun i j t H hi hj hne => ?_⟩
  · have hconcluded := hdone.returned hret hno
    generalize hcall : (calls i).2 = call at hconcluded
    cases hconcluded with
    | wrote hgov hchange hpath hby hid hbefore hafter hfree =>
      exact ⟨_, _, _, _, _, _, _, _, rfl, hgov, List.mem_filter.mpr ⟨hchange, beq_iff_eq.mpr hpath⟩,
        hby, hid, rfl, hbefore, hafter, rfl⟩
  · have hconcluded := hdone.returned hret hno
    generalize hcall : (calls i).2 = call at hconcluded
    cases hconcluded with
    | undid hgov htarget hchange hpath hby hbefore =>
      exact ⟨_, _, _, _, _, rfl, hgov, htarget,
        List.mem_filter.mpr ⟨hchange, beq_iff_eq.mpr hpath⟩, hby, hbefore⟩
  · have hconcluded := hdone.failed hfail hno
    generalize (calls i).2 = call at hconcluded
    cases hconcluded with
    | failed hown => exact hown
  · obtain ⟨a, ha, haby, habefore⟩ := hi.change h hrun hno
    obtain ⟨b, hb, hbby, hbbefore⟩ := hj.change h hrun hno
    have hab : a ≠ b := by
      rintro rfl
      exact hne (haby.symm.trans hbby)
    obtain ⟨newer, x, older, hsplit, ⟨hin, hold, hafter⟩ | ⟨hin, hold, hafter⟩⟩ :=
      (hstory t).between ha hb hab
    · exact ⟨newer, x, older, hsplit, by rw [hafter, habefore], .inl ⟨⟨a, hin, haby⟩, b, hold, hbby⟩⟩
    · exact ⟨newer, x, older, hsplit, by rw [hafter, hbbefore], .inr ⟨⟨b, hin, hbby⟩, a, hold, haby⟩⟩

end GovernedExecutor

end jvc

namespace jvc.GovernedExecutor

section Samples

attribute [local instance] asciiText recovery.sampleHost

/-- Every process creates the sample file. -/
def sampleCalls : Pid → ProjectId × Call SampleBytes :=
  fun _ => (sampleProject, .fs_write "a.txt" .after none false [])

abbrev SampleCrowd : Type :=
  Crowd Pid (Op SampleBytes) Op.Res Err Reply (World SampleBytes)

/-- One process steps, the others rest. -/
def SampleCrowd.after (c : SampleCrowd) (i : Pid) (n : Nat) : SampleCrowd :=
  ⟨Function.update c.prog i ((c.prog i).after (machine SampleBytes) i n c.state).1,
    ((c.prog i).after (machine SampleBytes) i n c.state).2⟩

def sampleCrowd : SampleCrowd :=
  crowd sampleExecutor sampleCalls { sampleWorld [] with stamps := sampleStamps }

/-- The first process is in its section while the second one makes its checks; both end. -/
def sampleContended : SampleCrowd :=
  (((sampleCrowd.after 0 20).after 1 1).after 0 100).after 1 100

theorem sampleContended_run : Crowd.Run (machine SampleBytes) Undisturbed sampleCrowd sampleContended :=
  (((Crowd.run_after _ 0 20).trans (Crowd.run_after _ 1 1)).trans (Crowd.run_after _ 0 100)).trans
    (Crowd.run_after _ 1 100)

theorem sampleContended_noRepeat : sampleContended.state.NoRepeat := by
  have hall : ∀ a, a < sampleContended.state.ticks → ∀ b, b < sampleContended.state.ticks →
      sampleContended.state.stamps a = sampleContended.state.stamps b → a = b := by
    decide +kernel
  exact fun a b ha hb _ _ => hall a ha b hb

theorem sampleCrowd_fresh :
    Fresh sampleExecutor.recovery_store { sampleWorld [] with stamps := sampleStamps } :=
  ⟨fun _ => rfl, fun _ => rfl, rfl⟩

theorem serialized_contended : Serialized sampleExecutor sampleCalls
    { sampleWorld [] with stamps := sampleStamps } sampleContended :=
  serialized sampleCrowd_fresh sampleContended_run sampleContended_noRepeat

end Samples

end jvc.GovernedExecutor
