import Jvc.Execution.Interrupted
import Jvc.Execution.Retry
import Jvc.Policy.Canonical

open program program.Prog jvc.recovery jvc.policy

namespace jvc

variable {Bytes : Type} [Text] [Host Bytes] {i : Pid} {w w' : World Bytes}

namespace recovery

variable {store : RecoveryStore} {P : Target store → Prop}

/-- The journals while only some of the targets may change. -/
def Framed (store : RecoveryStore) (w : World Bytes) (P : Target store → Prop) :
    Option Pid → Target store → Journal Bytes → Prop :=
  fun _ t J => J.Rooted ∧ (¬ P t → J.target = w.lookup t.path)

theorem Quiescent.framed (h : Quiescent store Journal.Rooted w) (P : Target store → Prop) :
    Everywhere store (Framed store w P) w := by
  refine ⟨h.everywhere.sound, fun t => ?_⟩
  rw [h.idle t]
  obtain ⟨J, hJ, hat⟩ := h.journal t
  exact ⟨J, ⟨hJ, fun _ => hat.target.symm⟩, hat⟩

/-- Receipts may change where the content does not. -/
theorem Framed.quiet {J J' : Journal Bytes} {o : Option Pid} {t : Target store} {l : Label}
    (hJ : Framed store w P o t J) (hstep : Step i t.path l J J') (hl : l.quiet = true) :
    Framed store w P o t J' := by
  have hquiet : Quiet i t.path J J' := .single ⟨l, hl, hstep⟩
  exact ⟨hstep.rooted hJ.1, fun hno => hquiet.target.trans (hJ.2 hno)⟩

/-- The content of a target that work on another one leaves alone. -/
theorem Apart.lookup {t t' : Target store} (h : Apart t w w') (hne : t' ≠ t)
    (hquiet : Quiescent store Journal.Rooted w) : w'.lookup t'.path = w.lookup t'.path := by
  obtain ⟨J, _, hat⟩ := hquiet.journal t'
  rw [(h.view t' (fun hpath => hne (Target.eq_of_path hpath)) none J hat).target, hat.target]

end recovery

namespace GovernedExecutor

variable {executor : GovernedExecutor} {p : ProjectId}

/-- The file outside the stores that a call may change. -/
inductive Scope (executor : GovernedExecutor) (p : ProjectId) :
    Call Bytes → Target executor.recovery_store → String → Prop
  | fs_write {relative_path : String} {content : Bytes} {expected : Option String}
      {capability privileged : Bool} {extra : List String} {t : Target executor.recovery_store}
      {c : String}
      (hcleared : executor.Cleared p.text relative_path "FS_WRITE" privileged p t c)
      (hgranted : privileged = true → capability = true) :
      Scope executor p (.fs_write relative_path content expected capability extra) t c
  | fs_rollback {relative_path expected : String} {t : Target executor.recovery_store} {c : String}
      (hcleared : executor.Cleared p.text relative_path "FS_ROLLBACK" false p t c) :
      Scope executor p (.fs_rollback relative_path expected) t c

/-- Nothing outside the stores has changed, if the call was refused. -/
def Spared (store : RecoveryStore) (w : World Bytes) {α : Type} :
    Except Err α → World Bytes → Prop
  | .ok _, _ => True
  | .error _, w' => ∀ t : Target store, w'.lookup t.path = w.lookup t.path

section Calls

variable (h : Quiescent executor.recovery_store Journal.Rooted w)
include h

theorem wp_write_framed {relative_path : String} {content : Bytes} {expected : Option String}
    {capability : Bool} {extra : List String} :
    (executor.fs_write p.text relative_path content expected capability extra).wp (machine Bytes) i
      Eq (Move executor.recovery_store (Framed executor.recovery_store w fun t => ∃ c,
        Scope executor p (.fs_write relative_path content expected capability extra) t c) i)
      (Spared executor.recovery_store w) w := by
  refine wp_fs_write_cleared rfl (fun w₁ err hw _ _ t => by rw [hw])
    (fun _ _ _ => trivial) fun w₁ privileged q t c hw hcleared hgranted => ?_
  subst hw
  have hq := hcleared.toGoverns.eq_of_project
  subst hq
  have hscope : ∃ c, Scope executor q
      (.fs_write relative_path content expected capability extra) t c :=
    ⟨c, .fs_write hcleared hgranted⟩
  obtain ⟨J, hJ, hat⟩ := h.journal t
  refine wp_with_lock_alone (fun _ _ _ hK => hK) (h.framed _) hat ⟨hJ, fun _ => hat.target.symm⟩
    fun w₁ _ hat₁ => ?_
  refine critical_write_locked (p := q)
    (fun K (hK : K.Rooted ∧ K.target = J.target) => ⟨hK.1, fun hno => absurd hscope hno⟩)
    (fun K K' hK hstep => ⟨hstep.rooted hK.1, ?_⟩)
    (fun _ K K' hK hstep => ⟨hstep.rooted hK.1, fun hno => absurd hscope hno⟩)
    (fun K K' hK hstep => ⟨hstep.rooted hK.1, fun hno => absurd hscope hno⟩) hat₁ ⟨hJ, rfl⟩
    hJ.logged (fun w₂ J' e hat₂ hJ₂ _ => ⟨_, hJ₂, hat₂, fun _ _ _ _ _ => trivial⟩)
    fun w₂ J' err hat₂ hJ₂ _ => ?_
  · have hquiet : Quiet i t.path K K' := .single ⟨.settle, rfl, hstep⟩
    exact hquiet.target.trans hK.2
  · refine ⟨J', ⟨hJ₂.1, fun hno => absurd hscope hno⟩, hat₂, fun w₃ _ hat₃ _ hapart t' => ?_⟩
    by_cases ht : t' = t
    · subst ht
      rw [hat₃.target, hJ₂.2, hat.target]
    · exact hapart.lookup ht h

theorem wp_rollback_framed {relative_path expected : String} :
    (executor.fs_rollback p.text relative_path expected).wp (machine Bytes) i
      Eq (Move executor.recovery_store (Framed executor.recovery_store w fun t => ∃ c,
        Scope executor p (.fs_rollback relative_path expected : Call Bytes) t c) i)
      (Spared executor.recovery_store w) w := by
  refine wp_fs_rollback_cleared rfl (fun w₁ err hw _ _ t => by rw [hw]) fun w₁ q t c hw hcleared => ?_
  subst hw
  have hq := hcleared.toGoverns.eq_of_project
  subst hq
  have hscope : ∃ c, Scope executor q (.fs_rollback relative_path expected : Call Bytes) t c :=
    ⟨c, .fs_rollback hcleared⟩
  obtain ⟨J, hJ, hat⟩ := h.journal t
  have hkeep : ∀ l : Label, l.quiet = true → ∀ K K' : Journal Bytes,
      K.Rooted ∧ K.target = J.target → Step i t.path l K K' → K'.Rooted ∧ K'.target = J.target := by
    intro l hl K K' hK hstep
    have hquiet : Quiet i t.path K K' := .single ⟨l, hl, hstep⟩
    exact ⟨hstep.rooted hK.1, hquiet.target.trans hK.2⟩
  refine wp_with_lock_alone (fun _ _ _ hK => hK) (h.framed _) hat ⟨hJ, fun _ => hat.target.symm⟩
    fun w₁ _ hat₁ => ?_
  refine critical_rollback_locked (p := q)
    (fun K (hK : K.Rooted ∧ K.target = J.target) => ⟨hK.1, fun hno => absurd hscope hno⟩)
    (hkeep .settle rfl) (hkeep .overtake rfl)
    (fun K K' hK hstep => ⟨hstep.rooted hK.1, fun hno => absurd hscope hno⟩)
    (fun K K' hK hstep => ⟨hstep.rooted hK.1, fun hno => absurd hscope hno⟩) hat₁ ⟨hJ, rfl⟩
    (fun w₂ J' r s hat₂ hJ₂ _ => ⟨_, hJ₂, hat₂, fun _ _ _ _ _ => trivial⟩)
    (fun w₂ J' r s err _ _ hover _ hint hlost _ => ?_) fun w₂ J' err hat₂ hJ₂ _ => ?_
  · have hJ' : J'.Rooted := hover.preserves (fun K K' hK hstep => hstep.rooted hK)
      (fun K K' hK hstep => hstep.rooted hK) hJ
    rw [hJ'.sourced.intact s hint.source] at hlost
    cases hlost
  · refine ⟨J', ⟨hJ₂.1, fun hno => absurd hscope hno⟩, hat₂, fun w₃ _ hat₃ _ hapart t' => ?_⟩
    by_cases ht : t' = t
    · subst ht
      rw [hat₃.target, hJ₂.2, hat.target]
    · exact hapart.lookup ht h

theorem wp_recover_framed :
    (executor.recover).wp (machine Bytes) i
      Eq (Move executor.recovery_store (Framed executor.recovery_store w fun t => ∃ c,
        Scope executor p (.recover : Call Bytes) t c) i) (Spared executor.recovery_store w) w := by
  refine wp_mono (fun a b hab => ?_) (fun _ _ => id) (fun _ _ => id)
    (wp_recover (fun _ _ _ hK => hK) (fun t K K' hK hstep => hK.quiet hstep rfl)
      (fun t K K' hK hstep => hK.quiet hstep rfl) (h.framed _)
      fun w' files s l _ _ _ _ _ _ orphans => trivial)
  subst hab
  exact .refl a

end Calls

/-- The steps of any call, and what a refused one leaves. -/
theorem wp_call_framed (h : Quiescent executor.recovery_store Journal.Rooted w)
    (call : Call Bytes) : (call.body executor p).wp (machine Bytes) i
      Eq (Move executor.recovery_store (Framed executor.recovery_store w fun t => ∃ c,
        Scope executor p call t c) i) (Spared executor.recovery_store w) w := by
  have hresult : ∀ {α : Type} {f : α → Reply} (r : Except Err α) (w' : World Bytes),
      Spared executor.recovery_store w r w' →
        onResult (fun a => Spared executor.recovery_store w (.ok (f a)))
          (fun e => Spared executor.recovery_store w (.error e : Except Err Reply)) r w' := by
    intro α f r w' hspared
    cases r with
    | ok => trivial
    | error => exact hspared
  cases call with
  | fs_write => exact wp_map.mpr (wp_post (wp_write_framed h) hresult)
  | fs_rollback => exact wp_map.mpr (wp_post (wp_rollback_framed h) hresult)
  | recover => exact wp_map.mpr (wp_post (wp_recover_framed h) hresult)

/-- A file that a call may change is the one that its relative path names: properly below
the root of its project, outside the host stores, no secret, and control-plane only for a write
that has a capability. -/
structure Contained (executor : GovernedExecutor) (p : ProjectId) (call : Call Bytes) (path : Path) :
    Prop where
  named : ∃ relative_path route c, call.relative_path = some relative_path ∧
    executor.registry.get p.text = some route ∧
      canonical_target route.root relative_path = .ok (path, c) ∧
        (∃ parts, CanonicalParts route.root path c parts) ∧ is_secret_path c = false ∧
          (is_control_plane_path c = true → ∃ content expected extra,
            call = .fs_write relative_path content expected true extra)
  confirmation : is_within_store path executor.confirmation_store = false
  recovery : is_within_store path executor.recovery_store.root = false

omit [Host Bytes] in
theorem Cleared.canonical {relative_path operation c : String} {privileged : Bool}
    {t : Target executor.recovery_store}
    (h : executor.Cleared p.text relative_path operation privileged p t c) :
    ∃ route, executor.registry.get p.text = some route ∧
      canonical_target route.root relative_path = .ok (t.path, c) ∧
        (∃ parts, CanonicalParts route.root t.path c parts) ∧ is_secret_path c = false ∧
          (privileged = true ∨ is_control_plane_path c = false) := by
  obtain ⟨route, hroute, hok⟩ := h.permitted
  obtain ⟨htarget, hsecret, hcontrol⟩ := assert_permitted_path_eq_ok.mp hok
  exact ⟨route, hroute, htarget, canonical_target_parts htarget, hsecret, hcontrol⟩

omit [Host Bytes] in
theorem Scope.contained {call : Call Bytes} {t : Target executor.recovery_store} {c : String}
    (h : Scope executor p call t c) : Contained executor p call t.path := by
  cases h with
  | fs_write hcleared hgranted =>
    obtain ⟨route, hroute, htarget, hparts, hsecret, hcontrol⟩ := hcleared.canonical
    refine ⟨⟨_, route, c, rfl, hroute, htarget, hparts, hsecret, fun hplane => ?_⟩,
      hcleared.confirmation, t.outside⟩
    rcases hcontrol with hprivileged | hplain
    · rw [hgranted hprivileged]
      exact ⟨_, _, _, rfl⟩
    · rw [hplane] at hplain
      cases hplain
  | fs_rollback hcleared =>
    obtain ⟨route, hroute, htarget, hparts, hsecret, hcontrol⟩ := hcleared.canonical
    refine ⟨⟨_, route, c, rfl, hroute, htarget, hparts, hsecret, fun hplane => ?_⟩,
      hcleared.confirmation, t.outside⟩
    rw [hcontrol.resolve_left Bool.false_ne_true] at hplane
    cases hplane

end GovernedExecutor

end jvc

namespace jvc.GovernedExecutor

section Samples

attribute [local instance] asciiText recovery.sampleHost

end Samples

end jvc.GovernedExecutor
