import Jvc.Execution.Locking

open program program.Prog jvc.recovery jvc.policy

namespace jvc.GovernedExecutor

variable {Bytes : Type} [Text] [Host Bytes] {executor : GovernedExecutor} {i : Pid}
  {R G : World Bytes → World Bytes → Prop} {w w' : World Bytes}

/-- A project id and path that lead to a target. -/
structure Governs (executor : GovernedExecutor) (project_id relative_path operation : String)
    (privileged : Bool) (p : ProjectId) (t : Target executor.recovery_store) (c : String) : Prop where
  project : p.text = project_id
  permitted : ∃ route, executor.registry.get project_id = some route ∧
    assert_permitted_path route.root relative_path operation privileged = .ok (t.path, c)

/-- The checks before the lock pass without privilege. -/
structure Reaches (executor : GovernedExecutor) (project_id relative_path : String) (w : World Bytes)
    (route : Route) (t : Target executor.recovery_store) (c : String) : Prop where
  found : executor.registry.get project_id = some route
  root : route.root ∈ w.dirs
  permitted : canonical_target route.root relative_path = .ok (t.path, c) ∧
    is_secret_path c = false ∧ is_control_plane_path c = false
  confirmation : is_within_store t.path executor.confirmation_store = false

/-- The target of a governed write is not gated: neither held nor control-plane. -/
structure Ungated (executor : GovernedExecutor) (project_id relative_path : String)
    (extra : List String) (w : World Bytes) (route : Route) (t : Target executor.recovery_store)
    (c : String) : Prop extends Reaches executor project_id relative_path w route t c where
  active : route.lifecycle ≠ "held"
  plain : is_control_plane_path relative_path = false
  args : (extra.contains "permit_held_mutation" || extra.contains "confirm") = false

omit [Host Bytes] in
theorem Reaches.of_dirs {project_id relative_path c : String} {route : Route}
    {t : Target executor.recovery_store} (h : executor.Reaches project_id relative_path w route t c)
    (hdirs : w'.dirs = w.dirs) : executor.Reaches project_id relative_path w' route t c :=
  ⟨h.found, by rw [hdirs]; exact h.root, h.permitted, h.confirmation⟩

omit [Host Bytes] in
theorem Ungated.of_dirs {project_id relative_path c : String} {extra : List String}
    {route : Route} {t : Target executor.recovery_store}
    (h : executor.Ungated project_id relative_path extra w route t c) (hdirs : w'.dirs = w.dirs) :
    executor.Ungated project_id relative_path extra w' route t c :=
  ⟨h.toReaches.of_dirs hdirs, h.active, h.plain, h.args⟩

omit [Host Bytes] in
theorem Reaches.governs {project_id relative_path c : String} {route : Route}
    {t : Target executor.recovery_store} (h : executor.Reaches project_id relative_path w route t c)
    (operation : String) :
    executor.Governs project_id relative_path operation false route.project_id t c :=
  ⟨ProjectRegistry.get_project_id h.found, route, h.found,
    assert_permitted_path_eq_ok.mpr ⟨h.permitted.1, h.permitted.2.1, .inr h.permitted.2.2⟩⟩

omit [Host Bytes] in
/-- Project id and path determine what a call works on. -/
theorem Governs.unique {project_id relative_path operation operation' : String}
    {privileged privileged' : Bool} {p p' : ProjectId} {t t' : Target executor.recovery_store}
    {c c' : String} (h : executor.Governs project_id relative_path operation privileged p t c)
    (h' : executor.Governs project_id relative_path operation' privileged' p' t' c') :
    p = p' ∧ t = t' ∧ c = c' := by
  obtain ⟨hp, route, hroute, hok⟩ := h
  obtain ⟨hp', route', hroute', hok'⟩ := h'
  rw [hroute] at hroute'
  cases hroute'
  have hcanonical := (assert_permitted_path_eq_ok.mp hok).1
  rw [(assert_permitted_path_eq_ok.mp hok').1] at hcanonical
  simp only [Except.ok.injEq, Prod.mk.injEq] at hcanonical
  obtain ⟨hpath, hrel⟩ := hcanonical
  refine ⟨?_, Target.eq_of_path hpath.symm, hrel.symm⟩
  cases p
  cases p'
  simpa using hp.trans hp'.symm

omit [Host Bytes] in
theorem wp_resolve_project {project_id : String} {Q : Except Err Route → World Bytes → Prop}
    (hrefl : R w w)
    (hok : ∀ w' route, R w w' → executor.registry.get project_id = some route →
      route.root ∈ w'.dirs → Q (.ok route) w')
    (herror : ∀ w' err, R w w' → err.isRecoveryRequired = false →
      (∀ route, executor.registry.get project_id = some route → route.root ∉ w'.dirs) →
        Q (.error err) w') :
    (executor.resolve_project project_id).wp (machine Bytes) i R G Q w := by
  unfold resolve_project
  cases hroute : executor.registry.get project_id with
  | none =>
    refine herror w _ hrefl rfl fun route h => ?_
    rw [hroute] at h
    cases h
  | some route =>
    refine wp_seq.mpr (wp_is_dir fun w₁ hw₁ => ?_)
    refine wp_seq.mpr (wp_raiseIf.mpr ⟨fun hmissing => ?_, fun hpresent => ?_⟩)
    · refine herror w₁ _ hw₁ rfl fun route' h => ?_
      rw [hroute] at h
      cases h
      simpa using hmissing
    · exact hok w₁ route hw₁ hroute (by simpa using hpresent)

/-- What a call works on, once every check before the lock has passed. -/
structure Cleared (executor : GovernedExecutor) (project_id relative_path operation : String)
    (privileged : Bool) (p : ProjectId) (t : Target executor.recovery_store) (c : String) : Prop
    extends Governs executor project_id relative_path operation privileged p t c where
  confirmation : is_within_store t.path executor.confirmation_store = false

omit [Host Bytes] in
/-- The end of the checks before the lock, with the body of the operation. -/
theorem wp_governed {α : Type} {project_id relative_path operation : String} {privileged : Bool}
    {route : Route} {b : Path → String → Jvc Bytes α} {Q : Except Err α → World Bytes → Prop}
    (hroute : executor.registry.get project_id = some route)
    (hrefuse : ∀ err, err.isRecoveryRequired = false →
      (∀ (t : Target executor.recovery_store) c,
        canonical_target route.root relative_path = .ok (t.path, c) → is_secret_path c = false →
          is_control_plane_path c = false →
            is_within_store t.path executor.confirmation_store = true) → Q (.error err) w)
    (hlock : ∀ (p : ProjectId) (t : Target executor.recovery_store) c,
      executor.Cleared project_id relative_path operation privileged p t c →
        (with_lock t.lock (b t.path c)).wp (machine Bytes) i R G Q w) :
    wp (machine Bytes) i R G (do
      let permitted ← Prog.ofExcept
        (assert_permitted_path route.root relative_path operation privileged)
      executor.assert_outside_host_stores permitted.1
      with_lock (target_lock permitted.1) (b permitted.1 permitted.2)) Q w := by
  rw [wp_seq, wp_ofExcept]
  cases hpermitted : assert_permitted_path route.root relative_path operation privileged with
  | error err =>
    have hplain : err.isRecoveryRequired = false := assert_permitted_path_error hpermitted
    refine hrefuse err hplain fun t c hcanonical hsecret hcontrol => ?_
    have hok : assert_permitted_path route.root relative_path operation privileged =
        .ok (t.path, c) := assert_permitted_path_eq_ok.mpr ⟨hcanonical, hsecret, .inr hcontrol⟩
    rw [hpermitted] at hok
    cases hok
  | ok found =>
    obtain ⟨path, c⟩ := found
    obtain ⟨hcanonical, _⟩ := assert_permitted_path_eq_ok.mp hpermitted
    rw [onResult_ok, wp_seq, assert_outside_host_stores, wp_raiseIf]
    refine ⟨fun hinside => ?_, fun houtside => ?_⟩
    · refine hrefuse _ rfl fun t c' hcanonical' _ _ => ?_
      rw [hcanonical] at hcanonical'
      simp only [Except.ok.injEq, Prod.mk.injEq] at hcanonical'
      rw [hcanonical'.1, t.outside, Bool.or_false] at hinside
      exact hinside
    · rw [Bool.or_eq_false_iff] at houtside
      obtain ⟨parts, hparts⟩ := canonical_target_parts hcanonical
      exact hlock route.project_id
        ⟨path, canonical_target_ne hcanonical, hparts.resolved, houtside.2⟩ c
        ⟨⟨ProjectRegistry.get_project_id hroute, route, hroute, hpermitted⟩, houtside.1⟩

attribute [local irreducible] assert_permitted_path

/-- A governed write up to its lock. -/
theorem wp_fs_write_with {authorize : Jvc Bytes Bool} {request : Jvc Bytes WriteReply}
    {project_id relative_path : String} {content : Bytes} {expected : Option String}
    {extra : List String} {Q : Except Err WriteReply → World Bytes → Prop} (hrefl : R w w)
    (hrefuse : ∀ w' err, R w w' → err.isRecoveryRequired = false →
      (∀ route t c, ¬ executor.Ungated project_id relative_path extra w' route t c) →
        Q (.error err) w')
    (hgated : ∀ w' route, R w w' → executor.registry.get project_id = some route →
      needs_cap route relative_path = true →
        (∀ route t c, ¬ executor.Ungated project_id relative_path extra w' route t c) →
          authorize.wp (machine Bytes) i R G (onResult (fun authorized s =>
            (authorized = false → is_control_plane_path relative_path = true →
              ∀ err, err.isRecoveryRequired = false → Q (.error err) s) ∧
            (authorized = false → is_control_plane_path relative_path = false →
              request.wp (machine Bytes) i R G Q s) ∧
            (authorized = true → (executor.write_permitted route project_id relative_path content
              expected true).wp (machine Bytes) i R G Q s)) fun e => Q (.error e)) w')
    (hlock : ∀ w' route (p : ProjectId) (t : Target executor.recovery_store) c, R w w' →
      executor.registry.get project_id = some route → needs_cap route relative_path = false →
        executor.Cleared project_id relative_path "FS_WRITE" false p t c →
          (with_lock t.lock (executor.write_locked project_id t.path c content expected)).wp
            (machine Bytes) i R G Q w') :
    (executor.fs_write_with authorize request project_id relative_path content expected extra).wp
      (machine Bytes) i R G Q w := by
  rw [fs_write_with, wp_seq, wp_raiseIf]
  refine ⟨fun hargs => hrefuse w _ hrefl rfl fun route t c h => ?_, fun _ => ?_⟩
  · rw [h.args] at hargs
    cases hargs
  rw [onResult_ok, wp_seq]
  refine wp_resolve_project hrefl (fun w₁ route hw₁ hroute _ => ?_) fun w₁ err hw₁ herr hno => ?_
  · rw [onResult_ok]
    cases hneed : needs_cap route relative_path with
    | true =>
      simp only [if_true, wp_seq]
      have hno : ∀ route' t c, ¬ executor.Ungated project_id relative_path extra w₁ route' t c := by
        intro route' t c h
        have hfound := h.found
        rw [hroute] at hfound
        cases hfound
        rw [needs_cap, h.plain, Bool.or_false, beq_iff_eq] at hneed
        exact h.active hneed
      refine wp_post (hgated w₁ route hw₁ hroute hneed hno) fun r s hr => ?_
      cases r with
      | error e => exact hr
      | ok authorized =>
        obtain ⟨hdenied, hrequest, hgranted⟩ := hr
        rw [onResult_ok, wp_seq, wp_raiseIf]
        cases authorized with
        | true => exact ⟨fun hcontrol => absurd hcontrol Bool.false_ne_true, fun _ => hgranted rfl⟩
        | false => exact ⟨fun hcontrol => hdenied rfl hcontrol _ rfl, fun hplain => hrequest rfl hplain⟩
    | false =>
      simp only [Bool.false_eq_true, if_false, Bool.false_and]
      change Prog.wp (machine Bytes) i R G (do
        let permitted ← Prog.ofExcept (assert_permitted_path route.root relative_path "FS_WRITE" false)
        executor.assert_outside_host_stores permitted.1
        with_lock (target_lock permitted.1)
          (executor.write_locked project_id permitted.1 permitted.2 content expected)) Q w₁
      refine wp_governed
        (b := fun target c => executor.write_locked project_id target c content expected) hroute
        (fun err herr hall => ?_) fun p t c hcleared => hlock w₁ route p t c hw₁ hroute hneed hcleared
      refine hrefuse w₁ err hw₁ herr fun route' t c h => ?_
      have hfound := h.found
      rw [hroute] at hfound
      cases hfound
      have hconfirmation :=
        hall t c h.permitted.1 h.permitted.2.1 h.permitted.2.2
      rw [h.confirmation] at hconfirmation
      cases hconfirmation
  · exact hrefuse w₁ err hw₁ herr fun route t c h => hno route h.found h.root

/-- A governed write whose authority is already known, up to its lock. -/
theorem wp_fs_write_cleared {project_id relative_path : String} {content : Bytes}
    {expected : Option String} {capability : Bool} {extra : List String}
    {Q : Except Err WriteReply → World Bytes → Prop} (hrefl : R w w)
    (hrefuse : ∀ w' err, R w w' → err.isRecoveryRequired = false →
      (∀ route t c, ¬ executor.Ungated project_id relative_path extra w' route t c) →
        Q (.error err) w')
    (hconfirm : ∀ w', R w w' →
      (∀ route t c, ¬ executor.Ungated project_id relative_path extra w' route t c) →
        Q (.ok (.REQUIRES_CONFIRMATION project_id relative_path)) w')
    (hlock : ∀ w' privileged (p : ProjectId) (t : Target executor.recovery_store) c, R w w' →
      executor.Cleared project_id relative_path "FS_WRITE" privileged p t c →
      (privileged = true → capability = true) →
        (with_lock t.lock (executor.write_locked project_id t.path c content expected)).wp
          (machine Bytes) i R G Q w') :
    (executor.fs_write project_id relative_path content expected capability extra).wp
      (machine Bytes) i R G Q w := by
  refine wp_fs_write_with hrefl hrefuse (fun w₁ route hw₁ hroute _ hno => ?_)
    fun w₁ _ p t c hw₁ _ _ hcleared =>
      hlock w₁ false p t c hw₁ hcleared fun h => absurd h Bool.false_ne_true
  refine ⟨fun _ _ err herr => hrefuse w₁ err hw₁ herr hno, fun _ _ => hconfirm w₁ hw₁ hno,
    fun hgranted => ?_⟩
  exact wp_governed
    (b := fun target c => executor.write_locked project_id target c content expected) hroute
    (fun err herr _ => hrefuse w₁ err hw₁ herr hno) fun p t c hcleared =>
      hlock w₁ true p t c hw₁ hcleared fun _ => hgranted

theorem wp_fs_write {project_id relative_path : String} {content : Bytes}
    {expected : Option String} {capability : Bool} {extra : List String}
    {Q : Except Err WriteReply → World Bytes → Prop} (hrefl : R w w)
    (hrefuse : ∀ w' err, R w w' → err.isRecoveryRequired = false →
      (∀ route t c, ¬ executor.Ungated project_id relative_path extra w' route t c) →
        Q (.error err) w')
    (hconfirm : ∀ w', R w w' →
      (∀ route t c, ¬ executor.Ungated project_id relative_path extra w' route t c) →
        Q (.ok (.REQUIRES_CONFIRMATION project_id relative_path)) w')
    (hlock : ∀ w' privileged (p : ProjectId) (t : Target executor.recovery_store) c, R w w' →
      executor.Governs project_id relative_path "FS_WRITE" privileged p t c →
        (with_lock t.lock (executor.write_locked project_id t.path c content expected)).wp
          (machine Bytes) i R G Q w') :
    (executor.fs_write project_id relative_path content expected capability extra).wp
      (machine Bytes) i R G Q w :=
  wp_fs_write_cleared hrefl hrefuse hconfirm fun w' privileged p t c hw hcleared _ =>
    hlock w' privileged p t c hw hcleared.toGoverns

/-- A governed rollback up to its lock. -/
theorem wp_fs_rollback_cleared {project_id relative_path expected : String}
    {Q : Except Err RollbackResult → World Bytes → Prop} (hrefl : R w w)
    (hrefuse : ∀ w' err, R w w' → err.isRecoveryRequired = false →
      (∀ route t c, ¬ executor.Reaches project_id relative_path w' route t c) → Q (.error err) w')
    (hlock : ∀ w' (p : ProjectId) (t : Target executor.recovery_store) c, R w w' →
      executor.Cleared project_id relative_path "FS_ROLLBACK" false p t c →
        (with_lock t.lock (executor.rollback_locked project_id t.path c expected)).wp
          (machine Bytes) i R G Q w') :
    (executor.fs_rollback project_id relative_path expected).wp (machine Bytes) i R G Q w := by
  rw [fs_rollback, wp_seq]
  refine wp_resolve_project hrefl (fun w₁ route hw₁ hroute _ => ?_) fun w₁ err hw₁ herr hno => ?_
  · rw [onResult_ok]
    refine wp_governed
      (b := fun target c => executor.rollback_locked project_id target c expected) hroute
      (fun err herr hall => ?_) fun p t c hcleared => hlock w₁ p t c hw₁ hcleared
    refine hrefuse w₁ err hw₁ herr fun route' t c h => ?_
    have hfound := h.found
    rw [hroute] at hfound
    cases hfound
    have hconfirmation := hall t c h.permitted.1 h.permitted.2.1 h.permitted.2.2
    rw [h.confirmation] at hconfirmation
    cases hconfirmation
  · exact hrefuse w₁ err hw₁ herr fun route t c h => hno route h.found h.root

theorem wp_fs_rollback {project_id relative_path expected : String}
    {Q : Except Err RollbackResult → World Bytes → Prop} (hrefl : R w w)
    (hrefuse : ∀ w' err, R w w' → err.isRecoveryRequired = false →
      (∀ route t c, ¬ executor.Reaches project_id relative_path w' route t c) → Q (.error err) w')
    (hlock : ∀ w' (p : ProjectId) (t : Target executor.recovery_store) c, R w w' →
      executor.Governs project_id relative_path "FS_ROLLBACK" false p t c →
        (with_lock t.lock (executor.rollback_locked project_id t.path c expected)).wp
          (machine Bytes) i R G Q w') :
    (executor.fs_rollback project_id relative_path expected).wp (machine Bytes) i R G Q w :=
  wp_fs_rollback_cleared hrefl hrefuse fun w' p t c hw hcleared =>
    hlock w' p t c hw hcleared.toGoverns

end jvc.GovernedExecutor
