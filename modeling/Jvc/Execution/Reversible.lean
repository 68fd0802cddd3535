import Jvc.Execution.Outside

open program program.Prog jvc.recovery jvc.policy

namespace jvc

variable {Bytes : Type} [Text] [Host Bytes]

namespace recovery

namespace Journal

variable {i : Pid} {t : Path} {p : ProjectId} {J J' : Journal Bytes} {e : Entry Bytes}
  {expected : Option String} {content : Bytes}

/-- A receipt is the only verified write of its content that nothing supersedes. -/
def OnlyHead (J : Journal Bytes) (project_id post id : String) : Prop :=
  ∀ x, J.Head project_id post x → x.receipt_id = id

omit [Text] [Host Bytes] in
/-- Pointers name older receipts. -/
theorem older_prev {entries : List (Entry Bytes)} (h : Older entries) {x : Entry Bytes}
    (hx : x ∈ entries) {id : String} (hprev : x.kind.prev = some id) :
    id ∈ entries.map Entry.receipt_id := by
  induction entries with
  | nil => cases hx
  | cons y rest ih =>
    rcases List.mem_cons.mp hx with rfl | hold
    · exact List.mem_cons_of_mem _ (h.1 id hprev)
    · exact List.mem_cons_of_mem _ (ih h.2 hold)

/-- Nothing points at the receipt of a write that just went through. -/
theorem Announces.unreferenced (h : J.Announces p e) (hJ : Older J.entries)
    {states : TxState → Bool} {project_id : String} :
    ¬ (J.written i t e content).Points project_id states e.receipt_id := by
  rintro ⟨x, hx, _, _, hprev⟩
  have hknown : e.receipt_id ∈ J.entries.map Entry.receipt_id := by
    rcases List.mem_cons.mp hx with rfl | hold
    · rw [Entry.verified, Entry.mark_kind, Entry.applied_prev] at hprev
      exact h.prev.mem hprev
    · exact older_prev hJ hold hprev
  obtain ⟨y, hy, hid⟩ := List.mem_map.mp hknown
  exact h.fresh y hy hid

/-- A write that just went through is a head. -/
theorem Announces.head (h : J.Announces p e) (hJ : Older J.entries) :
    (J.written i t e content).Head p.text (sha256_bytes content)
      (e.verified (sha256_bytes content)) := by
  have hid : (e.verified (sha256_bytes content)).receipt_id = e.receipt_id :=
    Entry.applied_receipt_id _ _
  refine ⟨⟨List.mem_cons_self, ?_, ?_, rfl, ?_⟩, ?_⟩
  · rw [Entry.verified, Entry.applied_write h.kind]
    exact congrArg ProjectId.text h.project
  · rw [Entry.verified, Entry.applied_write h.kind]
    rfl
  · rw [Entry.verified, Entry.applied_write h.kind]
    rfl
  · rw [hid]
    exact h.unreferenced hJ

/-- A write that just went through leaves nothing pending. -/
theorem Settled.written {project_id : String} (h : J.Settled project_id) :
    (J.written i t e content).Settled project_id := by
  intro x hx hproject
  rcases List.mem_cons.mp hx with rfl | hold
  · rfl
  · exact h x hold hproject

omit [Text] [Host Bytes] in
/-- The heads of a journal are a matter of its receipts. -/
theorem head_congr {project_id post : String} {x : Entry Bytes}
    (h : ∀ y, y ∈ J.entries ↔ y ∈ J'.entries) :
    J.Head project_id post x ↔ J'.Head project_id post x := by
  simp only [Head, Candidate, Points, h]

/-- What the receipt of a write restores is what the write replaced. -/
theorem Announces.before (h : J.Announces p e) :
    (e.verified (sha256_bytes content)).kind.before = J.target := by
  rw [Entry.verified, Entry.applied_write h.kind, Entry.mark_kind, Kind.before, Kind.pre, Kind.backup,
    current]
  cases J.target <;> rfl

end Journal

end recovery

namespace GovernedExecutor

variable {self : GovernedExecutor} {p : ProjectId} {i : Pid} {w w₀ w' : World Bytes}
  {relative_path c : String} {content : Bytes} {expected : Option String} {capability : Bool}
  {extra : List String}

/-- The checks of a rollback before its lock that do not depend on the path
being a control-plane file. -/
structure Placed (executor : GovernedExecutor) (project_id relative_path : String) (w : World Bytes)
    (path : Path) (c : String) : Prop where
  route : ∃ route, executor.registry.get project_id = some route ∧ route.root ∈ w.dirs ∧
    canonical_target route.root relative_path = .ok (path, c)
  secret : is_secret_path c = false
  confirmation : is_within_store path executor.confirmation_store = false

omit [Host Bytes] in
theorem resolve_project_ok {route : Route}
    (h : (self.resolve_project p.text).run (machine Bytes) i w = (.ok route, w')) :
    self.registry.get p.text = some route ∧ route.root ∈ w.dirs ∧ w' = w := by
  have hwp : (self.resolve_project p.text).wp (machine Bytes) i Eq (fun _ _ => True)
      (fun r s => ∀ route, r = .ok route →
        self.registry.get p.text = some route ∧ route.root ∈ w.dirs ∧ s = w) w := by
    refine wp_resolve_project rfl (fun w₁ found hw₁ hfound hroot route hok => ?_)
      fun w₁ err _ _ _ route hok => ?_
    · cases hok
      subst hw₁
      exact ⟨hfound, hroot, rfl⟩
    · cases hok
  have hrun := run_of_wp (fun _ => rfl) hwp
  rw [h] at hrun
  exact hrun route rfl

omit [Text] [Host Bytes] in
theorem raiseIf_ok {condition : Bool} {err : Err} {a : Unit}
    (h : (raiseIf condition err : Jvc Bytes Unit).run (machine Bytes) i w = (.ok a, w')) :
    condition = false ∧ w' = w := by
  cases condition with
  | true => cases h
  | false =>
    cases h
    exact ⟨rfl, rfl⟩

/-- A write that goes through has passed the checks before its lock. -/
theorem write_placed {op q c id post : String} {pre : Option String}
    (h : (self.fs_write p.text relative_path content expected capability extra).run (machine Bytes) i
      w = (.ok (.PASS op q c id pre post), w')) :
    ∃ path c, self.Placed p.text relative_path w path c := by
  rw [fs_write, fs_write_with] at h
  obtain ⟨_, w₁, hargs, h⟩ := run_seq_ok _ _ h
  rw [(raiseIf_ok hargs).2] at h
  obtain ⟨route, w₂, hroute, h⟩ := run_seq_ok _ _ h
  obtain ⟨hfound, hroot, hw₂⟩ := resolve_project_ok hroute
  dsimp only at h
  have hpermitted : ∃ authorized, (self.write_permitted route p.text relative_path content expected
      authorized).run (machine Bytes) i w₂ = (.ok (.PASS op q c id pre post), w') := by
    cases hneed : needs_cap route relative_path with
    | true =>
      rw [hneed] at h
      cases capability with
      | true =>
        obtain ⟨_, w₃, hpure, h⟩ := run_seq_ok _ _ h
        cases hpure
        obtain ⟨_, w₄, hraise, h⟩ := run_seq_ok _ _ h
        rw [(raiseIf_ok hraise).2] at h
        exact ⟨true, h⟩
      | false =>
        obtain ⟨_, w₃, hpure, h⟩ := run_seq_ok _ _ h
        cases hpure
        obtain ⟨_, w₄, hraise, h⟩ := run_seq_ok _ _ h
        cases h
    | false =>
      rw [hneed] at h
      obtain ⟨_, w₃, hpure, h⟩ := run_seq_ok _ _ h
      cases hpure
      obtain ⟨_, w₄, hraise, h⟩ := run_seq_ok _ _ h
      rw [(raiseIf_ok hraise).2] at h
      exact ⟨false, h⟩
  obtain ⟨authorized, h⟩ := hpermitted
  rw [write_permitted] at h
  obtain ⟨⟨path, c'⟩, w₃, hpath, h⟩ := run_seq_ok _ _ h
  obtain ⟨_, w₄, houtside, _⟩ := run_seq_ok _ _ h
  cases hok : assert_permitted_path route.root relative_path "FS_WRITE" authorized with
  | error err =>
    rw [hok] at hpath
    cases hpath
  | ok found =>
    rw [hok] at hpath
    cases hpath
    obtain ⟨hcanonical, hsecret, _⟩ := assert_permitted_path_eq_ok.mp hok
    obtain ⟨hout, _⟩ := raiseIf_ok houtside
    exact ⟨path, c', ⟨route, hfound, hroot, hcanonical⟩, hsecret, (Bool.or_eq_false_iff.mp hout).1⟩

/-- A rollback where nothing is pending: it undoes the only head, or it raises and
leaves the journal as it was. -/
inductive UndoSettled (J : Journal Bytes) (t : Target self.recovery_store) (p : ProjectId)
    (i : Pid) (post : String) : Except Err RollbackResult → World Bytes → Prop
  | undone {w' : World Bytes} {r s : Entry Bytes} (hhead : J.TheHead p.text post s)
      (hat : (J.undone i t.path r s).At none t w') :
      UndoSettled J t p i post (.ok ⟨s.receipt_id, r.receipt_id, t.path, s.undoing⟩) w'
  | denied {w' : World Bytes} {err : Err} (hat : J.At none t w')
      (hdenied : (∀ s, J.TheHead p.text post s → J.Points p.text TxState.blocking s.receipt_id) ∨
        Unallocated err w') : UndoSettled J t p i post (.error err) w'

theorem wp_undo_settled {t : Target self.recovery_store} {J : Journal Bytes}
    (h : Quiescent self.recovery_store Journal.Rooted w) (hat : J.At none t w) (hJ : J.Rooted)
    (hsettled : J.Settled p.text) {data : Bytes} (hdata : J.target = some data)
    {route : Route} (hreach : self.Reaches p.text relative_path w route t c) :
    (self.fs_rollback p.text relative_path (sha256_bytes data)).wp (machine Bytes) i Eq
      (Move self.recovery_store (fun _ _ J => J.Rooted) i)
      (UndoSettled J t p i (sha256_bytes data)) w := by
  refine wp_fs_rollback rfl (fun w' err hw herr hno => ?_) fun w' q t' c' hw hgov => ?_
  · subst hw
    exact absurd hreach (hno route t c)
  subst hw
  have hq := hgov.eq_of_project
  subst hq
  have hgov' : self.Governs q.text relative_path "FS_ROLLBACK" false q t c :=
    ⟨rfl, route, hreach.found, assert_permitted_path_eq_ok.mpr
      ⟨hreach.permitted.1, hreach.permitted.2.1, .inr hreach.permitted.2.2⟩⟩
  obtain ⟨_, rfl, rfl⟩ := hgov.unique hgov'
  have hpost : strip (Text.upper (sha256_bytes data)) = sha256_bytes data := by simp
  have hcurrent : J.current = some (sha256_bytes data) := by simp [Journal.current, hdata]
  refine wp_with_lock_alone (fun _ _ _ hJ => hJ) h.everywhere hat hJ fun w₁ _ hat₁ => ?_
  refine wp_seq.mpr (critical_corrupt_receipt_files hat₁ fun w₂ _ hat₂ => ?_)
  refine wp_seq.mpr (wp_raiseIf.mpr ⟨fun hno => (Bool.false_ne_true hno).elim, fun _ => ?_⟩)
  refine critical_rollback_after (fun J' => J' = J) (fun _ _ => False) hat₂
    (fun hat₃ hdone _ => critical_supersede_pending_settled hat₃ hsettled
      fun w' ids _ hat' => hdone w' J ids hat' rfl)
    (fun J' hJ' => ?_) (fun J' J'' hJ' hstep => ?_) (fun J' J'' hJ' hstep => hstep.rooted hJ')
    (fun w' J' r s hat' hJ' hleft hint _ => ?_) (fun w' J' r s err _ hJ' hleft hint hlost _ => ?_)
    (fun w' err _ hne _ => absurd (hcurrent.trans (congrArg some hpost.symm)) hne)
    (fun w' J' err _ hno => hno.elim) (fun w' J' err post hat' hleft hpost' hblocked => ?_)
    fun w' J' err hat' hleft hrepeat => ?_
  · subst hJ'
    exact ⟨hJ, hsettled, rfl⟩
  · subst hJ'
    exact hstep.rooted hJ
  · subst hleft
    refine ⟨_, hJ', hat', fun w₄ _ hat₄ _ _ => ?_⟩
    rw [hpost] at hint
    exact .undone hint.head hat₄
  · subst hleft
    rw [hJ.sourced.intact s hint.source] at hlost
    cases hlost
  · subst hleft
    rw [hcurrent] at hpost'
    cases hpost'
    exact ⟨J', hJ, hat', fun w₄ _ hat₄ _ _ => .denied hat₄ (.inl hblocked)⟩
  · subst hleft
    exact ⟨J', hJ, hat', fun w₄ hw₄ hat₄ _ _ =>
      .denied hat₄ (.inr (hrepeat.later hw₄))⟩

/-- Where one head is known, the rollback of its content undoes it if it is the
only one. -/
theorem UndoSettled.of_head {J : Journal Bytes} {t : Target self.recovery_store} {post : String}
    {e : Entry Bytes} {result : Except Err RollbackResult}
    (h : UndoSettled J t p i post result w') (hwf : J.Wf)
    (hhead : J.Head p.text post e) (hclear : ¬ J.Points p.text TxState.blocking e.receipt_id) :
    (J.OnlyHead p.text post e.receipt_id →
      ((∃ reply, result = .ok reply) ∧ w'.lookup t.path = e.kind.before) ∨
        ∃ err, result = .error err ∧ Unallocated err w') ∧
    (¬ J.OnlyHead p.text post e.receipt_id →
      (∃ err, result = .error err) ∧ w'.lookup t.path = J.target) := by
  have honly : J.OnlyHead p.text post e.receipt_id ↔ J.TheHead p.text post e :=
    ⟨fun h => ⟨hhead, fun x hx => hwf.eq_of_id hx.1.1 hhead.1.1 (h x hx)⟩,
      fun h x hx => congrArg Entry.receipt_id (h.2 x hx)⟩
  rw [honly]
  cases h with
  | undone hthe hat =>
    have heq := hthe.2 e hhead
    subst heq
    exact ⟨fun _ => .inl ⟨⟨_, rfl⟩, hat.target⟩, fun hno => absurd hthe hno⟩
  | denied hat hdenied =>
    refine ⟨fun hthe => ?_, fun _ => ⟨⟨_, rfl⟩, hat.target⟩⟩
    rcases hdenied with hblocked | hrepeat
    · exact absurd (hblocked e hthe) hclear
    · exact .inr ⟨_, rfl, hrepeat⟩

/-- A control-plane file is never rolled back. -/
theorem undo_control_plane {t : Target self.recovery_store} {route : Route} {post : String}
    {result : Except Err RollbackResult} (h : Quiescent self.recovery_store Journal.Rooted w)
    (hroute : self.registry.get p.text = some route)
    (hcanonical : canonical_target route.root relative_path = .ok (t.path, c))
    (hcontrol : is_control_plane_path c = true)
    (hundo : (self.fs_rollback p.text relative_path post).run (machine Bytes) i w = (result, w')) :
    (∃ err, result = .error err) ∧ w' = w := by
  have hwp : (self.fs_rollback p.text relative_path post).wp (machine Bytes) i Eq
      (Move self.recovery_store (fun _ _ J => J.Rooted) i)
      (fun r w' => Quiescent self.recovery_store Journal.Rooted w' ∧
        UndoEnds Journal.Rooted self p i relative_path post w r w') w :=
    wp_undo_ends lasting_rooted.toStable h
  obtain ⟨_, hend⟩ := run_of_wp (fun _ => rfl) hwp
  rw [hundo] at hend
  have hno : ∀ (t' : Target self.recovery_store) c',
      ¬ self.Governs p.text relative_path "FS_ROLLBACK" false p t' c' := by
    rintro t' c' ⟨_, route', hroute', hpermitted⟩
    rw [hroute] at hroute'
    cases hroute'
    obtain ⟨hpath, _, hgranted | hplain⟩ := assert_permitted_path_eq_ok.mp hpermitted
    · cases hgranted
    · simp only [hcanonical, Except.ok.injEq, Prod.mk.injEq] at hpath
      rw [← hpath.2, hcontrol] at hplain
      cases hplain
  cases hend with
  | refused => exact ⟨⟨_, rfl⟩, rfl⟩
  | denied hgov => exact absurd hgov (hno _ _)
  | undone hgov => exact absurd hgov (hno _ _)

end GovernedExecutor

end jvc

namespace jvc.GovernedExecutor

section Samples

attribute [local instance] asciiText recovery.sampleHost

/-- A write of the sample file, and the host it leaves. -/
def sampleWriting (expected : Option String) (w : World SampleBytes) :
    Except Err WriteReply × World SampleBytes :=
  (sampleExecutor.fs_write sampleProject.text "a.txt" .after expected false []).run
    (machine SampleBytes) 0 w

/-- Its rollback. -/
def sampleUndoing (w : World SampleBytes) : Except Err RollbackResult × World SampleBytes :=
  (sampleExecutor.fs_rollback sampleProject.text "a.txt" "1A").run (machine SampleBytes) 0 w

theorem eq_of_toOption {α : Type} {out : Except Err α × World SampleBytes} {a : α}
    (h : out.1.toOption = some a) : out = (.ok a, out.2) := by
  obtain ⟨result, w⟩ := out
  cases result with
  | error err => cases h
  | ok b =>
    cases h
    rfl

/-- The sample file written, and then changed from outside. -/
def sampleOverwritten : World SampleBytes :=
  (Call.leaves sampleExecutor sampleProject 0 (.fs_write "a.txt" .after none false []) .completes
    sampleFirst).edited sampleTarget.path (some .before)

theorem sampleOverwritten_run : Run sampleExecutor sampleFirst sampleOverwritten := by
  have hcall : Run sampleExecutor sampleFirst _ :=
    .call 0 sampleProject (.fs_write "a.txt" .after none false []) .completes (.nil _)
  exact hcall.edit sampleTarget (some .before)

theorem sampleWriting_created : (sampleWriting none sampleFirst).1.toOption =
    some (.PASS "FILE_CREATE" "demo" "a.txt"
      "recovery-demo-20260101T000000Z-000000000-0123456789ab" none "1A") := by
  decide +kernel

theorem sampleWriting_rewritten : (sampleWriting (some "0A") sampleOverwritten).1.toOption =
    some (.PASS "FILE_EDIT" "demo" "a.txt"
      "recovery-demo-20260101T000002Z-000000000-0123456789ab" (some "0A") "1A") := by
  decide +kernel

theorem sampleUndoing_created :
    (sampleUndoing (sampleWriting none sampleFirst).2).1.isOk = true := by
  decide +kernel

theorem sampleUndoing_rewritten :
    (sampleUndoing (sampleWriting (some "0A") sampleOverwritten).2).1.isOk = false := by
  decide +kernel

theorem sampleUndoing_noRepeat :
    (sampleUndoing (sampleWriting (some "0A") sampleOverwritten).2).2.NoRepeat := by
  have hall : ∀ a, a < (sampleUndoing (sampleWriting (some "0A") sampleOverwritten).2).2.ticks →
      ∀ b, b < (sampleUndoing (sampleWriting (some "0A") sampleOverwritten).2).2.ticks →
        ((sampleUndoing (sampleWriting (some "0A") sampleOverwritten).2).2.drawer a).isSome = true →
          ((sampleUndoing (sampleWriting (some "0A") sampleOverwritten).2).2.drawer b).isSome =
            true → sampleStamps a = sampleStamps b → a = b := by
    decide +kernel
  exact fun a b ha hb => hall a ha b hb

end Samples

end jvc.GovernedExecutor
