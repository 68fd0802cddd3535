import Jvc.Git.Switch

open program program.Prog jvc.recovery jvc.policy

namespace jvc.git

/-- What stands between the two names of a rename that is printed on one line. -/
def arrow : List Char := [' ', '-', '>', ' ']

/-- The only arrow of the text is at its end. -/
def Dangling (cs : List Char) : Prop :=
  arrow <:+ cs ∧ ∀ before behind, cs = before ++ arrow ++ behind → behind = []

/-- What is left of a record without its first three characters, if it has more. -/
def statusEntry (cs : List Char) : List Char := if 3 < cs.length then cs.drop 3 else cs

/-- A record of the status, or the second name of a rename, of which the parser leaves
nothing. -/
def Missed (field : List Char) : Prop := Dangling (statusEntry (lines.translate field))

section Arrows

variable {cs rest : List Char}

/-- The text behind an arrow. -/
theorem arrowTail_some (h : arrowTail cs = some rest) : ∃ before, cs = before ++ arrow ++ rest := by
  induction cs using arrowTail.induct with
  | case1 tail =>
    rw [arrowTail] at h
    cases h
    exact ⟨[], rfl⟩
  | case2 c tail hno ih =>
    rw [arrowTail] at h
    · obtain ⟨before, rfl⟩ := ih h
      exact ⟨c :: before, rfl⟩
    · exact hno
  | case3 => cases h

/-- Behind the first arrow stands all that stands behind another one. -/
theorem arrowTail_first {before behind : List Char} (h : cs = before ++ arrow ++ behind) :
    ∃ rest, arrowTail cs = some rest ∧ behind <:+ rest := by
  induction cs using arrowTail.induct generalizing before with
  | case1 tail =>
    refine ⟨tail, rfl, ?_⟩
    have htail : tail <:+ before ++ arrow ++ behind := ⟨arrow, h⟩
    have hlength := congrArg List.length h
    simp only [List.length_cons, List.length_append, arrow, List.length_nil] at hlength
    exact List.suffix_of_suffix_length_le (List.suffix_append _ _) htail (by omega)
  | case2 c tail hno ih =>
    cases before with
    | nil => exact (hno behind (List.cons.inj h).1 (List.cons.inj h).2).elim
    | cons d before =>
      obtain ⟨rest, hrest, hbehind⟩ := ih (List.cons.inj h).2
      refine ⟨rest, ?_, hbehind⟩
      rw [arrowTail]
      · exact hrest
      · exact hno
  | case3 =>
    have hlength := congrArg List.length h
    simp [arrow] at hlength

/-- Nothing stands behind the first arrow exactly where the only one ends the text. -/
theorem arrowTail_eq_nil_iff : arrowTail cs = some [] ↔ Dangling cs := by
  constructor
  · intro h
    obtain ⟨before, hcs⟩ := arrowTail_some h
    rw [List.append_nil] at hcs
    refine ⟨⟨before, hcs.symm⟩, fun before' behind hother => ?_⟩
    obtain ⟨rest, hrest, hbehind⟩ := arrowTail_first hother
    rw [h] at hrest
    cases hrest
    exact List.suffix_nil.mp hbehind
  · rintro ⟨⟨before, hcs⟩, honly⟩
    have hends : cs = before ++ arrow ++ [] := by rw [List.append_nil, hcs]
    obtain ⟨rest, hrest, -⟩ := arrowTail_first hends
    obtain ⟨before', hother⟩ := arrowTail_some hrest
    rw [hrest, honly before' rest hother]

theorem statusEntry_ne_nil (h : cs ≠ []) : statusEntry cs ≠ [] := by
  rw [statusEntry]
  split
  · rename_i hlong
    intro hnil
    rw [List.drop_eq_nil_iff] at hnil
    omega
  · exact h

/-- The parser leaves nothing of a record exactly where its only arrow ends it. -/
theorem dirtyEntry_eq_empty (h : cs ≠ []) :
    dirtyEntry (String.ofList cs) = "" ↔ Dangling (statusEntry cs) := by
  rw [← arrowTail_eq_nil_iff, dirtyEntry, String.toList_ofList, ← statusEntry]
  cases htail : arrowTail (statusEntry cs) with
  | none =>
    rw [Option.getD_none, String.ofList_eq_empty_iff]
    exact ⟨fun hnil => absurd hnil (statusEntry_ne_nil h), fun hnone => by cases hnone⟩
  | some rest =>
    rw [Option.getD_some, String.ofList_eq_empty_iff, Option.some.injEq]

end Arrows

section Guarding

variable [Letters]

/-- Git prints the given fields as the status of the repository, whatever its state. -/
def ReportsStatus {σ : Type} (A : Answers σ) (root : Path) (fields : List (List Char)) : Prop :=
  ∀ host, ∃ err, (A.answer (.command root ["status", "--porcelain=v1", "-z"]) host).1 =
    .exited 0 (some (String.ofList (lines.printed fields))) (some err)

/-- No dirty entry means that nothing was reported, and where something was no branch is
switched. -/
structure Guarded {σ : Type} (A : Answers σ) (root : Path) (fields : List (List Char)) : Prop where
  entries : ∀ s u, (dirty_worktree root).run (machine A) () s = (.ok [], u) → fields = []
  switch : ∀ route project_id branch args s t, route.root = root →
    (branch_locked route project_id branch).Reaches (machine A) ()
      (.command root ("switch" :: args)) t s → fields = []

omit [Letters] in
/-- What the parser returns of a status that was printed. -/
theorem run_dirty_worktree {σ : Type} {A : Answers σ} {root : Path} {fields : List (List Char)}
    (h : ReportsStatus A root fields) (hfields : ∀ f ∈ fields, f ≠ [] ∧ '\x00' ∉ f)
    (s : Session σ) :
    ∃ u, (dirty_worktree root).run (machine A) () s =
      (.ok ((((fields.map fun f => dirtyEntry (String.ofList (lines.translate f))).filter
        (· ≠ "")).map unslashed)), u) := by
  obtain ⟨err, hanswer⟩ := h s.host
  have htranslated : ∀ f ∈ fields.map lines.translate, f ≠ [] ∧ '\x00' ∉ f := by
    intro f hf
    obtain ⟨field, hfield, rfl⟩ := List.mem_map.mp hf
    exact ⟨lines.translate_ne_nil (hfields field hfield).1,
      lines.nul_not_mem_translateFrom false (hfields field hfield).2⟩
  have hentries : entries (translated (String.ofList (lines.printed fields))) =
      (fields.map lines.translate).map String.ofList := by
    rw [entries, translated, String.toList_ofList, String.toList_ofList, lines.translate_printed,
      lines.records_printed htranslated]
  refine ⟨{ s with host := (A.answer (.command root ["status", "--porcelain=v1", "-z"]) s.host).2 }, ?_⟩
  unfold dirty_worktree
  rw [run_seq _ _ (run_git_answer hanswer), run_seq _ _ (raiseIf_pass (by rfl)), hentries,
    List.map_map, List.map_map]
  rfl

omit [Letters] in
theorem dirty_eq_nil_iff {fields : List (List Char)} (hfields : ∀ f ∈ fields, f ≠ []) :
    (((fields.map fun f => dirtyEntry (String.ofList (lines.translate f))).filter
      (· ≠ "")).map unslashed) = [] ↔ ∀ f ∈ fields, Missed f := by
  rw [List.map_eq_nil_iff, List.filter_eq_nil_iff, List.forall_mem_map]
  refine forall₂_congr fun f hf => ?_
  rw [Missed, ← dirtyEntry_eq_empty (lines.translate_ne_nil (hfields f hf))]
  simp

/-- What the commands of the audit and of the status print in a repository at `root`. -/
def reporting (fields : List (List Char)) (root : Path) (args : List String) : String :=
  match args.head? with
  | some "status" => String.ofList (lines.printed fields)
  | some "rev-parse" => root ++ "\n"
  | some "config" => "file:.git/config\tcore.bare=false\n"
  | _ => ""

/-- A host whose git reports the given fields. -/
def listing (fields : List (List Char)) : Answers Unit where
  answer
    | .is_dir _, _ => (true, ())
    | .is_file _, _ => (false, ())
    | .read_text _, _ => (none, ())
    | .command root args, _ => (.exited 0 (some (reporting fields root args)) (some ""), ())
    | .command_capped _ _ _, _ => (.error .TimeoutExpired, ())
    | .owned _, _ => ([], ())
    | .own _ _, _ => ((), ())
    | .disown _, _ => ((), ())
    | .acquire _, _ => (true, ())
    | .release _, _ => ((), ())

/-- A branch that is switched to has passed the check of the worktree. -/
theorem branch_locked_clean {σ : Type} {A : Answers σ} {route : Route} {project_id branch : String}
    {args : List String} {s t : Session σ}
    (h : (branch_locked route project_id branch).Reaches (machine A) ()
      (.command route.root ("switch" :: args)) t s) :
    ∃ u v, (dirty_worktree route.root).run (machine A) () u = (.ok [], v) := by
  unfold branch_locked at h
  have haudit : (assert_safe_git_mutation route.root).Within (Audits route.root) fun _ => True :=
    assert_safe_git_mutation_within
  obtain ⟨_, u, -, h⟩ := haudit.reaches_rest (fun hop => ne_switch hop.keeps rfl) h
  have hcheck : (run_git route.root ["check-ref-format", "--branch", branch]).Within
      (fun op => op.changes = false) fun _ => True := within_run_git rfl
  obtain ⟨check, v, -, h⟩ := hcheck.reaches_rest (fun hop => ne_switch hop rfl) h
  obtain ⟨-, h⟩ := reaches_raiseIf_seq h
  have hstatus : (dirty_worktree route.root).Within (fun op => op.changes = false) fun _ => True :=
    dirty_worktree_within rfl
  obtain ⟨dirty, w, hdirty, h⟩ := hstatus.reaches_rest (fun hop => ne_switch hop rfl) h
  obtain ⟨hclean, -⟩ := reaches_raiseIf_seq h
  cases dirty with
  | nil => exact ⟨v, w, hdirty⟩
  | cons d rest => cases hclean

/-- A status of any records blocks the switch, unless it has records and the parser misses
them all. -/
theorem status_guarded_iff {fields : List (List Char)}
    (hfields : ∀ f ∈ fields, f ≠ [] ∧ '\x00' ∉ f) :
    (∀ (σ : Type) (A : Answers σ) (root : Path), ReportsStatus A root fields →
      Guarded A root fields) ↔ fields = [] ∨ ∃ f ∈ fields, ¬ Missed f := by
  have hnonempty : ∀ f ∈ fields, f ≠ [] := fun f hf => (hfields f hf).1
  constructor
  · intro h
    by_cases hmissed : ∀ f ∈ fields, Missed f
    · left
      have hreports : ReportsStatus (listing fields) "" fields := fun _ => ⟨"", rfl⟩
      obtain ⟨u, hrun⟩ := run_dirty_worktree hreports hfields idle
      rw [(dirty_eq_nil_iff hnonempty).mpr hmissed] at hrun
      exact (h Unit (listing fields) "" hreports).entries idle u hrun
    · right
      simpa only [not_forall, exists_prop] using hmissed
  · intro h σ A root hreports
    have hentries : ∀ s u, (dirty_worktree root).run (machine A) () s = (.ok [], u) →
        fields = [] := by
      intro s u hrun
      obtain ⟨v, hrun'⟩ := run_dirty_worktree hreports hfields s
      rw [hrun] at hrun'
      have hnone := (dirty_eq_nil_iff hnonempty).mp (Except.ok.inj (Prod.mk.inj hrun').1).symm
      obtain hempty | ⟨f, hf, hshown⟩ := h
      · exact hempty
      · exact absurd (hnone f hf) hshown
    refine ⟨hentries, fun route project_id branch args s t hroot hreaches => ?_⟩
    subst hroot
    obtain ⟨u, v, hrun⟩ := branch_locked_clean hreaches
    exact hentries u v hrun

end Guarding

section Samples

attribute [local instance] asciiLetters

/-- One untracked file whose name ends with an arrow. -/
def arrowStatus : List (List Char) := ["?? a -> ".toList]

theorem plain_status_guarded :
    Guarded (listing ["?? a.txt".toList]) "/w/app" ["?? a.txt".toList] := by
  have hfields : ∀ f ∈ ["?? a.txt".toList], f ≠ [] ∧ '\x00' ∉ f := by decide
  refine (status_guarded_iff hfields).mpr (.inr ⟨_, List.mem_singleton_self _, fun hmissed => ?_⟩)
    Unit _ _ fun _ => ⟨"", rfl⟩
  exact absurd hmissed.1 (by decide)

/-- The worktree with that file is taken for a clean one. -/
theorem arrow_status_missed : ¬ ∀ fields : List (List Char), (∀ f ∈ fields, f ≠ [] ∧ '\x00' ∉ f) →
    ∀ (σ : Type) (A : Answers σ) (root : Path), ReportsStatus A root fields →
      Guarded A root fields := by
  intro h
  have hfields : ∀ f ∈ arrowStatus, f ≠ [] ∧ '\x00' ∉ f := by decide
  have hreports : ReportsStatus (listing arrowStatus) "/w/app" arrowStatus := fun _ => ⟨"", rfl⟩
  obtain ⟨u, hrun⟩ := run_dirty_worktree hreports hfields idle
  have hnone : (((arrowStatus.map fun f => dirtyEntry (String.ofList (lines.translate f))).filter
      (· ≠ "")).map unslashed) = [] := by
    decide +kernel
  rw [hnone] at hrun
  have hempty := (h arrowStatus hfields Unit _ _ hreports).entries idle u hrun
  cases hempty

end Samples

end jvc.git
