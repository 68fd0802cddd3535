import Jvc.Git.Exact

open program program.Prog jvc.recovery jvc.policy

namespace jvc.git

variable {σ : Type}

section Names

/-- Blanks at the end of a text are cut off. -/
def rstrip (cs : List Char) : List Char := (cs.reverse.dropWhile isSpace).reverse

theorem strip_eq (s : String) : strip s = String.ofList (rstrip (s.toList.dropWhile isSpace)) := rfl

theorem dropWhile_translate (cr : Bool) (cs : List Char) :
    (lines.translateFrom cr cs).dropWhile isSpace = lines.translate (cs.dropWhile isSpace) := by
  induction cs generalizing cr with
  | nil => rfl
  | cons c cs ih =>
    rw [lines.translateFrom]
    split
    · rename_i hc
      rw [List.dropWhile_cons_of_pos (by decide), ih, hc, List.dropWhile_cons_of_pos (by decide)]
    · rename_i hc
      split
      · rename_i hline
        rw [ih, hline.2, List.dropWhile_cons_of_pos (by decide)]
      · cases hspace : isSpace c with
        | true => rw [List.dropWhile_cons_of_pos hspace, List.dropWhile_cons_of_pos hspace, ih]
        | false =>
          rw [List.dropWhile_cons_of_neg (by simp [hspace]),
            List.dropWhile_cons_of_neg (by simp [hspace]), lines.translate, lines.translateFrom,
            if_neg hc, if_neg (by simp)]

/-- A text is what is left of it and blanks, and what is left ends in none. -/
theorem rstrip_spec (cs : List Char) : ∃ blanks, cs = rstrip cs ++ blanks ∧
    (∀ ch ∈ blanks, isSpace ch = true) ∧
      (rstrip cs = [] ∨ ∃ front last, rstrip cs = front ++ [last] ∧ isSpace last = false) := by
  refine ⟨(cs.reverse.takeWhile isSpace).reverse, ?_, fun ch hch => ?_, ?_⟩
  · rw [rstrip, ← List.reverse_append, List.takeWhile_append_dropWhile, List.reverse_reverse]
  · exact List.mem_takeWhile_imp (List.mem_reverse.mp hch)
  · unfold rstrip
    cases hdrop : cs.reverse.dropWhile isSpace with
    | nil => exact .inl rfl
    | cons last front =>
      refine .inr ⟨front.reverse, last, by rw [List.reverse_cons], ?_⟩
      have hlast := List.head?_dropWhile_not isSpace cs.reverse
      rw [hdrop] at hlast
      simpa using hlast

theorem rstrip_append_blanks {cs blanks : List Char} (h : ∀ ch ∈ blanks, isSpace ch = true) :
    rstrip (cs ++ blanks) = rstrip cs := by
  rw [rstrip, List.reverse_append, List.dropWhile_append_of_pos, rstrip]
  exact fun ch hch => h ch (List.mem_reverse.mp hch)

theorem rstrip_of_last {front : List Char} {last : Char} (h : isSpace last = false) :
    rstrip (front ++ [last]) = front ++ [last] := by
  rw [rstrip, List.reverse_append, List.reverse_singleton, List.singleton_append,
    List.dropWhile_cons_of_neg (by simp [h]), List.reverse_cons, List.reverse_reverse]

theorem translate_blanks {blanks : List Char} (h : ∀ ch ∈ blanks, isSpace ch = true) :
    ∀ ch ∈ lines.translate blanks, isSpace ch = true := by
  have hnil := dropWhile_translate false blanks
  rw [List.dropWhile_eq_nil_iff.mpr h] at hnil
  exact List.dropWhile_eq_nil_iff.mp hnil

/-- Reading a text with universal newlines changes nothing of what is left of it once
its blanks are cut off, or leaves a line feed there in place of a carriage return. -/
theorem strip_translate (cs : List Char) :
    rstrip (lines.translate cs) = rstrip cs ∨
      ('\r' ∈ rstrip cs ∧ '\n' ∈ rstrip (lines.translate cs)) := by
  obtain ⟨blanks, hcs, hblanks, hlast⟩ := rstrip_spec cs
  by_cases hcr : '\r' ∈ rstrip cs
  · refine .inr ⟨hcr, ?_⟩
    obtain hnil | ⟨front, last, heq, hspace⟩ := hlast
    · rw [hnil] at hcr
      cases hcr
    · have hends : last ≠ '\r' ∧ last ≠ '\n' := by
        constructor <;> rintro rfl <;> exact absurd hspace (by decide)
      have hfront : '\r' ∈ front := by
        rw [heq] at hcr
        rcases List.mem_append.mp hcr with hcr | hcr
        · exact hcr
        · exact absurd (List.mem_singleton.mp hcr).symm hends.1
      rw [hcs, heq, List.append_assoc, List.singleton_append, lines.translate,
        lines.translateFrom_append_cons _ _ _ hends.1 hends.2, List.append_cons,
        rstrip_append_blanks (translate_blanks hblanks), rstrip_of_last hspace]
      exact List.mem_append_left _ (lines.mem_translateFrom false hfront)
  · refine .inl ?_
    rw [hcs, lines.translate_append hcr, rstrip_append_blanks hblanks,
      rstrip_append_blanks (translate_blanks hblanks)]

variable [Text] {root : Path} {x y : String} {r : Path × String}

theorem canonical_target_congr
    (h : strip (String.ofList (slashes x)) = strip (String.ofList (slashes y)))
    (hx : canonical_target root x = .ok r) : canonical_target root y = .ok r := by
  unfold canonical_target at hx ⊢
  rw [← h]
  extract_lets at hx ⊢
  split at hx
  · cases hx
  · rename_i hempty
    rw [if_neg hempty]
    split at hx
    · cases hx
    · rename_i hdevice
      rw [if_neg hdevice]
      exact hx

theorem canonical_target_control {ch : Char} (hcontrol : controlChar ch = true)
    (h : ch ∈ (strip (String.ofList (slashes x))).toList) : canonical_target root x ≠ .ok r := by
  unfold canonical_target
  extract_lets clean cs base target
  have hany : cs.any controlChar = true := List.any_eq_true.mpr ⟨ch, h, hcontrol⟩
  rw [hany, Bool.true_or, if_pos rfl]
  split
  · simp
  · split <;> simp

def slashed (ch : Char) : Char := if ch = '\\' then '/' else ch

omit [Text] in
theorem slashed_slashed (ch : Char) : slashed (slashed ch) = slashed ch := by
  unfold slashed
  split <;> simp_all

omit [Text] in
theorem translate_map_slashed (cr : Bool) (cs : List Char) :
    (lines.translateFrom cr cs).map slashed = lines.translateFrom cr (cs.map slashed) := by
  induction cs generalizing cr with
  | nil => rfl
  | cons c cs ih =>
    have hends : ∀ d : Char, d ≠ '/' → d ≠ '\\' → (slashed c = d ↔ c = d) := by
      intro d hslash hback
      unfold slashed
      split
      · rename_i hc
        subst hc
        exact ⟨fun h => absurd h.symm hslash, fun h => absurd h.symm hback⟩
      · rfl
    have hcr := hends '\r' (by decide) (by decide)
    have hline := hends '\n' (by decide) (by decide)
    rw [List.map_cons, lines.translateFrom, lines.translateFrom]
    by_cases hc : c = '\r'
    · rw [if_pos hc, if_pos (hcr.mpr hc), List.map_cons, ih]
      rfl
    · rw [if_neg hc, if_neg (fun h => hc (hcr.mp h))]
      by_cases hl : cr ∧ c = '\n'
      · rw [if_pos hl, if_pos ⟨hl.1, hline.mpr hl.2⟩, ih]
      · rw [if_neg hl, if_neg (fun h => hl ⟨h.1, hline.mp h.2⟩), List.map_cons, ih]

omit [Text] in
/-- What is left of the name that is read. -/
theorem slashes_staged (cs : List Char) :
    slashes (stagedName cs) = lines.translate (cs.map slashed) := by
  rw [stagedName, unslashed, slashes, String.toList_ofList, slashes, String.toList_ofList]
  change ((lines.translate cs).map slashed).map slashed = _
  rw [List.map_map, show slashed ∘ slashed = slashed from funext slashed_slashed]
  exact translate_map_slashed false cs

/-- The gate sees a listed name as it sees the name itself. -/
theorem canonical_target_staged (name : String) :
    canonical_target root (stagedName name.toList) = .ok r ↔ canonical_target root name = .ok r := by
  have hname : slashes name = name.toList.map slashed := rfl
  have hstaged := slashes_staged name.toList
  have hcut := strip_translate ((name.toList.map slashed).dropWhile isSpace)
  rw [← dropWhile_translate false] at hcut
  have hleft : (strip (String.ofList (slashes (stagedName name.toList)))).toList =
      rstrip ((lines.translateFrom false (name.toList.map slashed)).dropWhile isSpace) := by
    rw [hstaged, strip_eq, String.toList_ofList, String.toList_ofList]
    rfl
  have hright : (strip (String.ofList (slashes name))).toList =
      rstrip ((name.toList.map slashed).dropWhile isSpace) := by
    rw [hname, strip_eq, String.toList_ofList, String.toList_ofList]
  rw [← hleft, ← hright] at hcut
  obtain heq | ⟨hcr, hline⟩ := hcut
  · have hsame := String.toList_injective heq
    exact ⟨canonical_target_congr hsame, canonical_target_congr hsame.symm⟩
  · exact ⟨fun h => absurd h (canonical_target_control (by decide) hline),
      fun h => absurd h (canonical_target_control (by decide) hcr)⟩

end Names

/-- The path passes the gate of a branch switch. -/
def GitPath.Permitted [Text] (root : Path) : GitPath → Prop
  | .text name _ _ => ∃ found, assert_permitted_path root name "GIT_BRANCH" false = .ok found
  | .raw _ => False

/-- A rename goes from a path of the old tree alone to one of the new tree alone. -/
def OnlyRenames (renames : Repo → List (GitPath × GitPath)) : Prop :=
  ∀ r old new, (old, new) ∈ renames r → (r.head.lookup old).isSome ∧ r.index.lookup old = none ∧
    r.head.lookup new = none ∧ (r.index.lookup new).isSome

def switch_args (branch : String) : List String := ["diff", "--name-only", "-z", "HEAD", branch, "--"]

/-- What is assumed of git, with a tree in the place of the index: it lists the paths
that differ between HEAD and the tree that the name denotes as a revision, verbatim,
each once and in an order of its own, a detected rename under its new name only.
`git switch` takes the tree of the branch, which is another one where a tag has the
name of the branch. -/
structure ListsSwitch (A : Answers σ) (view named : Path → String → σ → Repo)
    (renames : Repo → List (GitPath × GitPath)) : Prop where
  listing : ∀ root branch s out err,
    (A.answer (.command root (switch_args branch)) s).1 = .exited 0 out err →
      ∃ names, names.Perm ((named root branch s).listed renames) ∧ out = printedNames names
  head : ∀ root branch s, (named root branch s).head = (view root branch s).head
  keeps : ∀ root branch s,
    named root branch (A.answer (.command root (switch_args branch)) s).2 = named root branch s

def unsafeBranch (branch : String) : Bool :=
  branch == "" || branch.toList.head? == some '-' || branch.toList.any controlChar

/-- There is an output of git that is read as the path of the root. -/
def Reportable (root : Path) : Prop := ∃ out, resolved (strip (translated out)) = resolved root

section Permission

variable [Letters] {root : Path} {operation : String} {names : List String}

theorem assert_all_permitted_ok : assert_all_permitted root operation names = .ok () ↔
    ∀ x ∈ names, ∃ found, assert_permitted_path root x operation false = .ok found := by
  induction names with
  | nil => simp [assert_all_permitted]
  | cons x rest ih =>
    rw [List.forall_mem_cons, ← ih, assert_all_permitted]
    cases assert_permitted_path root x operation false with
    | error err => simp [Bind.bind, Except.bind]
    | ok found => simp [Bind.bind, Except.bind]

/-- The gate lets a listed name pass exactly if it lets the path pass. -/
theorem permitted_listed (name : String) :
    (∃ found, assert_permitted_path root (stagedName name.toList) operation false = .ok found) ↔
      ∃ found, assert_permitted_path root name operation false = .ok found := by
  simp only [Prod.exists, assert_permitted_path_eq_ok, canonical_target_staged]

/-- All listed paths pass the gate exactly if git prints them as text and the names
that are read pass. -/
theorem permitted_printed {ns : List GitPath} :
    (∀ n ∈ ns, n.Permitted root) ↔ ∃ out, printedNames ns = some out ∧
      assert_all_permitted root "GIT_BRANCH" ((entries (translated out)).map unslashed) = .ok () := by
  constructor
  · intro h
    have htext : ns.all GitPath.isText = true := by
      rw [List.all_eq_true]
      intro n hn
      cases n with
      | text => rfl
      | raw => exact (h _ hn).elim
    have hprinted : printedNames ns = some (String.ofList (lines.printed (ns.map GitPath.chars))) :=
      if_pos htext
    refine ⟨_, hprinted, assert_all_permitted_ok.mpr ?_⟩
    rw [entries_printed hprinted]
    intro x hx
    obtain ⟨n, hn, rfl⟩ := List.mem_map.mp hx
    cases n with
    | text name nonempty flat => exact (permitted_listed name).mpr (h _ hn)
    | raw bytes => exact (h _ hn).elim
  · rintro ⟨out, hprinted, hall⟩ n hn
    rw [assert_all_permitted_ok, entries_printed hprinted] at hall
    cases n with
    | text name nonempty flat =>
      exact (permitted_listed name).mp (hall _ (List.mem_map.mpr ⟨_, hn, rfl⟩))
    | raw bytes =>
      unfold printedNames at hprinted
      split at hprinted
      · rename_i htext
        exact absurd (List.all_eq_true.mp htext _ hn) Bool.false_ne_true
      · cases hprinted

end Permission

section Reaching

variable [Letters] {A : Answers σ} {registry : ProjectRegistry} {s t u : Session σ}
  {root : Path} {branch : String}

omit [Letters] in
theorem ofExcept_run {r : Except Err Unit} {a : Unit}
    (h : (Prog.ofExcept r : Git Unit).run (machine A) () s = (.ok a, u)) : r = .ok () ∧ u = s := by
  cases r with
  | ok b =>
    cases h
    exact ⟨rfl, rfl⟩
  | error err => cases h

/-- The check of a switch that succeeds has seen only permitted names. -/
theorem assert_switch_targets_safe_run {a : Unit}
    (h : (assert_switch_targets_safe root branch).run (machine A) () s = (.ok a, u)) :
    ∃ out err, (A.answer (.command root (switch_args branch)) s.host).1 = .exited 0 (some out) err ∧
      assert_all_permitted root "GIT_BRANCH" ((entries (translated out)).map unslashed) = .ok () ∧
        u = { s with host := (A.answer (.command root (switch_args branch)) s.host).2 } := by
  unfold assert_switch_targets_safe at h
  obtain ⟨proc, v, hproc, hrest⟩ := run_seq_ok _ _ h
  obtain ⟨hdone, hv⟩ := run_git_run hproc
  obtain ⟨returncode, out, err, hran, rfl⟩ := completed_ok hdone
  obtain ⟨a', w, hraise, hend⟩ := run_seq_ok _ _ hrest
  obtain ⟨hcode, hw⟩ := raiseIf_run hraise
  have hzero : returncode = 0 := by simpa using hcode
  obtain ⟨hall, hu⟩ := ofExcept_run hend
  rw [hu, hw, hv]
  refine ⟨out, some err, ?_, hall, rfl⟩
  rw [← hzero]
  exact hran

/-- A repository that passes its audit has its root as git reports it. -/
theorem assert_safe_git_mutation_run {a : Unit}
    (h : (assert_safe_git_mutation root).run (machine A) () s = (.ok a, u)) : Reportable root := by
  unfold assert_safe_git_mutation at h
  obtain ⟨a', v, hrepo, -⟩ := run_seq_ok _ _ h
  unfold assert_safe_git_repo at hrepo
  obtain ⟨proc, w, hproc, hrest⟩ := run_seq_ok _ _ hrepo
  obtain ⟨returncode, out, err, -, rfl⟩ := completed_ok (run_git_run hproc).1
  obtain ⟨a', w', hraise, hrest'⟩ := run_seq_ok _ _ hrest
  obtain ⟨a'', w'', hraise', -⟩ := run_seq_ok _ _ hrest'
  have hsame := (raiseIf_run hraise').1
  exact ⟨out, by simpa using hsame⟩

omit [Letters] in
theorem ne_switch {op : Op} {root' : Path} {args : List String} (h : op.changes = false) :
    op ≠ .command root' ("switch" :: args) := by
  rintro rfl
  cases h

theorem assert_switch_targets_safe_within :
    (assert_switch_targets_safe root branch).Within (fun op => op.changes = false)
      fun _ => True := by
  unfold assert_switch_targets_safe
  exact within_checked rfl fun _ => .ofExcept fun _ _ => trivial

omit [Letters] in
theorem dirty_worktree_within {P : Op → Prop}
    (h : P (.command root ["status", "--porcelain=v1", "-z"])) :
    (dirty_worktree root).Within P fun _ => True := by
  unfold dirty_worktree
  exact within_checked h fun _ => .ret trivial

/-- When an existing branch is switched to, the check of the switch has succeeded. -/
theorem branch_locked_reaches {route : Route} {project_id : String}
    (h : (branch_locked route project_id branch).Reaches (machine A) ()
      (.command root ["switch", branch]) t s) :
    Reportable route.root ∧ ∃ u a,
      (assert_switch_targets_safe route.root branch).run (machine A) () u = (.ok a, t) := by
  unfold branch_locked at h
  have haudit : (assert_safe_git_mutation route.root).Within (Audits route.root) fun _ => True :=
    assert_safe_git_mutation_within
  obtain ⟨_, u, hu, h⟩ := haudit.reaches_rest (fun hop => ne_switch hop.keeps rfl) h
  refine ⟨assert_safe_git_mutation_run hu, ?_⟩
  have hlook : ∀ args : List String, (Op.command route.root args).changes = false →
      (run_git route.root args).Within (fun op => op.changes = false) fun _ => True :=
    fun args hargs => within_run_git hargs
  obtain ⟨check, v, -, h⟩ := (hlook _ rfl).reaches_rest (fun hop => ne_switch hop rfl) h
  obtain ⟨-, h⟩ := reaches_raiseIf_seq h
  obtain ⟨dirty, w, -, h⟩ := (dirty_worktree_within
    (P := fun op => op.changes = false) rfl).reaches_rest (fun hop => ne_switch hop rfl) h
  obtain ⟨-, h⟩ := reaches_raiseIf_seq h
  obtain ⟨found, x, -, h⟩ := (hlook _ rfl).reaches_rest (fun hop => ne_switch hop rfl) h
  cases hpresent : found.returncode == 0 with
  | false =>
    simp only [hpresent, Bool.false_eq_true, if_false] at h
    rcases h.of_seq with hcreate | ⟨proc, y, -, hend⟩
    · obtain ⟨-, hsame⟩ := command_reached hcreate
      cases hsame
    · obtain ⟨-, hend⟩ := reaches_raiseIf_seq hend
      cases hend
  | true =>
    simp only [hpresent, if_true] at h
    obtain ⟨a, y, hy, h⟩ := assert_switch_targets_safe_within.reaches_rest
      (fun hop => ne_switch hop rfl) h
    rcases h.of_seq with hswitch | ⟨proc, z, -, hend⟩
    · obtain ⟨rfl, -⟩ := command_reached hswitch
      exact ⟨x, a, hy⟩
    · obtain ⟨-, hend⟩ := reaches_raiseIf_seq hend
      cases hend

theorem git_branch_reaches {project_id branch_name : String}
    (h : (git_branch registry project_id branch_name).Reaches (machine A) ()
      (.command root ["switch", strip branch_name]) t s) :
    unsafeBranch (strip branch_name) = false ∧ ∃ route, registry.get project_id = some route ∧
      Reportable route.root ∧ ∃ u a,
        (assert_switch_targets_safe route.root (strip branch_name)).run (machine A) () u =
          (.ok a, t) := by
  obtain ⟨route, u, hroute, -, h⟩ := applicable_reaches (I := fun _ => True)
    (fun _ _ _ _ => trivial) trivial (fun hop => ne_switch hop.keeps rfl) h
  obtain ⟨hsafe, h⟩ := reaches_raiseIf_seq h
  obtain ⟨v, -, h⟩ := with_git_lock_reaches (I := fun _ => True) (fun _ _ => trivial) trivial
    (by simp) (by simp) h
  exact ⟨hsafe, route, hroute, branch_locked_reaches h⟩

end Reaching

section Obliging

variable [Letters] {registry : ProjectRegistry} {project_id branch_name top : String}
  {diff : Option String} {route : Route}

/-- A host that lets everything pass: git reports `top` as the worktree and `diff` as
the paths of a switch. -/
def obliging (top : String) (diff : Option String) : Answers Unit where
  answer
    | .is_dir _, _ => (true, ())
    | .is_file _, _ => (false, ())
    | .read_text _, _ => (none, ())
    | .command _ args, _ =>
      (.exited 0 (if args.head? = some "rev-parse" then some top
        else if args.head? = some "diff" then diff else some "") (some ""), ())
    | .command_capped _ _ _, _ => (.error .TimeoutExpired, ())
    | .owned _, _ => ([], ())
    | .own _ _, _ => ((), ())
    | .disown _, _ => ((), ())
    | .acquire _, _ => (true, ())
    | .release _, _ => ((), ())

def idle : Session Unit := ⟨(), fun _ => []⟩

omit [Letters] in
theorem run_git_obliging {root : Path} {args : List String} {out : String}
    (h : (if args.head? = some "rev-parse" then some top
      else if args.head? = some "diff" then diff else some "") = some out) :
    (run_git root args).run (machine (obliging top diff)) () idle =
      (.ok ⟨0, translated out, ""⟩, idle) := by
  have hanswer : ((obliging top diff).answer (.command root args) idle.host).1 =
      .exited 0 (some out) (some "") := by
    rw [← h]
    rfl
  exact run_git_answer hanswer

omit [Letters] in
theorem raiseIf_pass {A : Answers σ} {condition : Bool} {err : Err} {s : Session σ}
    (h : condition = false) : (raiseIf condition err).run (machine A) () s = (.ok (), s) := by
  rw [h, raiseIf_false]
  rfl

theorem effective_git_config_obliging {root : Path} :
    (effective_git_config root).run (machine (obliging top diff)) () idle = (.ok [], idle) := by
  unfold effective_git_config
  rw [run_seq _ _ (run_git_obliging rfl), run_seq _ _ (raiseIf_pass (by rfl))]
  rfl

theorem assert_safe_git_mutation_obliging {root : Path}
    (htop : resolved (strip (translated top)) = resolved root) :
    (assert_safe_git_mutation root).run (machine (obliging top diff)) () idle = (.ok (), idle) := by
  have hrepo : (assert_safe_git_repo root).run (machine (obliging top diff)) () idle =
      (.ok (), idle) := by
    unfold assert_safe_git_repo
    rw [run_seq _ _ (run_git_obliging rfl), run_seq _ _ (raiseIf_pass (by rfl)),
      run_seq _ _ (raiseIf_pass (by simp [htop])), run_seq _ _ effective_git_config_obliging]
    rfl
  unfold assert_safe_git_mutation
  rw [run_seq _ _ hrepo]
  rfl

theorem branch_locked_obliging {root : Path} {branch : String} (hroot : route.root = root)
    (htop : resolved (strip (translated top)) = resolved root) {out : String}
    (hdiff : diff = some out)
    (hall : assert_all_permitted root "GIT_BRANCH" ((entries (translated out)).map unslashed) =
      .ok ()) :
    (branch_locked route project_id branch).Reaches (machine (obliging top diff)) ()
      (.command root ["switch", branch]) idle idle := by
  subst hroot hdiff
  unfold branch_locked
  refine .seq (assert_safe_git_mutation_obliging htop) ?_
  refine .seq (run_git_obliging rfl) (.seq (raiseIf_pass (by rfl)) ?_)
  have hclean : (dirty_worktree route.root).run (machine (obliging top (some out))) () idle =
      (.ok [], idle) := by
    unfold dirty_worktree
    rw [run_seq _ _ (run_git_obliging rfl), run_seq _ _ (raiseIf_pass (by rfl))]
    rfl
  refine .seq hclean (.seq (raiseIf_pass (by rfl)) (.seq (run_git_obliging rfl) ?_))
  simp only [beq_self_eq_true, if_true]
  have htargets : (assert_switch_targets_safe route.root branch).run
      (machine (obliging top (some out))) () idle = (.ok (), idle) := by
    unfold assert_switch_targets_safe
    rw [run_seq _ _ (run_git_obliging rfl), run_seq _ _ (raiseIf_pass (by rfl)), hall]
    rfl
  refine .seq htargets ?_
  exact .here _

theorem git_branch_obliging (hroute : registry.get project_id = some route)
    (hbranch : unsafeBranch (strip branch_name) = false)
    (htop : resolved (strip (translated top)) = resolved route.root) {out : String}
    (hall : assert_all_permitted route.root "GIT_BRANCH"
      ((entries (translated out)).map unslashed) = .ok ()) :
    (git_branch registry project_id branch_name).Reaches (machine (obliging top (some out))) ()
      (.command route.root ["switch", strip branch_name]) idle idle := by
  have hresolve : (resolve_project registry project_id).run (machine (obliging top (some out))) ()
      idle = (.ok route, idle) := by
    unfold resolve_project
    rw [hroute]
    have hpresent : (is_dir route.root).run (machine (obliging top (some out))) () idle =
        (.ok true, idle) := rfl
    exact (run_seq _ _ hpresent).trans (run_seq _ _ (raiseIf_pass (by rfl)))
  unfold git_branch applicable
  have hgit : (is_dir (joined route.root ".git")).run (machine (obliging top (some out))) () idle =
      (.ok true, idle) := rfl
  have hacquire : (Prog.act (.acquire (lock_name_for_resource .git route.root)) .ret : Git Bool).run
      (machine (obliging top (some out))) () idle = (.ok true, idle) := rfl
  refine .seq hresolve (.seq hgit (.seq (raiseIf_pass hbranch) ?_))
  unfold with_git_lock
  refine .seq hacquire (.seq (raiseIf_pass (by rfl)) (.ensuring _ ?_))
  exact branch_locked_obliging rfl htop rfl hall

end Obliging

/-- The condition on the trees under which a switch to `T` touches only permitted paths
when git has compared HEAD with `R`, unless the switch is denied anyway: the old name
of every rename that is detected in `R` is permitted if the switch changes it, and so
is every path that the switch changes and `R` does not. -/
def SwitchSafe [Text] (renames : Repo → List (GitPath × GitPath)) (root : Path) (branch : String)
    (T R : Repo) : Prop :=
  unsafeBranch branch = false → Reportable root → (∀ n ∈ R.listed renames, n.Permitted root) →
    (∀ old new, (old, new) ∈ renames R → T.changed old → old.Permitted root) ∧
      ∀ n, T.changed n → ¬ R.changed n → n.Permitted root

/-- Whatever the host, a branch switch between two trees touches only permitted paths,
exactly if those that the comparison does not list are permitted. -/
theorem branch_switch_iff [Letters] {registry : ProjectRegistry} {project_id branch_name : String}
    {route : Route} (hroute : registry.get project_id = some route)
    (renames : Repo → List (GitPath × GitPath)) {T R : Repo} (hhead : R.head = T.head) :
    (∀ (σ : Type) (A : Answers σ) (view named : Path → String → σ → Repo),
      ListsSwitch A view named renames →
      ∀ s t, (git_branch registry project_id branch_name).Reaches (machine A) ()
        (.command route.root ["switch", strip branch_name]) t s →
          view route.root (strip branch_name) t.host = T →
            named route.root (strip branch_name) t.host = R →
              ∀ n, T.changed n → n.Permitted route.root) ↔
      SwitchSafe renames route.root (strip branch_name) T R := by
  constructor
  · rintro h hbranch ⟨top, htop⟩ hlisted
    obtain ⟨out, hprinted, hall⟩ := permitted_printed.mp hlisted
    have hgit : ListsSwitch (obliging top (some out)) (fun _ _ _ => T) (fun _ _ _ => R) renames := by
      refine ⟨fun root branch s out' err hanswer => ?_, fun _ _ _ => hhead, fun _ _ _ => rfl⟩
      cases hanswer
      exact ⟨_, .refl _, hprinted.symm⟩
    have hreach := git_branch_obliging hroute hbranch htop hall
    have hchanged := h Unit _ _ _ hgit idle idle hreach rfl rfl
    exact ⟨fun old _ _ hold => hchanged old hold, fun n hn _ => hchanged n hn⟩
  · intro hsafe σ A view named hgit s t hreach hT hR n hn
    obtain ⟨hbranch, route', hroute', htop, u, a, hrun⟩ := git_branch_reaches hreach
    rw [hroute] at hroute'
    cases hroute'
    obtain ⟨out, err, hanswer, hall, rfl⟩ := assert_switch_targets_safe_run hrun
    obtain ⟨printed, hperm, hprinted⟩ := hgit.listing _ _ _ _ _ hanswer
    rw [← hgit.keeps, hR] at hperm
    have hlisted : ∀ n ∈ R.listed renames, n.Permitted route.root := by
      intro n hn
      exact permitted_printed.mpr ⟨out, hprinted.symm, hall⟩ n (hperm.mem_iff.mpr hn)
    obtain ⟨holds, hothers⟩ := hsafe hbranch htop hlisted
    by_cases hsame : R.changed n
    · obtain hmem | ⟨new, hold⟩ := Repo.listed_or_renamed renames hsame
      · exact hlisted n hmem
      · exact holds n new hold hn
    · exact hothers n hn hsame

/-- A branch switch touches only permitted paths. -/
def SwitchesPermitted [Letters] (registry : ProjectRegistry)
    (renames : Repo → List (GitPath × GitPath)) : Prop :=
  ∀ (σ : Type) (A : Answers σ) (view named : Path → String → σ → Repo),
    ListsSwitch A view named renames →
    ∀ project_id branch_name route, registry.get project_id = some route → ∀ s t,
      (git_branch registry project_id branch_name).Reaches (machine A) ()
        (.command route.root ["switch", strip branch_name]) t s →
        ∀ n, (view route.root (strip branch_name) t.host).changed n → n.Permitted route.root

section Sample

/-- A branch in which a control-plane file has another name. -/
def movedPolicy : Repo :=
  { head := [(.text ".continuity/policy.json" (by decide) (by decide), "1")]
    index := [(.text "notes.json" (by decide) (by decide), "1")] }

/-- The branch that a tag of the same name keeps as HEAD has it. -/
def taggedPolicy : Repo := { movedPolicy with index := movedPolicy.head }

theorem branch_switch_iff_moved :
    (∀ (σ : Type) (A : Answers σ) (view named : Path → String → σ → Repo),
      ListsSwitch A view named sameBlob →
      ∀ s t, (@git_branch asciiLetters sampleRegistry "app" "dev").Reaches (machine A) ()
        (.command "/w/app" ["switch", strip "dev"]) t s →
          view "/w/app" (strip "dev") t.host = movedPolicy →
            named "/w/app" (strip "dev") t.host = taggedPolicy →
              ∀ n, movedPolicy.changed n → @GitPath.Permitted asciiText "/w/app" n) ↔
      @SwitchSafe asciiText sameBlob "/w/app" (strip "dev") movedPolicy taggedPolicy :=
  @branch_switch_iff asciiLetters sampleRegistry "app" "dev"
    ⟨⟨"app", by decide⟩, "/w/app", "active"⟩ rfl sameBlob movedPolicy taggedPolicy rfl

/-- The switch to that branch deletes the control-plane file. -/
theorem switch_deletes_protected : OnlyRenames sameBlob ∧
    ¬ @SwitchesPermitted asciiLetters sampleRegistry sameBlob := by
  refine ⟨sample_lists.rename, fun h => ?_⟩
  have hprinted : printedNames (movedPolicy.listed sameBlob) = some "notes.json\x00" := by
    decide +kernel
  have hgit : ListsSwitch (obliging "/w/app\n" (some "notes.json\x00"))
      (fun _ _ _ => movedPolicy) (fun _ _ _ => movedPolicy) sameBlob := by
    refine ⟨fun root branch s out err hanswer => ?_, fun _ _ _ => rfl, fun _ _ _ => rfl⟩
    cases hanswer
    exact ⟨_, .refl _, hprinted.symm⟩
  have hreach := @git_branch_obliging asciiLetters sampleRegistry "app" "dev" "/w/app\n"
    ⟨⟨"app", by decide⟩, "/w/app", "active"⟩ rfl (by decide +kernel) (by decide +kernel)
      "notes.json\x00" (by decide +kernel)
  obtain ⟨found, hfound⟩ := h Unit _ _ _ hgit "app" "dev" _ rfl idle idle hreach
    (.text ".continuity/policy.json" (by decide) (by decide)) (by decide +kernel)
  have hdenied : (@assert_permitted_path asciiText "/w/app" ".continuity/policy.json" "GIT_BRANCH"
      false).toBool = false := by decide +kernel
  rw [hfound] at hdenied
  cases hdenied

end Sample

end jvc.git
