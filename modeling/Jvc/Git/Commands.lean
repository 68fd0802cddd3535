import Jvc.Git.Calls

open program program.Prog jvc.recovery jvc.policy

namespace jvc.git

variable {α β : Type} {P : Op → Prop} {Q : α → Prop}

section Rules

theorem within_raiseIf (condition : Bool) (err : Err) :
    (raiseIf condition err).Within P fun _ => condition = false := by
  cases condition with
  | false =>
    rw [raiseIf_false]
    exact .ret rfl
  | true =>
    rw [raiseIf_true]
    exact .fail err

theorem within_run_git {root : Path} {args : List String} (h : P (.command root args)) :
    (run_git root args).Within P fun _ => True := .act h fun _ => .ofExcept fun _ _ => trivial

theorem within_is_dir {p : Path} (h : P (.is_dir p)) : (is_dir p).Within P fun _ => True :=
  .act h fun _ => .ret trivial

/-- A check that raises, then the rest. -/
theorem within_raiseIf_seq {condition : Bool} {err : Err} {f : Unit → Git α}
    (hf : condition = false → (f ()).Within P Q) : (raiseIf condition err >>= f).Within P Q :=
  (within_raiseIf condition err).seq fun _ h => hf h

/-- A command whose failure raises, then the rest. -/
theorem within_checked {root : Path} {args : List String} {condition : CompletedProcess → Bool}
    {err : CompletedProcess → Err} {f : CompletedProcess → Git α} (h : P (.command root args))
    (hf : ∀ proc, (f proc).Within P Q) :
    (run_git root args >>= fun proc => raiseIf (condition proc) (err proc) >>= fun _ =>
      f proc).Within P Q :=
  (within_run_git h).seq fun proc _ => within_raiseIf_seq fun _ => hf proc

end Rules

/-- The operations of the repository audit. -/
inductive Audits (root : Path) : Op → Prop
  | toplevel : Audits root (.command root ["rev-parse", "--show-toplevel"])
  | config : Audits root (.command root ["config", "--list", "--show-origin"])
  | attributes : Audits root
      (.command root ["ls-files", "-z", "--", ".gitattributes", "*/.gitattributes"])
  | is_file (p : Path) : Audits root (.is_file p)
  | read_text (p : Path) : Audits root (.read_text p)

section Audit

variable {root : Path}

theorem check_attr_files_within (files : List Path) :
    (check_attr_files files).Within (Audits root) fun _ => True := by
  induction files with
  | nil => exact .ret trivial
  | cons file rest ih =>
    refine .act (.read_text file) fun text => ?_
    cases text with
    | none => exact ih
    | some text => exact within_raiseIf_seq fun _ => ih

theorem gitattributes_files_within :
    (gitattributes_files root).Within (Audits root) fun _ => True := by
  unfold gitattributes_files
  refine (within_run_git .attributes).seq fun proc _ => ?_
  split
  · exact .ret trivial
  · exact .act (.is_file _) fun _ => .ret trivial

variable [Letters]

theorem effective_git_config_within :
    (effective_git_config root).Within (Audits root) fun _ => True := by
  unfold effective_git_config
  exact within_checked .config fun _ => .ret trivial

theorem assert_safe_git_repo_within :
    (assert_safe_git_repo root).Within (Audits root) fun _ => True := by
  unfold assert_safe_git_repo
  refine within_checked .toplevel fun top => within_raiseIf_seq fun _ => ?_
  refine effective_git_config_within.seq fun config _ => ?_
  split
  · exact .fail _
  · exact .ret trivial

theorem assert_safe_git_mutation_within :
    (assert_safe_git_mutation root).Within (Audits root) fun _ => True :=
  assert_safe_git_repo_within.seq fun _ _ =>
    gitattributes_files_within.seq fun files _ => check_attr_files_within files

end Audit

/-- A project whose repository an operation works on. -/
def Opens (registry : ProjectRegistry) (project_id : String) (route : Route) : Prop :=
  registry.get project_id = some route

/-- A question whether a directory exists. -/
def AsksDir (op : Op) : Prop := ∃ p, op = .is_dir p

theorem resolve_project_within [Letters] (registry : ProjectRegistry) (project_id : String) :
    (resolve_project registry project_id).Within AsksDir (Opens registry project_id) := by
  unfold resolve_project
  cases hroute : registry.get project_id with
  | none => exact .fail _
  | some route =>
    exact (within_is_dir ⟨_, rfl⟩).seq fun _ _ => within_raiseIf_seq fun _ => .ret hroute

theorem staged_files_within {root : Path} (h : P (.command root staged_args)) :
    (staged_files root).Within P fun _ => True := by
  unfold staged_files
  exact within_checked h fun _ => .ret trivial

/-- A path that was requested among the caller's strings and passes the gate. -/
def Requests [Text] (root : Path) (operation : String) (items : List String) (c : String) : Prop :=
  ∃ item ∈ items, ∃ target, assert_permitted_path root item operation false = .ok (target, c)

section Inspection

variable [Letters]

/-- The operations that look at the requested paths. -/
inductive Inspects (root : Path) (operation : String) (items : List String) : Op → Prop
  | is_dir (p : Path) (c item : String)
      (hp : assert_permitted_path root item operation false = .ok (p, c)) :
      Inspects root operation items (.is_dir p)
  | index (c : String) (hc : Requests root operation items c) :
      Inspects root operation items (.command root ["ls-files", "-z", "--", c])
  | head (c : String) (hc : Requests root operation items c) :
      Inspects root operation items
        (.command root ["ls-tree", "-r", "--name-only", "-z", "HEAD", "--", c])
  | attributes (c : String) (hc : Requests root operation items c) :
      Inspects root operation items
        (.command root ["check-attr", "filter", "diff", "textconv", "merge", "--", c])

variable {root : Path} {operation : String} {items : List String}

theorem assert_no_expansion_within {c : String} {args : List String}
    (h : Inspects root operation items (.command root args)) :
    (assert_no_expansion root c args).Within (Inspects root operation items) fun _ => True := by
  unfold assert_no_expansion
  exact (within_run_git h).seq fun _ _ =>
    (within_raiseIf _ _).mono (fun _ => id) fun _ _ => trivial

theorem assert_exact_file_target_within {c : String} (hc : Requests root operation items c) :
    (assert_exact_file_target root c).Within (Inspects root operation items) fun _ => True := by
  unfold assert_exact_file_target
  exact (assert_no_expansion_within (.index c hc)).seq fun _ _ =>
    assert_no_expansion_within (.head c hc)

theorem assert_path_attrs_safe_within {c : String} (hc : Requests root operation items c) :
    (assert_path_attrs_safe root c).Within (Inspects root operation items) fun _ => True := by
  unfold assert_path_attrs_safe
  refine within_checked (.attributes c hc) fun proc => ?_
  split
  · exact .fail _
  · exact .ret trivial

theorem checked_path_within {item directory : String} (hitem : item ∈ items) :
    (checked_path root item operation directory).Within (Inspects root operation items)
      (Requests root operation items) := by
  unfold checked_path
  cases hok : assert_permitted_path root item operation false with
  | error err => exact .fail err
  | ok found =>
    obtain ⟨target, c⟩ := found
    have hc : Requests root operation items c := ⟨item, hitem, target, hok⟩
    refine (within_is_dir (Inspects.is_dir target c item hok)).seq fun folder _ =>
      within_raiseIf_seq fun _ => ?_
    exact (assert_exact_file_target_within hc).seq fun _ _ =>
      (assert_path_attrs_safe_within hc).seq fun _ _ => .ret hc

/-- A path in front of a list of paths, all requested. -/
theorem within_cons {c : String} {more : Git (List String)} (hc : Requests root operation items c)
    (hmore : more.Within (Inspects root operation items)
      fun cs => ∀ x ∈ cs, Requests root operation items x) :
    (more >>= fun cs => pure (c :: cs)).Within (Inspects root operation items)
      fun cs => ∀ x ∈ cs, Requests root operation items x := by
  refine hmore.seq fun cs hcs => .ret fun x hx => ?_
  rcases List.mem_cons.mp hx with rfl | hx
  · exact hc
  · exact hcs x hx

theorem stage_paths_within {paths : List String} (h : ∀ p ∈ paths, p ∈ items) :
    (stage_paths root paths).Within (Inspects root "GIT_STAGE" items)
      fun cs => ∀ c ∈ cs, Requests root "GIT_STAGE" items c := by
  induction paths with
  | nil => exact .ret (by simp)
  | cons p rest ih =>
    unfold stage_paths
    refine within_raiseIf_seq fun _ => ?_
    refine (checked_path_within (h p List.mem_cons_self)).seq fun c hc => ?_
    exact within_cons hc (ih fun x hx => h x (List.mem_cons_of_mem p hx))

theorem diff_paths_within {paths : List String} (h : ∀ p ∈ paths, p ∈ items) :
    (diff_paths root paths).Within (Inspects root "GIT_DIFF" items)
      fun cs => ∀ c ∈ cs, Requests root "GIT_DIFF" items c := by
  induction paths with
  | nil => exact .ret (by simp)
  | cons p rest ih =>
    unfold diff_paths
    refine within_raiseIf_seq fun _ => within_raiseIf_seq fun _ => ?_
    refine (checked_path_within (h p List.mem_cons_self)).seq fun c hc => ?_
    exact within_cons hc (ih fun x hx => h x (List.mem_cons_of_mem p hx))

end Inspection

end jvc.git
