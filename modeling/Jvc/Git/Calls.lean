import Jvc.Git.Audit

open program jvc.recovery jvc.policy

namespace jvc.git

variable [Letters]

/-- What a Git operation returns. -/
inductive Reply
  | NOT_APPLICABLE (op_class project_id : String)
  | STAGED (project_id : String) (staged_paths : List String)
  | COMMITTED (project_id : String) (committed_paths : List String) (output : String)
  | BRANCHED (project_id branch action : String)
  | DIFF (project_id : String) (paths : List String) (max_bytes : Nat) (result : Capped)

/-- `x.replace("\\", "/")` -/
def unslashed (x : String) : String := String.ofList (slashes x)

def quoted (s : String) : String := "'" ++ s ++ "'"

/-- `sorted(set(names))` -/
def sorted (names : List String) : List String := names.dedup.insertionSort (· ≤ ·)

/-- `sorted(names)` in a message -/
def listed (names : List String) : String :=
  "[" ++ ", ".intercalate ((sorted names).map quoted) ++ "]"

def resolve_project (registry : ProjectRegistry) (project_id : String) : Git Route := do
  match registry.get project_id with
  | none => throw (.ValueError ("unregistered project_id: " ++ Text.repr project_id))
  | some route =>
    let present ← is_dir route.root
    raiseIf (!present) (.ValueError s!"project root directory missing: {route.root}")
    pure route

/-- `with self._git_lock(root): body` -/
def with_git_lock {α : Type} (root : Path) (body : Git α) : Git α := do
  let acquired ← .act (.acquire (lock_name_for_resource .git root)) .ret
  raiseIf (!acquired) (.LockTimeoutError "timed out acquiring interprocess lock")
  body.ensuring (.act (.release (lock_name_for_resource .git root)) .ret)

def staged_args : List String := ["diff", "--cached", "--name-only", "-z"]

def staged_files (root : Path) : Git (List String) := do
  let r ← run_git root staged_args
  raiseIf (r.returncode != 0) (.RuntimeError s!"git diff --cached failed: {r.stderr}")
  pure ((entries r.stdout).map unslashed)

/-- `" -> "` occurs: the text behind the first one. -/
def arrowTail : List Char → Option (List Char)
  | ' ' :: '-' :: '>' :: ' ' :: rest => some rest
  | _ :: rest => arrowTail rest
  | [] => none

def dirtyEntry (rec : String) : String :=
  let cs := rec.toList
  let entry := if 3 < cs.length then cs.drop 3 else cs
  String.ofList ((arrowTail entry).getD entry)

def dirty_worktree (root : Path) : Git (List String) := do
  let r ← run_git root ["status", "--porcelain=v1", "-z"]
  raiseIf (r.returncode != 0) (.RuntimeError s!"git status failed: {r.stderr}")
  pure ((((entries r.stdout).map dirtyEntry).filter (· ≠ "")).map unslashed)

/-- A pathspec and an entry of which one is a directory above the other. -/
def expands (canonical_rel entry : String) : Bool :=
  let normalized := unslashed entry
  let above := (canonical_rel.toList.reverse.dropWhile (· = '/')).reverse ++ ['/']
  normalized != canonical_rel &&
    (above.isPrefixOf normalized.toList || (normalized ++ "/").toList.isPrefixOf canonical_rel.toList)

def assert_no_expansion (root : Path) (canonical_rel : String) (args : List String) : Git Unit := do
  let proc ← run_git root args
  raiseIf (proc.returncode == 0 && (entries proc.stdout).any (expands canonical_rel)) (.ValueError
    s!"directory pathspec expansion is not permitted (files only): {canonical_rel}")

/-- Reject Git pathspec expansion: the path must be an exact file. -/
def assert_exact_file_target (root : Path) (canonical_rel : String) : Git Unit := do
  assert_no_expansion root canonical_rel ["ls-files", "-z", "--", canonical_rel]
  assert_no_expansion root canonical_rel
    ["ls-tree", "-r", "--name-only", "-z", "HEAD", "--", canonical_rel]

/-- `any(c in item for c in "*?[]{}")` -/
def hasWildcard (item : String) : Bool :=
  item.toList.any fun c => "*?[]{}".toList.contains c

/-- What is checked of one requested path, once it passes as an exact name. -/
def checked_path (root : Path) (item operation directory : String) : Git String := do
  let (target, canonical_rel) ← Prog.ofExcept (assert_permitted_path root item operation false)
  let folder ← is_dir target
  raiseIf folder (.ValueError directory)
  assert_exact_file_target root canonical_rel
  assert_path_attrs_safe root canonical_rel
  pure canonical_rel

def stage_paths (root : Path) : List String → Git (List String)
  | [] => pure []
  | p :: rest => do
    raiseIf (p == "" || hasWildcard p || p == "." || p == "./")
      (.ValueError s!"only exact relative file staging is permitted: {p}")
    let canonical_rel ← checked_path root p "GIT_STAGE" s!"directory staging is forbidden: {p}"
    let more ← stage_paths root rest
    pure (canonical_rel :: more)

def stage_locked (route : Route) (project_id : String) (paths : List String) : Git Reply := do
  assert_safe_git_mutation route.root
  let resolved_canonical ← stage_paths route.root paths
  -- Disallow staging if unrelated files are already staged
  let currently_staged ← staged_files route.root
  let already_owned ← .act (.owned project_id) .ret
  let unrelated := currently_staged.filter fun x =>
    !resolved_canonical.contains x && !already_owned.contains x
  raiseIf (!unrelated.isEmpty) (.PermissionError
    ("unrelated staged paths present in git index: " ++ listed unrelated))
  let proc ← run_git route.root ("add" :: "--" :: resolved_canonical)
  raiseIf (proc.returncode != 0) (.RuntimeError s!"git add failed: {proc.stderr}")
  .act (.own project_id resolved_canonical) .ret
  pure (.STAGED project_id resolved_canonical)

/-- The project has a Git repository of its own, or the operation does not apply. -/
def applicable (registry : ProjectRegistry) (op_class project_id : String)
    (body : Route → Git Reply) : Git Reply := do
  let route ← resolve_project registry project_id
  let repository ← is_dir (joined route.root ".git")
  if repository then body route else pure (.NOT_APPLICABLE op_class project_id)

/-- Stage exact approved files only into git index. -/
def git_stage (registry : ProjectRegistry) (project_id : String) (paths : List String) : Git Reply :=
  applicable registry "GIT_STAGE" project_id fun route => do
    raiseIf paths.isEmpty (.ValueError "paths must be a non-empty list of exact relative files")
    with_git_lock route.root (stage_locked route project_id paths)

/-- Re-verify every staged file against boundary policy. -/
def assert_all_permitted (root : Path) (operation : String) : List String → Except Err Unit
  | [] => .ok ()
  | rel :: rest => do
    let _ ← assert_permitted_path root rel operation false
    assert_all_permitted root operation rest

def commit_locked (route : Route) (project_id clean_msg : String) : Git Reply := do
  assert_safe_git_mutation route.root
  let staged ← staged_files route.root
  let owned ← .act (.owned project_id) .ret
  raiseIf staged.isEmpty (.ValueError "no staged paths in git index to commit")
  -- Verify all staged files are owned by this session
  let unowned := staged.filter fun x => !owned.contains x
  raiseIf (!unowned.isEmpty) (.PermissionError
    ("unowned staged paths present in index: " ++ listed unowned))
  Prog.ofExcept (assert_all_permitted route.root "GIT_COMMIT" staged)
  let proc ← run_git route.root ["commit", "-m", clean_msg]
  raiseIf (proc.returncode != 0) (.RuntimeError s!"git commit failed: {proc.stderr}")
  .act (.disown project_id) .ret
  pure (.COMMITTED project_id (sorted staged) proc.stdout)

/-- Create a commit containing only explicitly owned and validated staged files. -/
def git_commit (registry : ProjectRegistry) (project_id message : String) : Git Reply :=
  applicable registry "GIT_COMMIT" project_id fun route => do
    let clean_msg := strip message
    raiseIf (clean_msg == "" || clean_msg.toList.any controlChar)
      (.ValueError "invalid commit message")
    with_git_lock route.root (commit_locked route project_id clean_msg)

/-- Deny branch switches that would replace protected tracked files. -/
def assert_switch_targets_safe (root : Path) (branch : String) : Git Unit := do
  let proc ← run_git root ["diff", "--name-only", "-z", "HEAD", branch, "--"]
  raiseIf (proc.returncode != 0)
    (.RuntimeError s!"git switch target inspection failed: {proc.stderr}")
  Prog.ofExcept (assert_all_permitted root "GIT_BRANCH" ((entries proc.stdout).map unslashed))

def branch_locked (route : Route) (project_id branch : String) : Git Reply := do
  assert_safe_git_mutation route.root
  let check ← run_git route.root ["check-ref-format", "--branch", branch]
  raiseIf (check.returncode != 0) (.ValueError s!"invalid git branch ref: {branch}")
  let dirty ← dirty_worktree route.root
  raiseIf (!dirty.isEmpty) (.PermissionError "dirty worktree blocks branch operation")
  let found ← run_git route.root ["show-ref", "--verify", "--quiet", s!"refs/heads/{branch}"]
  let present := found.returncode == 0
  if present then assert_switch_targets_safe route.root branch else pure ()
  let proc ← run_git route.root (if present then ["switch", branch] else ["switch", "-c", branch])
  raiseIf (proc.returncode != 0) (.RuntimeError s!"git switch failed: {proc.stderr}")
  pure (.BRANCHED project_id branch (if present then "switch" else "create"))

/-- Create or switch to a bounded branch if the worktree is clean. -/
def git_branch (registry : ProjectRegistry) (project_id branch_name : String) : Git Reply :=
  applicable registry "GIT_BRANCH" project_id fun route => do
    let branch := strip branch_name
    raiseIf (branch == "" || branch.toList.head? == some '-' || branch.toList.any controlChar)
      (.ValueError "unsafe branch name")
    with_git_lock route.root (branch_locked route project_id branch)

/-- `path` or `paths` of a diff: nothing, one string or a list. -/
inductive Requested
  | none
  | one (path : String)
  | many (paths : List String)

def Requested.items : Requested → List String
  | .none => []
  | .one path => [path]
  | .many paths => paths

/-- The requested path is `.` or ends in `/.`. -/
def namesFolder (item : String) : Bool :=
  item == "." || item == "./" ||
    "./".toList.isPrefixOf ((slashes item).reverse.dropWhile (· = '/'))

def diff_paths (root : Path) : List String → Git (List String)
  | [] => pure []
  | item :: rest => do
    raiseIf (item == "") (.ValueError s!"only exact relative file diff is permitted: '{item}'")
    raiseIf (hasWildcard item || namesFolder item)
      (.ValueError s!"only exact relative file diff is permitted: {item}")
    let canonical_rel ← checked_path root item "GIT_DIFF"
      s!"directory diff is not available in 0.1.0 (files only): {item}"
    let more ← diff_paths root rest
    pure (canonical_rel :: more)

/-- Inspect the Git diff of explicitly listed files. -/
def git_diff (registry : ProjectRegistry) (project_id : String) (path paths : Requested)
    (max_bytes : Int) : Git Reply :=
  applicable registry "READ_INSPECTION" project_id fun route => do
    let requested := paths.items ++ path.items
    raiseIf requested.isEmpty (.ValueError
      "git diff requires one or more explicit file paths; repository-wide diff is not available in 0.1.0")
    assert_safe_git_repo route.root
    let resolved_canonical ← diff_paths route.root requested
    raiseIf (max_bytes < 0) (.ValueError s!"max_bytes must be >= 0, got {max_bytes}")
    let result ← .act (.command_capped route.root
      ("diff" :: "--no-ext-diff" :: "--no-textconv" :: "--" :: resolved_canonical)
      max_bytes.toNat) Prog.ofExcept
    pure (.DIFF project_id resolved_canonical max_bytes.toNat result)

end jvc.git
