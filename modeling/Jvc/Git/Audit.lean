import Jvc.Configuration
import Jvc.Lib.Ascii
import Jvc.Lib.Effects
import Jvc.Lib.Lines
import Jvc.Policy.Boundaries

open program jvc.recovery jvc.policy

namespace jvc.git

/-- What a character becomes in lower case: something, which has a line feed only if it
is one, and one letter if it is in ASCII or can be taken for an ASCII letter without
regard to case. `İ` alone of these becomes two characters. -/
structure LowerPiece (c : Char) (piece : List Char) : Prop where
  nonempty : piece ≠ []
  flat : c ≠ '\n' → '\n' ∉ piece
  plain : c.toNat < 128 → piece = [c.toLower]
  alike : c = 'ı' ∨ c = 'ſ' → piece = [c]
  kelvin : c = '\u212a' → piece = ['k']

/-- `str.lower` besides the other case mappings. What a character becomes depends on
its neighbours at most in which letter it is. -/
class Letters extends Text where
  lower : String → String
  lower_pieces : ∀ s, ∃ pieces : List (List Char),
    (lower s).toList = pieces.flatten ∧ List.Forall₂ LowerPiece s.toList pieces

/-- What running a command gave: it could not be run to its end, or it exited.
A stream is `none` where its bytes are not text in the encoding of the host. -/
inductive Ran
  | raised (err : Err)
  | exited (returncode : Int) (stdout stderr : Option String)

/-- What a command gave whose output is bounded. -/
structure Capped where
  returncode : Int
  output : String
  error : String
  truncated : Bool
  err_truncated : Bool
  deriving DecidableEq, Repr

/-- The operations of the Git part of the executor. `owned`, `own` and `disown`
are its memory of the paths staged for a project. -/
inductive Op
  | is_dir (p : Path)
  | is_file (p : Path)
  | read_text (p : Path)
  | command (root : Path) (args : List String)
  | command_capped (root : Path) (args : List String) (max_bytes : Nat)
  | owned (project_id : String)
  | own (project_id : String) (paths : List String)
  | disown (project_id : String)
  | acquire (l : LockName)
  | release (l : LockName)
  deriving DecidableEq

def Op.Res : Op → Type
  | .is_dir _ => Bool
  | .is_file _ => Bool
  | .read_text _ => Option String
  | .command _ _ => Ran
  | .command_capped _ _ _ => Except Err Capped
  | .owned _ => List String
  | .own _ _ => Unit
  | .disown _ => Unit
  | .acquire _ => Bool
  | .release _ => Unit

abbrev Git (α : Type) := Prog Op Op.Res Err α

def is_dir (p : Path) : Git Bool := .act (.is_dir p) .ret

def is_file (p : Path) : Git Bool := .act (.is_file p) .ret

/-- `read_text(encoding="utf-8", errors="replace")`, or `none` for an `OSError` -/
def read_text (p : Path) : Git (Option String) := .act (.read_text p) .ret

def raiseIf (condition : Bool) (error : Err) : Git Unit :=
  if condition then throw error else pure ()

@[simp] theorem raiseIf_true (error : Err) : raiseIf true error = .fail error := rfl

@[simp] theorem raiseIf_false (error : Err) : raiseIf false error = .ret () := rfl

attribute [irreducible] raiseIf

structure CompletedProcess where
  returncode : Int
  stdout : String
  stderr : String

def translated (s : String) : String := String.ofList (lines.translate s.toList)

/-- `subprocess.run(..., capture_output=True, text=True)` -/
def completed : Ran → Except Err CompletedProcess
  | .raised err => .error err
  | .exited returncode (some stdout) (some stderr) =>
    .ok ⟨returncode, translated stdout, translated stderr⟩
  | .exited _ _ _ => .error .UnicodeDecodeError

def run_git (root : Path) (args : List String) : Git CompletedProcess :=
  .act (.command root args) fun ran => .ofExcept (completed ran)

/-- `stdout.split("\0")` without the empty strings -/
def entries (stdout : String) : List String := (lines.records stdout.toList).map String.ofList

/-- `text.splitlines()` -/
def textLines (s : String) : List String := (lines.splitlines s.toList).map String.ofList

/-- `Path(text).resolve()` of an absolute path, without symbolic links. -/
def resolved (text : String) : Path := ofParts (resolveParts (components text.toList))

/-- `root / p` -/
def joined (root : Path) (p : String) : Path :=
  if p.toList.head? = some '/' then p else root ++ "/" ++ p

section Patterns

/-- `$`: the end of the text, or a line feed that ends it. -/
def atEnd (cs : List Char) : Bool := cs == [] || cs == ['\n']

/-- A word under `re.IGNORECASE`, then what `rest` wants. -/
def opens (word : String) (rest : List Char → Bool) (cs : List Char) : Bool :=
  match afterWord word.toList cs with
  | some more => rest more
  | none => false

/-- `section\..+\.(names)$` -/
def driverKey (sec : String) (names : List String) : List Char → Bool :=
  opens (sec ++ ".") fun more =>
    (List.range more.length).any fun n =>
      n != 0 && !(more.take n).contains '\n' &&
        names.any fun name => opens ("." ++ name) atEnd (more.drop n)

/-- One of `_UNSAFE_GIT_KEY_RES` matches the key. -/
def unsafeGitKey (key : String) : Bool :=
  let cs := key.toList
  opens "include" (fun more => more.head? == some '.' || atEnd more) cs ||
    opens "includeif." (fun _ => true) cs ||
    driverKey "filter" ["clean", "smudge", "process", "required"] cs ||
    driverKey "diff" ["command", "textconv"] cs ||
    ["diff.external", "core.fsmonitor", "core.attributesfile", "core.sshcommand", "core.worktree",
      "extensions.worktreeconfig", "commit.gpgsign", "tag.gpgsign"].any (fun word =>
        opens word atEnd cs) ||
    opens "gpg." (fun _ => true) cs

/-- `_UNSAFE_ATTR_TOKEN_RE.search(text)` -/
def unsafeAttrToken (text : List Char) : Bool :=
  text.tails.any fun cs =>
    ["filter", "diff", "merge"].any (fun word =>
      opens word (fun more => (more.dropWhile isSpace).head? == some '=') cs) ||
    ["textconv", "working-tree-encoding"].any fun word => opens word (fun _ => true) cs

end Patterns

/-- In ASCII, `lower` goes character by character. -/
theorem lower_plain [Letters] {s : String} (h : ∀ c ∈ s.toList, c.toNat < 128) :
    Letters.lower s = String.ofList (s.toList.map Char.toLower) := by
  obtain ⟨pieces, hlower, hpieces⟩ := Letters.lower_pieces s
  refine String.toList_injective ?_
  rw [hlower, String.toList_ofList]
  generalize s.toList = cs at h hpieces
  clear hlower
  induction hpieces with
  | nil => rfl
  | @cons c piece cs pieces hc _ ih =>
    rw [List.flatten_cons, List.map_cons, hc.plain (h c List.mem_cons_self),
      ih fun d hd => h d (List.mem_cons_of_mem c hd)]
    rfl

variable [Letters]

/-- Read effective Git configuration with origin tracking. -/
def effective_git_config (root : Path) : Git (List (String × String × String)) := do
  let proc ← run_git root ["config", "--list", "--show-origin"]
  raiseIf (proc.returncode != 0) (.RuntimeError
    s!"git configuration inspection failed (fail closed): {strip proc.stderr}")
  pure <| ((textLines proc.stdout).filter fun line =>
    line.toList.contains '\t' && line.toList.contains '=').map fun line =>
      let cs := line.toList
      let rest := (cs.dropWhile (· ≠ '\t')).drop 1
      let key := rest.takeWhile (· ≠ '=')
      let value := (rest.dropWhile (· ≠ '=')).drop 1
      (strip (String.ofList (cs.takeWhile (· ≠ '\t'))),
        Letters.lower (strip (String.ofList key)), strip (String.ofList value))

/-- `origin.lower().rstrip(":") == "command line"` -/
def fromCommandLine (origin : String) : Bool :=
  ((Letters.lower origin).toList.reverse.dropWhile (· = ':')).reverse == "command line".toList

/-- Fail closed on repository-controlled executable/redirection config. -/
def assert_safe_git_repo (root : Path) : Git Unit := do
  let top_proc ← run_git root ["rev-parse", "--show-toplevel"]
  raiseIf (top_proc.returncode != 0) (.RuntimeError
    s!"git worktree inspection failed (fail closed): {strip top_proc.stderr}")
  let resolved_root := resolved root
  let toplevel := resolved (strip top_proc.stdout)
  raiseIf (toplevel != resolved_root) (.PermissionError
    s!"git worktree redirection denied: effective toplevel {toplevel} != validated root {resolved_root}")
  let config ← effective_git_config root
  match config.find? fun entry => !fromCommandLine entry.1 && unsafeGitKey entry.2.1 with
  | some (origin, key, _) =>
    throw (.PermissionError
      s!"unsafe repository-controlled git configuration denied: {key} ({origin})")
  | none => pure ()

def gitattributes_files (root : Path) : Git (List Path) := do
  let proc ← run_git root ["ls-files", "-z", "--", ".gitattributes", "*/.gitattributes"]
  if proc.returncode != 0 then pure []
  else do
    let out := (entries proc.stdout).map (joined root)
    let top := joined root ".gitattributes"
    let present ← is_file top
    pure (if present && !out.contains top then out ++ [top] else out)

/-- The text of a file without comments. -/
def meaningful (text : String) : List Char :=
  ['\n'].intercalate ((lines.splitlines text.toList).map fun line => line.takeWhile (· ≠ '#'))

def check_attr_files : List Path → Git Unit
  | [] => pure ()
  | attr_file :: rest => do
    match ← read_text attr_file with
    | some text =>
      raiseIf (unsafeAttrToken (meaningful text)) (.PermissionError
        s!"unsafe .gitattributes helper selection denied for governed mutation: {attr_file}")
    | none => pure ()
    check_attr_files rest

/-- Fail closed if any tracked .gitattributes selects executable helpers. -/
def assert_no_executable_gitattributes (root : Path) : Git Unit := do
  let files ← gitattributes_files root
  check_attr_files files

def assert_safe_git_mutation (root : Path) : Git Unit := do
  assert_safe_git_repo root
  assert_no_executable_gitattributes root

/-- The value of one line of `check-attr`, where the line has one. -/
def attrValue (line : String) : Option String :=
  let parts := (line.toList.splitOn ':').map fun p => strip (String.ofList p)
  if parts.length < 3 then none else parts.getLast?.map Letters.lower

def safeAttrValues : List String := ["unspecified", "unset", "unknown"]

/-- Reject per-path executable filter/diff driver selection. -/
def assert_path_attrs_safe (root : Path) (canonical_rel : String) : Git Unit := do
  let proc ← run_git root
    ["check-attr", "filter", "diff", "textconv", "merge", "--", canonical_rel]
  raiseIf (proc.returncode != 0) (.RuntimeError s!"git check-attr failed: {proc.stderr}")
  match (textLines proc.stdout).find? fun line =>
      (attrValue line).any fun value => !safeAttrValues.contains value with
  | some line =>
    throw (.PermissionError
      s!"executable git attribute denied for governed operation: {strip line}")
  | none => pure ()

end jvc.git
