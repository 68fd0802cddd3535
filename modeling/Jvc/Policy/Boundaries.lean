import Jvc.World

namespace jvc

variable [Text]

namespace policy

/-- `replace("\\", "/")` -/
def slashes (s : String) : List Char := s.toList.map fun c => if c = '\\' then '/' else c

/-- `strip("/")` -/
def stripSlash (cs : List Char) : List Char :=
  ((cs.dropWhile (· = '/')).reverse.dropWhile (· = '/')).reverse

/-- The non-empty components of a `/`-separated path. -/
def components (cs : List Char) : List String :=
  ((cs.splitOn '/').filter (· ≠ [])).map String.ofList

/-- `[\x00-\x1f\x7f]` -/
def controlChar (c : Char) : Bool := c.toNat < 32 || c.toNat == 127

def hexDigit (c : Char) : Bool :=
  ('0' ≤ c && c ≤ '9') || ('a' ≤ c && c ≤ 'f') || ('A' ≤ c && c ≤ 'F')

/-- `%[0-9a-fA-F]{2}` occurs in the text. -/
def encodedAlias : List Char → Bool
  | '%' :: a :: b :: rest => hexDigit a && hexDigit b || encodedAlias (a :: b :: rest)
  | _ :: rest => encodedAlias rest
  | [] => false

/-- A pattern character under `re.IGNORECASE`. -/
def sameLetter (pattern c : Char) : Bool :=
  c.toLower == pattern || (pattern == 'i' && (c == 'ı' || c == 'İ')) ||
    (pattern == 's' && c == 'ſ') || (pattern == 'k' && c == '\u212a')

/-- The text after a prefix that matches the pattern letters. -/
def afterWord : List Char → List Char → Option (List Char)
  | [], rest => some rest
  | p :: ps, c :: cs => if sameLetter p c then afterWord ps cs else none
  | _ :: _, [] => none

/-- `word(?:\..*)?` on the whole component, where `.` is no newline. -/
def wordOrDotted (word : String) (cs : List Char) : Bool :=
  match afterWord word.toList cs with
  | some [] => true
  | some ('.' :: rest) => !rest.contains '\n'
  | _ => false

/-- `recovery[-_ ]?(?:phrase|seed)` at the start of the text. -/
def recoveryWord (cs : List Char) : Bool :=
  match afterWord "recovery".toList cs with
  | some rest =>
    let rest := match rest with
      | '-' :: more | '_' :: more | ' ' :: more => more
      | _ => rest
    (afterWord "phrase".toList rest).isSome || (afterWord "seed".toList rest).isSome
  | none => false

/-- `SECRET_RE.fullmatch(part)` -/
def secretName (part : String) : Bool :=
  let cs := part.toList
  [".env", "credential", "credentials", "secret", "secrets", "token", "tokens", "auth", "id_rsa",
    "id_ed25519"].any (fun word => wordOrDotted word cs) ||
    (!cs.contains '\n' && cs.tails.any recoveryWord)

/-- `Path(part).suffix`: from the last dot, unless it is the first or last character. -/
def suffix (part : String) : String :=
  let ext := (part.toList.reverse.takeWhile (· ≠ '.')).reverse
  if ext.isEmpty || part.toList.length ≤ ext.length + 1 then "" else String.ofList ('.' :: ext)

def SECRET_SUFFIXES : List String := [".pem", ".key", ".ppk", ".p12", ".pfx"]

/-- `path.replace("\\", "/").casefold().strip("/")` -/
def cleaned (relative_path : String) : List Char :=
  stripSlash (Text.casefold (String.ofList (slashes relative_path))).toList

/-- Identify filenames and patterns classified as secret-bearing. -/
def is_secret_path (relative_path : String) : Bool :=
  let clean := cleaned relative_path
  [".claude/settings.local.json", ".ssh/config", ".ssh/authorized_keys", ".ssh/id_rsa",
    ".ssh/id_ed25519"].contains (String.ofList clean) ||
    (components clean).any fun part =>
      secretName part || SECRET_SUFFIXES.contains (Text.casefold (suffix part))

def DEFAULT_CONTROL_PLANE_EXACT : List String :=
  [".continuity/policy.json", ".continuity/state.json", ".continuity/plan-index.json",
    ".continuity/decision-index.json", "_config/declared-execution-manifest.json",
    "_config/governance-policy.json", "_config/jvc-executor-integrity.json",
    "_config/trusted-executables.json", "_config/continuity-contract.md",
    "_config/startup-budgets.json"]

def DEFAULT_CONTROL_PLANE_PREFIXES : List String :=
  [".git/", ".continuity/", "_config/", "_promotions/", "contracts/"]

/-- `Path(clean).name`: the last component that is not `.`. -/
def nameOf (clean : List Char) : String :=
  ((components clean).filter (· ≠ ".")).getLast?.getD ""

/-- Classify files whose mutation alters project authority, policy, or trusted execution. -/
def is_control_plane_path (relative_path : String) : Bool :=
  let clean := cleaned relative_path
  let name := (nameOf clean).toList
  String.ofList clean == ".git" || DEFAULT_CONTROL_PLANE_EXACT.contains (String.ofList clean) ||
    name == ".gitattributes".toList ||
    DEFAULT_CONTROL_PLANE_PREFIXES.any (fun front => front.toList.isPrefixOf clean) ||
    ("_config/".toList.isPrefixOf clean &&
      ["policy", "manifest", "integrity", "trusted-executable"].any fun term =>
        name.tails.any term.toList.isPrefixOf)

/-- `resolve()` on components, with no symbolic links. -/
def resolveParts (parts : List String) : List String :=
  (parts.foldl (fun done part =>
    if part = "." then done else if part = ".." then done.tail else part :: done) []).reverse

/-- The absolute path of resolved components. -/
def ofParts (parts : List String) : Path := "/" ++ "/".intercalate parts

/-- `Path(text).resolve()` of an absolute path, with no symbolic links. -/
def resolved (text : String) : Path := ofParts (resolveParts (components text.toList))

/-- Validate relative path, verify root containment, and return resolved path
and canonical relative posix path. -/
def canonical_target (root : Path) (relative_path : String) : Except Err (Path × String) :=
  let clean := strip (String.ofList (slashes relative_path))
  let cs := clean.toList
  let base := resolveParts (components root.toList)
  let target := resolveParts (base ++ components cs)
  if cs.isEmpty then .error (.ValueError "empty path is invalid")
  else if "//?/".toList.isPrefixOf cs || "//./".toList.isPrefixOf cs then
    .error (.ValueError ("unsupported device-path form: " ++ Text.repr relative_path))
  else if cs.any controlChar || encodedAlias cs then
    .error (.ValueError "unsafe/non-relative path: invalid characters detected")
  else if cs.head? = some '/' || cs.contains ':' then
    .error (.ValueError "absolute paths and drive escapes are forbidden")
  else if !base.isPrefixOf target then
    .error (.ValueError s!"path escapes project root: {clean}")
  else if target.length = base.length then
    .error (.ValueError "project root directory itself is not a file target")
  else .ok (ofParts target, "/".intercalate (target.drop base.length))

/-- Validate path and enforce boundaries before any file I/O or git operation. -/
def assert_permitted_path (root : Path) (relative_path operation : String)
    (is_operator_privileged : Bool) : Except Err (Path × String) := do
  let (target, canonical_rel) ← canonical_target root relative_path
  if is_secret_path canonical_rel then
    throw (.PermissionError
      s!"mandatory secret-bearing path denied before {operation}: {canonical_rel}")
  if !is_operator_privileged && is_control_plane_path canonical_rel then
    throw (.PermissionError
      s!"REQUIRES_OPERATOR_CONTROL_PLANE_CAPABILITY: control-plane path denied before {operation}: {canonical_rel}")
  return (target, canonical_rel)

omit [Text] in
theorem ofParts_ne (parts : List String) : ofParts parts ≠ "" := by
  intro h
  have hlist := congrArg String.toList h
  simp [ofParts] at hlist

/-- Canonicalization gives an absolute path or refuses with a `ValueError`. -/
theorem canonical_target_cases {motive : Except Err (Path × String) → Prop}
    (root relative_path : String) (hok : ∀ parts c, motive (.ok (ofParts parts, c)))
    (herror : ∀ message, motive (.error (.ValueError message))) :
    motive (canonical_target root relative_path) := by
  unfold canonical_target
  refine iteInduction (fun _ => herror _) fun _ => ?_
  refine iteInduction (fun _ => herror _) fun _ => ?_
  refine iteInduction (fun _ => herror _) fun _ => ?_
  refine iteInduction (fun _ => herror _) fun _ => ?_
  refine iteInduction (fun _ => herror _) fun _ => ?_
  exact iteInduction (fun _ => herror _) fun _ => hok _ _

theorem canonical_target_ne {root relative_path c : String} {p : Path}
    (h : canonical_target root relative_path = .ok (p, c)) : p ≠ "" := by
  refine canonical_target_cases (motive := fun r => r = .ok (p, c) → p ≠ "") root relative_path
    (fun parts c' heq => ?_) (fun message heq => by cases heq) h
  cases heq
  exact ofParts_ne parts

/-- The gates on a canonical path. -/
theorem assert_permitted_path_of_canonical {root relative_path c : String} {p : Path}
    (h : canonical_target root relative_path = .ok (p, c)) (operation : String)
    (privileged : Bool) : assert_permitted_path root relative_path operation privileged =
      if is_secret_path c then .error (.PermissionError
        s!"mandatory secret-bearing path denied before {operation}: {c}")
      else if !privileged && is_control_plane_path c then .error (.PermissionError
        s!"REQUIRES_OPERATOR_CONTROL_PLANE_CAPABILITY: control-plane path denied before {operation}: {c}")
      else .ok (p, c) := by
  rw [assert_permitted_path, h]
  cases hsecret : is_secret_path c <;>
    cases hcontrol : !privileged && is_control_plane_path c <;>
    simp [hsecret, hcontrol, bind, Except.bind, pure, Except.pure, throw, throwThe,
      MonadExceptOf.throw]

theorem assert_permitted_path_of_error {root relative_path : String} {err : Err}
    (h : canonical_target root relative_path = .error err) (operation : String)
    (privileged : Bool) :
    assert_permitted_path root relative_path operation privileged = .error err := by
  rw [assert_permitted_path, h]
  rfl

/-- A permitted path is a canonical one that is neither secret nor, without
privilege, in the control plane. -/
theorem assert_permitted_path_eq_ok {root relative_path operation c : String} {privileged : Bool}
    {p : Path} : assert_permitted_path root relative_path operation privileged = .ok (p, c) ↔
      canonical_target root relative_path = .ok (p, c) ∧ is_secret_path c = false ∧
        (privileged = true ∨ is_control_plane_path c = false) := by
  cases hcanonical : canonical_target root relative_path with
  | error e => simp [assert_permitted_path_of_error hcanonical]
  | ok found =>
    obtain ⟨p', c'⟩ := found
    rw [assert_permitted_path_of_canonical hcanonical]
    constructor
    · intro h
      split at h
      · cases h
      · rename_i hsecret
        split at h
        · cases h
        · rename_i hcontrol
          cases h
          refine ⟨rfl, by simpa using hsecret, ?_⟩
          cases privileged
          · exact .inr (by simpa using hcontrol)
          · exact .inl rfl
    · rintro ⟨heq, hsecret, hcontrol⟩
      cases heq
      have hgate : (!privileged && is_control_plane_path c) = false := by
        rcases hcontrol with rfl | h
        · rfl
        · rw [h, Bool.and_false]
      simp [hsecret, hgate]

theorem canonical_target_error {root relative_path : String} {err : Err}
    (h : canonical_target root relative_path = .error err) : err.isRecoveryRequired = false := by
  refine canonical_target_cases (motive := fun r => r = .error err →
    err.isRecoveryRequired = false) root relative_path (fun parts c heq => by cases heq)
      (fun message heq => ?_) h
  cases heq
  rfl

theorem assert_permitted_path_error {root relative_path operation : String} {privileged : Bool}
    {err : Err} (h : assert_permitted_path root relative_path operation privileged = .error err) :
    err.isRecoveryRequired = false := by
  cases hcanonical : canonical_target root relative_path with
  | error e =>
    rw [assert_permitted_path_of_error hcanonical] at h
    cases h
    exact canonical_target_error hcanonical
  | ok found =>
    obtain ⟨p, c⟩ := found
    rw [assert_permitted_path_of_canonical hcanonical] at h
    split at h
    · cases h
      rfl
    · split at h
      · cases h
        rfl
      · cases h

end policy

/-- `candidate.resolve().relative_to(store.resolve())` succeeds. -/
def is_within_store (candidate store : Path) : Bool :=
  candidate == store || (store ++ "/").toList.isPrefixOf candidate.toList

end jvc
