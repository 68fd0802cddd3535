import Mathlib.Data.List.AList
import Mathlib.Data.List.Sort
import Mathlib.Data.String.Basic
import Jvc.Lib.Program
import Jvc.Recovery.Receipt

open program jvc.recovery

namespace jvc

/-- Files are identified by their canonical absolute path. -/
abbrev Path := String

abbrev Pid := Nat

/-- What depends on the Unicode tables: `str.upper`, `str.casefold` and `repr`. -/
class Text where
  upper : String → String
  casefold : String → String
  repr : String → String

/-- One character of `repr` between the quotes `q`, where all but ASCII is printable. -/
def reprChar (q c : Char) : List Char :=
  if c = '\\' ∨ c = q then ['\\', c]
  else if c = '\n' then ['\\', 'n']
  else if c = '\r' then ['\\', 'r']
  else if c = '\t' then ['\\', 't']
  else if c.toNat < 32 ∨ c.toNat = 127 then
    ['\\', 'x', Nat.digitChar (c.toNat / 16), Nat.digitChar (c.toNat % 16)]
  else [c]

/-- `Text` on ASCII text. -/
@[reducible] def asciiText : Text where
  upper s := String.ofList (s.toList.map Char.toUpper)
  casefold s := String.ofList (s.toList.map Char.toLower)
  repr s :=
    let q := if s.toList.contains '\'' && !s.toList.contains '"' then '"' else '\''
    String.ofList (q :: s.toList.flatMap (reprChar q) ++ [q])

/-- `str.isspace` on one character. -/
def isSpace (c : Char) : Bool :=
  let n := c.toNat
  (9 ≤ n && n ≤ 13) || (28 ≤ n && n ≤ 32) || n == 0x85 || n == 0xa0 || n == 0x1680 ||
    (0x2000 ≤ n && n ≤ 0x200a) || n == 0x2028 || n == 0x2029 || n == 0x202f || n == 0x205f ||
      n == 0x3000

/-- `str.strip()` -/
def strip (s : String) : String :=
  String.ofList ((s.toList.dropWhile isSpace).reverse.dropWhile isSpace).reverse

/-- The parts of the host platform the code relies on: SHA-256, JSON and text
codecs. The laws are their documented behaviour on the values that occur: a
digest is 64 upper-case hexadecimal digits, a JSON object that was written is
read back, reading raises no error of the store's own or of its locks, and the size of a
file is a 64-bit number. An object that nests too deep for `json.dumps` is never written. -/
class Host [Text] (Bytes : Type) where
  /-- `hashlib.sha256(payload).hexdigest().upper()` -/
  sha256_bytes : Bytes → String
  size : Bytes → Nat
  /-- `json.loads(path.read_text(encoding="utf-8"))` on the bytes of the file -/
  loads : Bytes → Except Err Document
  /-- `(json.dumps(data, indent=2, sort_keys=True) + "\n").encode("utf-8")` -/
  dumps : Dict → Bytes
  /-- `os.getcwd()` -/
  cwd : Path
  loads_dumps : ∀ data, loads (dumps data) = .ok (.obj data)
  loads_error : ∀ b e, loads b = .error e → e.isRecoveryError = false ∧ e.isLockTimeout = false
  upper_sha256 : ∀ b, Text.upper (sha256_bytes b) = sha256_bytes b
  strip_sha256 : ∀ b, strip (sha256_bytes b) = sha256_bytes b
  sha256_ne_empty : ∀ b, sha256_bytes b ≠ ""
  sha256_ne_absent : ∀ b, sha256_bytes b ≠ "__ABSENT__"
  size_lt : ∀ b, size b < 2 ^ 63

export Host (sha256_bytes)

attribute [simp] Host.loads_dumps Host.upper_sha256 Host.strip_sha256 Host.sha256_ne_empty
  Host.sha256_ne_absent

inductive LockKind
  | fs
  | git
  | continuity
  deriving DecidableEq, Repr

/-- The identity of an interprocess lock file: the digest in its name is taken
over the lock kind and the canonical resource path. -/
structure LockName where
  kind : LockKind
  resource : Path
  deriving DecidableEq, Repr

def lock_name_for_resource (kind : LockKind) (absolute : Path) : LockName := ⟨kind, absolute⟩

/-- The clock and randomness part of a receipt id: a 16-character timestamp,
nine digits of nanoseconds and twelve hexadecimal digits, joined by dashes. -/
structure Stamp where
  text : String
  length_eq : text.length = 39
  flat : '/' ∉ text.toList
  deriving DecidableEq

/-- A stamp for the sample hosts. -/
def Stamp.sample : Stamp := ⟨"20260101T000000Z-000000000-0123456789ab", by decide, by decide⟩

theorem Stamp.eq_of_append {front front' : String} {s s' : Stamp}
    (h : front ++ s.text = front' ++ s'.text) : s = s' := by
  have hl := congrArg String.toList h
  simp only [String.toList_append] at hl
  have hlen : s.text.toList.length = s'.text.toList.length := by
    rw [String.length_toList, String.length_toList, s.length_eq, s'.length_eq]
  have htext := String.toList_injective (List.append_inj_right' hl hlen)
  cases s
  cases s'
  simpa using htext

/-- The steps of storing a new file that can fail with an `OSError`. -/
inductive FileStep
  | create
  | write
  | flush
  | fsync
  | close
  | unlink
  deriving DecidableEq, Repr

/-- The atomic operations on the host. `install` is the replacement of a target
by a governed write; it names the receipt it is performed under, which only the
log of changes keeps. `create`, `persist` and `discard` answer whether they
succeeded: exclusive creation, one step of storing an open file (which is then
as `data` says, where it says something), and the removal of a file. -/
inductive Op (Bytes : Type)
  | is_dir (p : Path)
  | is_file (p : Path)
  | read_bytes (p : Path)
  | put (p : Path) (data : Bytes)
  | install (p : Path) (data : Bytes) (receipt_id : String)
  | unlink (p : Path)
  | glob (dir front back : String)
  | acquire (l : LockName)
  | release (l : LockName)
  | stamp
  | time_ns
  | random (n : Nat)
  | create (p : Path) (data : Bytes)
  | persist (by_step : FileStep) (p : Path) (data : Option Bytes)
  | discard (p : Path)

def Op.Res {Bytes : Type} : Op Bytes → Type
  | .is_dir _ => Bool
  | .is_file _ => Bool
  | .read_bytes _ => Option Bytes
  | .put _ _ => Unit
  | .install _ _ _ => Unit
  | .unlink _ => Unit
  | .glob _ _ _ => List Path
  | .acquire _ => Bool
  | .release _ => Unit
  | .stamp => Stamp
  | .time_ns => Int
  | .random _ => List UInt8
  | .create _ _ => Bool
  | .persist _ _ _ => Bool
  | .discard _ => Bool

/-- One change of one file, with its content before and after. -/
structure Change (Bytes : Type) where
  by_process : Pid
  path : Path
  before : Option Bytes
  after : Option Bytes
  receipt_id : Option String := none

/-- The state of the host. `stamps`, `clock` and `bytes` are what clocks and the
random source will answer, and `faults` says which of the operations that can
fail do, counted by `tries`; `drawer`, `changes` and `timeouts` are history that
no operation reads. -/
structure World (Bytes : Type) where
  files : AList fun _ : Path => Bytes
  dirs : List Path
  locks : LockName → Option Pid
  stamps : Nat → Stamp
  clock : Nat → Int
  ticks : Nat
  drawer : Nat → Option Pid
  changes : List (Change Bytes)
  timeouts : List (Pid × LockName)
  bytes : Nat → Nat → UInt8 := fun _ _ => 0
  faults : Nat → FileStep → Bool := fun _ _ => false
  tries : Nat := 0

/-- `dir.glob(front + "*" + back)` keeps `path`. -/
def globMatch (dir front back : String) (path : Path) : Bool :=
  (dir ++ "/" ++ front).toList.isPrefixOf path.toList &&
    back.toList.isSuffixOf (path.toList.drop (dir ++ "/" ++ front).length) &&
      !(path.toList.drop (dir ++ "/").length).contains '/'

namespace World

variable {Bytes : Type}

def lookup (w : World Bytes) (p : Path) : Option Bytes := w.files.lookup p

/-- Replace or create a file, logging the change. -/
def write (w : World Bytes) (i : Pid) (p : Path) (data : Bytes) (receipt_id : Option String) :
    World Bytes :=
  { w with
    files := w.files.insert p data
    changes := ⟨i, p, w.lookup p, some data, receipt_id⟩ :: w.changes }

def remove (w : World Bytes) (i : Pid) (p : Path) : World Bytes :=
  { w with
    files := w.files.erase p
    changes := ⟨i, p, w.lookup p, none, none⟩ :: w.changes }

/-- `sorted(dir.glob(front + "*" + back))`. -/
def globbed (w : World Bytes) (dir front back : String) : List Path :=
  (w.files.keys.filter (globMatch dir front back)).insertionSort (· ≤ ·)

def setLock (w : World Bytes) (l : LockName) (owner : Option Pid) : World Bytes :=
  { w with locks := Function.update w.locks l owner }

/-- An operation that can fail: `done` is the state it leaves if it does not. -/
def attempt (w : World Bytes) (by_step : FileStep) (done : World Bytes) : Bool × World Bytes :=
  if w.faults w.tries by_step then (false, { w with tries := w.tries + 1 })
  else (true, { done with tries := w.tries + 1 })

/-- What the host does for one operation of process `i`. A lock attempt on a
held lock is one that times out: attempts that only retry change nothing. -/
def step (i : Pid) : (op : Op Bytes) → World Bytes → op.Res × World Bytes
  | .is_dir p, w => (decide (p ∈ w.dirs), w)
  | .is_file p, w => ((w.lookup p).isSome, w)
  | .read_bytes p, w => (w.lookup p, w)
  | .put p data, w => ((), w.write i p data none)
  | .install p data receipt_id, w => ((), w.write i p data (some receipt_id))
  | .unlink p, w => ((), w.remove i p)
  | .glob dir front back, w => (w.globbed dir front back, w)
  | .acquire l, w =>
    if w.locks l = none then (true, w.setLock l (some i))
    else (false, { w with timeouts := (i, l) :: w.timeouts })
  | .release l, w => ((), w.setLock l none)
  | .stamp, w =>
    (w.stamps w.ticks,
      { w with ticks := w.ticks + 1, drawer := Function.update w.drawer w.ticks (some i) })
  | .time_ns, w => (w.clock w.ticks, { w with ticks := w.ticks + 1 })
  | .random n, w => ((List.range n).map (w.bytes w.ticks), { w with ticks := w.ticks + 1 })
  | .create p data, w =>
    if (w.lookup p).isSome then (false, w) else w.attempt .create (w.write i p data none)
  | .persist by_step p data, w =>
    w.attempt by_step (match data with
      | some data => w.write i p data none
      | none => w)
  | .discard p, w => w.attempt .unlink (w.remove i p)

/-- A process that dies loses its locks; every file stays as it is. -/
def crash (w : World Bytes) (i : Pid) : World Bytes :=
  { w with locks := fun l => if w.locks l = some i then none else w.locks l }

theorem lookup_write (w : World Bytes) (i : Pid) (p q : Path) (data : Bytes)
    (id : Option String) :
    (w.write i p data id).lookup q = if q = p then some data else w.lookup q := by
  unfold write lookup
  split
  · rename_i h
    rw [h]
    exact AList.lookup_insert _
  · rename_i h
    exact AList.lookup_insert_ne h

theorem lookup_remove (w : World Bytes) (i : Pid) (p q : Path) :
    (w.remove i p).lookup q = if q = p then none else w.lookup q := by
  unfold remove lookup
  split
  · rename_i h
    rw [h]
    exact AList.lookup_erase _ _
  · rename_i h
    exact AList.lookup_erase_ne h

/-- The locks that a process has waited for in vain, latest first. -/
def waited (w : World Bytes) (i : Pid) : List LockName :=
  (w.timeouts.filter fun entry => entry.1 == i).map Prod.snd

/-- The text is the random part of a receipt id that was drawn. -/
def Drawn (w : World Bytes) (s : Stamp) : Prop :=
  ∃ n < w.ticks, w.stamps n = s ∧ (w.drawer n).isSome = true

/-- The random part of the receipt ids that were drawn has not repeated so far. -/
def NoRepeat (w : World Bytes) : Prop :=
  ∀ a b, a < w.ticks → b < w.ticks → (w.drawer a).isSome = true → (w.drawer b).isSome = true →
    w.stamps a = w.stamps b → a = b

end World

def machine (Bytes : Type) : Machine Pid (Op Bytes) Op.Res (World Bytes) := ⟨World.step⟩

abbrev Jvc (Bytes α : Type) := Prog (Op Bytes) Op.Res Err α

section Primitives

variable {Bytes : Type}

def is_dir (p : Path) : Jvc Bytes Bool := .act (.is_dir p) .ret

def is_file (p : Path) : Jvc Bytes Bool := .act (.is_file p) .ret

def read_bytes (p : Path) : Jvc Bytes Bytes :=
  .act (.read_bytes p) fun
    | some data => .ret data
    | none => .fail (.OSError s!"[Errno 2] No such file or directory: '{p}'")

/-- Durable atomic replacement: temporary file, flush, fsync, `os.replace`. -/
def durable_write_bytes (p : Path) (data : Bytes) : Jvc Bytes Unit := .act (.put p data) .ret

def install (p : Path) (data : Bytes) (receipt_id : String) : Jvc Bytes Unit :=
  .act (.install p data receipt_id) .ret

def unlink (p : Path) : Jvc Bytes Unit := .act (.unlink p) .ret

def glob (dir front back : String) : Jvc Bytes (List Path) := .act (.glob dir front back) .ret

def acquire (l : LockName) : Jvc Bytes Bool := .act (.acquire l) .ret

def release (l : LockName) : Jvc Bytes Unit := .act (.release l) .ret

def draw_stamp : Jvc Bytes Stamp := .act .stamp .ret

def time_ns : Jvc Bytes Int := .act .time_ns .ret

/-- `secrets.token_bytes(n)` -/
def token_bytes (n : Nat) : Jvc Bytes (List UInt8) := .act (.random n) .ret

/-- `open(p, "x")`: the file is new, and empty. -/
def create (p : Path) (empty : Bytes) : Jvc Bytes Bool := .act (.create p empty) .ret

def persist (by_step : FileStep) (p : Path) (data : Option Bytes) : Jvc Bytes Bool :=
  .act (.persist by_step p data) .ret

/-- `p.unlink(missing_ok=True)` -/
def discard (p : Path) : Jvc Bytes Bool := .act (.discard p) .ret

end Primitives

end jvc
