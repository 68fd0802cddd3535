import Jvc.Git.Audit
import Jvc.Lib.Utf8

open jvc.recovery utf8

namespace jvc.git

/-- What `_run_git_capped` returns: the exit code, both streams as far as they
were kept, and whether more than the cap was seen of each. -/
structure Captured where
  returncode : Int
  stdout : List UInt8
  stderr : List UInt8
  out_truncated : Bool
  err_truncated : Bool
  deriving DecidableEq, Repr

def STDERR_CAP : Nat := 32 * 1024

/-- The end of `_run_git_capped`, on the buffers of the two streams. -/
def collected (returncode : Int) (out err : List UInt8) (stdout_cap stderr_cap : Nat) : Captured where
  returncode := returncode
  stdout := out.take (stdout_cap + 1)
  stderr := err.take (stderr_cap + 1)
  out_truncated := decide (stdout_cap < out.length)
  err_truncated := decide (stderr_cap < err.length)

def validate_max_bytes (max_bytes : Int) : Except Err Nat :=
  if max_bytes < 0 then .error (.ValueError s!"max_bytes must be >= 0, got {max_bytes}")
  else .ok max_bytes.toNat

/-- The loop of `_fit_bytes`; the text is given from its last character on. -/
def shrink (max_bytes : Nat) : List Char → List Char
  | [] => []
  | c :: rest =>
    if max_bytes < (encode (c :: rest).reverse).length then shrink max_bytes rest
    else (c :: rest).reverse

/-- Decode capped bytes as UTF-8, shrinking to fit max_bytes exactly. -/
def fit_bytes (raw : List UInt8) (max_bytes : Nat) : List Char :=
  shrink max_bytes (decode raw).reverse

/-- Run a Git read command with byte-exact bounds on both streams; `run` is what
`_run_git_capped` returns for a cap on stdout. -/
def capped_git_read (run : Nat → Captured) (max_bytes : Int) : Except Err Capped := do
  let max_bytes ← validate_max_bytes max_bytes
  let ran := run max_bytes
  return {
    returncode := ran.returncode
    output := String.ofList (fit_bytes (ran.stdout.take (max_bytes + 1)) max_bytes)
    error := String.ofList (fit_bytes (ran.stderr.take (STDERR_CAP + 1)) STDERR_CAP)
    truncated := ran.out_truncated
    err_truncated := ran.err_truncated }

/-- A command whose streams are captured in full up to their caps. -/
def captured (returncode : Int) (stdout stderr : List UInt8) (cap : Nat) : Captured :=
  collected returncode (stdout.take (cap + 1)) (stderr.take (STDERR_CAP + 1)) cap STDERR_CAP

section Fit

theorem shrink_prefix (max_bytes : Nat) (cs : List Char) : shrink max_bytes cs <+: cs.reverse := by
  induction cs with
  | nil => exact List.prefix_rfl
  | cons c rest ih =>
    rw [shrink]
    split
    · rw [List.reverse_cons]
      exact ih.trans (List.prefix_append _ _)
    · exact List.prefix_rfl

theorem length_shrink (max_bytes : Nat) (cs : List Char) :
    (encode (shrink max_bytes cs)).length ≤ max_bytes := by
  induction cs with
  | nil => exact Nat.zero_le _
  | cons c rest ih =>
    rw [shrink]
    split
    · exact ih
    · omega

theorem shrink_eq_self {max_bytes : Nat} {cs : List Char}
    (h : (encode cs.reverse).length ≤ max_bytes) : shrink max_bytes cs = cs.reverse := by
  cases cs with
  | nil => rfl
  | cons c rest => rw [shrink, if_neg (by omega)]

/-- A text that does not fit loses at least its last character. -/
theorem shrink_cons_prefix {max_bytes : Nat} {c : Char} {rest : List Char}
    (h : max_bytes < (encode (c :: rest).reverse).length) :
    shrink max_bytes (c :: rest) <+: rest.reverse := by
  rw [shrink, if_pos h]
  exact shrink_prefix max_bytes rest

/-- Bytes that are too many to fit leave a part of the text in front of the last
character, even where they end inside one. -/
theorem fit_bytes_prefix_fed {raw : List UInt8} {max_bytes : Nat} (h : max_bytes < raw.length) :
    fit_bytes raw max_bytes <+: (feed .start raw).1 := by
  have hlong : max_bytes < (encode (decode raw)).length :=
    Nat.lt_of_lt_of_le h (length_le_encode_decode raw)
  unfold fit_bytes
  unfold decode at hlong ⊢
  cases hend : (feed .start raw).2 with
  | start =>
    rw [finish, List.append_nil]
    have hprefix := shrink_prefix max_bytes (feed .start raw).1.reverse
    rwa [List.reverse_reverse] at hprefix
  | inside size need lo hi acc =>
    rw [hend, finish] at hlong
    rw [finish, List.reverse_append, List.reverse_singleton, List.singleton_append]
    have hlast : max_bytes < (encode (replacement :: (feed .start raw).1.reverse).reverse).length := by
      rw [List.reverse_cons, List.reverse_reverse]
      exact hlong
    have hprefix := shrink_cons_prefix hlast
    rwa [List.reverse_reverse] at hprefix

/-- The bounded text begins the decoded text of the whole output. -/
theorem fit_bytes_prefix (stdout : List UInt8) (max_bytes : Nat) :
    fit_bytes (stdout.take (max_bytes + 1)) max_bytes <+: decode stdout := by
  by_cases hlong : max_bytes < stdout.length
  · have hraw : max_bytes < (stdout.take (max_bytes + 1)).length := by
      rw [List.length_take]
      omega
    have hfed := fed_prefix (stdout.take (max_bytes + 1)) (stdout.drop (max_bytes + 1))
    rw [List.take_append_drop] at hfed
    exact (fit_bytes_prefix_fed hraw).trans hfed
  · rw [List.take_of_length_le (by omega)]
    have hprefix := shrink_prefix max_bytes (decode stdout).reverse
    rwa [List.reverse_reverse] at hprefix

theorem fit_bytes_eq_decode {raw : List UInt8} {max_bytes : Nat}
    (h : (encode (decode raw)).length ≤ max_bytes) : fit_bytes raw max_bytes = decode raw := by
  have hsmall : (encode (decode raw).reverse.reverse).length ≤ max_bytes := by
    rwa [List.reverse_reverse]
  have hfits := shrink_eq_self hsmall
  rwa [List.reverse_reverse] at hfits

end Fit

/-- The text of a bounded read is in bounds, begins the whole decoded output,
and is flagged where it is not all of it. -/
structure Honest (stdout : List UInt8) (max_bytes : Nat) (read : Capped) : Prop where
  bounded : (encode read.output.toList).length ≤ max_bytes
  beginning : read.output.toList <+: decode stdout
  flagged : read.output.toList ≠ decode stdout → read.truncated = true

theorem capped_git_read_captured (returncode : Int) (stdout stderr : List UInt8) (max_bytes : Nat) :
    ∃ read, capped_git_read (captured returncode stdout stderr) max_bytes = .ok read ∧
      read.output.toList = fit_bytes (stdout.take (max_bytes + 1)) max_bytes ∧
      read.truncated = decide (max_bytes < stdout.length) := by
  have hvalid : validate_max_bytes max_bytes = .ok max_bytes := by
    rw [validate_max_bytes, if_neg (by omega)]
    rfl
  refine ⟨_, by rw [capped_git_read, hvalid]; rfl, ?_, ?_⟩
  · simp only [captured, collected, String.toList_ofList, List.take_take, Nat.min_self]
  · simp only [captured, collected, List.length_take]
    congr 1
    exact propext (by omega)

/-- A bounded read is honest unless the output fits as bytes but not as text. -/
theorem capped_git_read_honest_iff (returncode : Int) (stdout stderr : List UInt8)
    (max_bytes : Nat) :
    (∃ read, capped_git_read (captured returncode stdout stderr) max_bytes = .ok read ∧
      Honest stdout max_bytes read) ↔
    ¬ (stdout.length ≤ max_bytes ∧ max_bytes < (encode (decode stdout)).length) := by
  obtain ⟨read, hread, houtput, htruncated⟩ :=
    capped_git_read_captured returncode stdout stderr max_bytes
  constructor
  · rintro ⟨read', hread', hhonest⟩ ⟨hfits, hlong⟩
    rw [hread] at hread'
    cases hread'
    have hcut : read.output.toList ≠ decode stdout := by
      intro hsame
      have hbounded := hhonest.bounded
      rw [hsame] at hbounded
      omega
    have hflag := hhonest.flagged hcut
    rw [htruncated, decide_eq_true_iff] at hflag
    omega
  · intro hno
    refine ⟨read, hread, ?_, ?_, ?_⟩
    · rw [houtput]
      exact length_shrink _ _
    · rw [houtput]
      exact fit_bytes_prefix stdout max_bytes
    · rw [houtput, htruncated, decide_eq_true_iff]
      intro hcut
      by_contra hshort
      refine hcut ?_
      rw [List.take_of_length_le (by omega)]
      exact fit_bytes_eq_decode (by omega)

/-- One byte that is no UTF-8 is dropped from a read of at most one byte,
without a word. -/
theorem capped_git_read_dishonest :
    ¬ ∀ (returncode : Int) (stdout stderr : List UInt8) (max_bytes : Nat), ∃ read,
      capped_git_read (captured returncode stdout stderr) max_bytes = .ok read ∧
        Honest stdout max_bytes read := by
  intro h
  exact (capped_git_read_honest_iff 0 [0xff] [] 1).mp (h 0 [0xff] [] 1) (by decide)

end jvc.git
