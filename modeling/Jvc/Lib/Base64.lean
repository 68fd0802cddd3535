import Mathlib.Data.List.TakeWhile
import Mathlib.Tactic.Common

namespace base64

/-- The URL-safe alphabet. -/
def alphabet : List Char :=
  "ABCDEFGHIJKLMNOPQRSTUVWXYZabcdefghijklmnopqrstuvwxyz0123456789-_".toList

def digit (n : Nat) : Char := alphabet.getD n 'A'

/-- The value of a character of the standard or of the URL-safe alphabet. -/
def value (c : Char) : Option Nat :=
  if c = '+' then some 62
  else if c = '/' then some 63
  else alphabet.idxOf? c

/-- `urlsafe_b64encode` -/
def encode : List UInt8 → List Char
  | [] => []
  | [a] => [digit (a.toNat / 4), digit (a.toNat % 4 * 16), '=', '=']
  | [a, b] =>
    [digit (a.toNat / 4), digit (a.toNat % 4 * 16 + b.toNat / 16), digit (b.toNat % 16 * 4), '=']
  | a :: b :: c :: rest =>
    digit (a.toNat / 4) :: digit (a.toNat % 4 * 16 + b.toNat / 16) ::
      digit (b.toNat % 16 * 4 + c.toNat / 64) :: digit (c.toNat % 64) :: encode rest

/-- The decoder between two characters: how many of the current four were read, the
bits of the last one that are left, and the pads read since. Characters outside the
alphabet are skipped, and text behind the pads that end a group is not read. -/
def decodeFrom (quad left pads : Nat) : List Char → Option (List UInt8)
  | [] => if quad = 0 then some [] else none
  | c :: cs =>
    if c = '=' then
      if 2 ≤ quad then
        if 4 ≤ quad + (pads + 1) then some [] else decodeFrom quad left (pads + 1) cs
      else decodeFrom quad left pads cs
    else
      match value c with
      | none => decodeFrom quad left pads cs
      | some v =>
        match quad with
        | 0 => decodeFrom 1 v 0 cs
        | 1 => (decodeFrom 2 (v % 16) 0 cs).map (UInt8.ofNat (left * 4 + v / 16) :: ·)
        | 2 => (decodeFrom 3 (v % 4) 0 cs).map (UInt8.ofNat (left * 16 + v / 4) :: ·)
        | _ => (decodeFrom 0 0 0 cs).map (UInt8.ofNat (left * 64 + v) :: ·)

/-- `urlsafe_b64decode` of ASCII text -/
def decode (cs : List Char) : Option (List UInt8) := decodeFrom 0 0 0 cs

/-- `rstrip("=")` -/
def unpad (cs : List Char) : List Char := (cs.reverse.dropWhile (· = '=')).reverse

/-- `value + "=" * (-len(value) % 4)` -/
def pad (cs : List Char) : List Char := cs ++ List.replicate ((4 - cs.length % 4) % 4) '='

theorem value_digit {n : Nat} (h : n < 64) : value (digit n) = some n := by
  have hall : ∀ n < 64, value (digit n) = some n := by decide +kernel
  exact hall n h

theorem digit_mem (n : Nat) : digit n ∈ alphabet := by
  rw [digit, List.getD_eq_getElem?_getD]
  cases hfound : alphabet[n]? with
  | none => decide
  | some c => exact List.mem_of_getElem? hfound

theorem digit_ne_pad (n : Nat) : digit n ≠ '=' := by
  intro h
  have hmem := digit_mem n
  rw [h] at hmem
  revert hmem
  decide

section Digits

variable {left pads n : Nat} (h : n < 64) (cs : List Char)

include h

/-- A digit is never skipped. -/
theorem decodeFrom_digit (quad : Nat) : decodeFrom quad left pads (digit n :: cs) =
    match quad with
    | 0 => decodeFrom 1 n 0 cs
    | 1 => (decodeFrom 2 (n % 16) 0 cs).map (UInt8.ofNat (left * 4 + n / 16) :: ·)
    | 2 => (decodeFrom 3 (n % 4) 0 cs).map (UInt8.ofNat (left * 16 + n / 4) :: ·)
    | _ => (decodeFrom 0 0 0 cs).map (UInt8.ofNat (left * 64 + n) :: ·) := by
  rw [decodeFrom, if_neg (digit_ne_pad n), value_digit h]

theorem decodeFrom_first : decodeFrom 0 left pads (digit n :: cs) = decodeFrom 1 n 0 cs := by
  apply decodeFrom_digit h cs 0

theorem decodeFrom_second : decodeFrom 1 left pads (digit n :: cs) =
    (decodeFrom 2 (n % 16) 0 cs).map (UInt8.ofNat (left * 4 + n / 16) :: ·) := by
  apply decodeFrom_digit h cs 1

theorem decodeFrom_third : decodeFrom 2 left pads (digit n :: cs) =
    (decodeFrom 3 (n % 4) 0 cs).map (UInt8.ofNat (left * 16 + n / 4) :: ·) := by
  apply decodeFrom_digit h cs 2

theorem decodeFrom_fourth : decodeFrom 3 left pads (digit n :: cs) =
    (decodeFrom 0 0 0 cs).map (UInt8.ofNat (left * 64 + n) :: ·) := by
  apply decodeFrom_digit h cs 3

end Digits

theorem decode_encode (bytes : List UInt8) : decode (encode bytes) = some bytes := by
  unfold decode
  induction bytes using encode.induct with
  | case1 => rfl
  | case2 a =>
    have ha := a.toNat_lt
    rw [encode, decodeFrom_first (by omega), decodeFrom_second (by omega)]
    have hbyte : a.toNat / 4 * 4 + a.toNat % 4 * 16 / 16 = a.toNat := by omega
    simp only [hbyte, UInt8.ofNat_toNat]
    rfl
  | case3 a b =>
    have ha := a.toNat_lt
    have hb := b.toNat_lt
    rw [encode, decodeFrom_first (by omega), decodeFrom_second (by omega),
      decodeFrom_third (by omega)]
    have hfirst : a.toNat / 4 * 4 + (a.toNat % 4 * 16 + b.toNat / 16) / 16 = a.toNat := by omega
    have hsecond : (a.toNat % 4 * 16 + b.toNat / 16) % 16 * 16 + b.toNat % 16 * 4 / 4 =
        b.toNat := by omega
    simp only [hfirst, hsecond, UInt8.ofNat_toNat]
    rfl
  | case4 a b c rest ih =>
    have ha := a.toNat_lt
    have hb := b.toNat_lt
    have hc := c.toNat_lt
    rw [encode, decodeFrom_first (by omega), decodeFrom_second (by omega),
      decodeFrom_third (by omega), decodeFrom_fourth (by omega)]
    have hfirst : a.toNat / 4 * 4 + (a.toNat % 4 * 16 + b.toNat / 16) / 16 = a.toNat := by omega
    have hsecond : (a.toNat % 4 * 16 + b.toNat / 16) % 16 * 16 +
        (b.toNat % 16 * 4 + c.toNat / 64) / 4 = b.toNat := by omega
    have hthird : (b.toNat % 16 * 4 + c.toNat / 64) % 4 * 64 + c.toNat % 64 = c.toNat := by omega
    simp only [hfirst, hsecond, hthird, UInt8.ofNat_toNat, ih]
    rfl

/-- The text is digits and the pads that fill its last group. -/
theorem encode_shape (bytes : List UInt8) : ∃ digits pads, encode bytes =
    digits ++ List.replicate pads '=' ∧ (∀ c ∈ digits, ∃ n, c = digit n) ∧
      pads = (4 - digits.length % 4) % 4 := by
  induction bytes using encode.induct with
  | case1 => exact ⟨[], 0, rfl, by simp, rfl⟩
  | case2 a => exact ⟨[digit _, digit _], 2, rfl, by simp, rfl⟩
  | case3 a b => exact ⟨[digit _, digit _, digit _], 1, rfl, by simp, rfl⟩
  | case4 a b c rest ih =>
    obtain ⟨digits, pads, hshape, hdigits, hpads⟩ := ih
    refine ⟨digit _ :: digit _ :: digit _ :: digit _ :: digits, pads,
      by rw [encode, hshape]; rfl, ?_, ?_⟩
    · simp only [List.mem_cons]
      rintro d (rfl | rfl | rfl | rfl | hd)
      · exact ⟨_, rfl⟩
      · exact ⟨_, rfl⟩
      · exact ⟨_, rfl⟩
      · exact ⟨_, rfl⟩
      · exact hdigits d hd
    · simp only [List.length_cons]
      omega

/-- The text without its pads is digits, and padding restores it. -/
theorem unpad_encode (bytes : List UInt8) :
    (∀ c ∈ unpad (encode bytes), ∃ n, c = digit n) ∧ pad (unpad (encode bytes)) = encode bytes := by
  obtain ⟨digits, pads, hshape, hdigits, hpads⟩ := encode_shape bytes
  have hunpad : unpad (encode bytes) = digits := by
    have hpad : ∀ c ∈ List.replicate pads '=', decide (c = '=') = true := by
      intro c hc
      simpa using List.eq_of_mem_replicate hc
    have hdigit : ∀ c ∈ digits.reverse, ¬ decide (c = '=') = true := by
      intro c hc
      obtain ⟨n, rfl⟩ := hdigits c (List.mem_reverse.mp hc)
      simpa using digit_ne_pad n
    rw [hshape, unpad, List.reverse_append, List.reverse_replicate,
      List.dropWhile_append_of_pos hpad]
    cases hrev : digits.reverse with
    | nil =>
      rw [List.reverse_eq_nil_iff.mp hrev]
      rfl
    | cons c cs =>
      have hc := hdigit c (hrev ▸ List.mem_cons_self)
      rw [List.dropWhile_cons, if_neg hc, ← hrev, List.reverse_reverse]
  rw [hunpad, pad, ← hpads, hshape]
  exact ⟨hdigits, rfl⟩

/-- Text without pads is decoded to the bytes it was made from. -/
theorem decode_pad_unpad (bytes : List UInt8) :
    decode (pad (unpad (encode bytes))) = some bytes := by
  rw [(unpad_encode bytes).2, decode_encode]

end base64
