import Mathlib.Tactic.Common

namespace utf8

/-- U+FFFD, which stands for bytes that cannot be decoded. -/
def replacement : Char := '\ufffd'

/-- Where a decoder stands: between characters, or inside one of `size` bytes
with the bits `acc` so far. It is owed `need` more bytes, the next one of them
between `lo` and `hi`. -/
inductive State
  | start
  | inside (size need lo hi acc : Nat)

/-- A byte where a character begins. -/
def first (b : Nat) : List Char × State :=
  if b < 0x80 then ([Char.ofNat b], .start)
  else if b < 0xc2 then ([replacement], .start)
  else if b < 0xe0 then ([], .inside 2 1 0x80 0xbf (b - 0xc0))
  else if b < 0xf0 then
    ([], .inside 3 2 (if b = 0xe0 then 0xa0 else 0x80) (if b = 0xed then 0x9f else 0xbf) (b - 0xe0))
  else if b < 0xf5 then
    ([], .inside 4 3 (if b = 0xf0 then 0x90 else 0x80) (if b = 0xf4 then 0x8f else 0xbf) (b - 0xf0))
  else ([replacement], .start)

def step : State → Nat → List Char × State
  | .start, b => first b
  | .inside size need lo hi acc, b =>
    if lo ≤ b ∧ b ≤ hi then
      if need = 1 then ([Char.ofNat (acc * 64 + (b - 0x80))], .start)
      else ([], .inside size (need - 1) 0x80 0xbf (acc * 64 + (b - 0x80)))
    else
      -- The bytes so far are replaced as one, and this one may begin a character.
      (replacement :: (first b).1, (first b).2)

def feed : State → List UInt8 → List Char × State
  | s, [] => ([], s)
  | s, b :: bs => ((step s b.toNat).1 ++ (feed (step s b.toNat).2 bs).1, (feed (step s b.toNat).2 bs).2)

/-- Bytes that end inside a character are replaced as one. -/
def finish : State → List Char
  | .start => []
  | .inside _ _ _ _ _ => [replacement]

/-- `bytes.decode("utf-8", errors="replace")` -/
def decode (bytes : List UInt8) : List Char := (feed .start bytes).1 ++ finish (feed .start bytes).2

/-- `text.encode("utf-8")` -/
def encode (text : List Char) : List UInt8 := text.flatMap String.utf8EncodeChar

@[simp] theorem encode_nil : encode [] = [] := rfl

theorem encode_append (as bs : List Char) : encode (as ++ bs) = encode as ++ encode bs :=
  List.flatMap_append

theorem length_encode_append (as bs : List Char) :
    (encode (as ++ bs)).length = (encode as).length + (encode bs).length := by
  rw [encode_append, List.length_append]

theorem length_encode_singleton (c : Char) : (encode [c]).length = c.utf8Size := by
  simp [encode]

theorem length_encode_pos {c : Char} {cs : List Char} : 0 < (encode (c :: cs)).length := by
  have hsplit := length_encode_append [c] cs
  have hpos := Char.utf8Size_pos c
  rw [length_encode_singleton] at hsplit
  rw [show c :: cs = [c] ++ cs from rfl]
  omega

section Feeding

theorem feed_append (s : State) (as bs : List UInt8) :
    feed s (as ++ bs) = ((feed s as).1 ++ (feed (feed s as).2 bs).1, (feed (feed s as).2 bs).2) := by
  induction as generalizing s with
  | nil => rfl
  | cons a as ih =>
    rw [List.cons_append, feed, ih, feed]
    simp only [List.append_assoc]

/-- What is decoded before a cut is decoded of the whole as well, except for a
character that the cut splits. -/
theorem fed_prefix (as bs : List UInt8) : (feed .start as).1 <+: decode (as ++ bs) := by
  rw [decode, feed_append]
  exact (List.prefix_append _ _).trans (List.prefix_append _ _)

end Feeding

section Width

theorem utf8Size_ofNat {n : Nat} (h : n.isValidChar) : (Char.ofNat n).utf8Size =
    if n ≤ 0x7f then 1 else if n ≤ 0x7ff then 2 else if n ≤ 0xffff then 3 else 4 := by
  have hval : (Char.ofNat n).val.toNat = n := by
    unfold Char.ofNat
    rw [dif_pos h]
    rfl
  simp only [Char.utf8Size, UInt32.le_iff_toNat_le, hval]
  rfl

/-- How many characters the bytes after the next one choose from. -/
def span : Nat → Nat
  | 1 => 1
  | 2 => 64
  | _ => 4096

/-- The code points from `low` up to but not including `high` take `size` bytes,
of which `need` are left. -/
inductive Room (low high : Nat) : Nat → Nat → Prop
  | two (hlow : 0x80 ≤ low) (hhigh : high ≤ 0x800) : Room low high 2 1
  | three {need : Nat} (hneed : need = 1 ∨ need = 2) (hlow : 0x800 ≤ low) (hhigh : high ≤ 0x10000)
      (hgap : high ≤ 0xd800 ∨ 0xe000 ≤ low) : Room low high 3 need
  | four {need : Nat} (hneed : need = 1 ∨ need = 2 ∨ need = 3) (hlow : 0x10000 ≤ low)
      (hhigh : high ≤ 0x110000) : Room low high 4 need

/-- The pending bytes can become characters of the size they announce. -/
def State.Fits : State → Prop
  | .start => True
  | .inside size need lo hi acc => (0x80 ≤ lo ∧ hi ≤ 0xbf ∧ lo ≤ hi) ∧
    Room ((acc * 64 + (lo - 0x80)) * span need) ((acc * 64 + (hi - 0x80) + 1) * span need) size need

/-- The bytes taken in but not decoded yet. -/
def State.held : State → Nat
  | .start => 0
  | .inside size need _ _ _ => size - need

theorem State.Fits.owed {size need lo hi acc : Nat} (h : (State.inside size need lo hi acc).Fits) :
    1 ≤ need ∧ need < size ∧ size ≤ 4 := by
  obtain ⟨_, hroom⟩ := h
  cases hroom with
  | two => decide
  | three => omega
  | four => omega

theorem State.Fits.held_le {s : State} (h : s.Fits) : s.held ≤ 3 := by
  cases s with
  | start => exact Nat.zero_le 3
  | inside size need lo hi acc =>
    have howed := h.owed
    simp only [State.held]
    omega

theorem first_fits {b : Nat} (hb : b < 256) :
    (first b).2.Fits ∧ 1 ≤ (encode (first b).1).length + (first b).2.held := by
  unfold first
  split
  · exact ⟨trivial, Nat.le_add_right_of_le length_encode_pos⟩
  split
  · exact ⟨trivial, by decide⟩
  split
  · refine ⟨⟨by decide, .two ?_ ?_⟩, Nat.le_of_ble_eq_true rfl⟩
    all_goals simp only [span]; omega
  split
  · refine ⟨⟨by split_ifs <;> omega, .three (.inr rfl) ?_ ?_ ?_⟩, Nat.le_of_ble_eq_true rfl⟩
    all_goals simp only [span]; split_ifs <;> omega
  split
  · refine ⟨⟨by split_ifs <;> omega, .four (.inr (.inr rfl)) ?_ ?_⟩, Nat.le_of_ble_eq_true rfl⟩
    all_goals simp only [span]; split_ifs <;> omega
  · exact ⟨trivial, by decide⟩

/-- A complete character takes as many bytes as were decoded for it. -/
theorem utf8Size_complete {size lo hi acc b : Nat} (h : (State.inside size 1 lo hi acc).Fits)
    (hb : lo ≤ b ∧ b ≤ hi) : (Char.ofNat (acc * 64 + (b - 0x80))).utf8Size = size := by
  obtain ⟨hrange, hroom⟩ := h
  simp only [span, Nat.mul_one] at hroom
  have hvalid : (acc * 64 + (b - 0x80)).isValidChar := by
    unfold Nat.isValidChar
    cases hroom <;> omega
  rw [utf8Size_ofNat hvalid]
  cases hroom with
  | two => rw [if_neg (by omega), if_pos (by omega)]
  | three => rw [if_neg (by omega), if_neg (by omega), if_pos (by omega)]
  | four => rw [if_neg (by omega), if_neg (by omega), if_neg (by omega)]

/-- One more byte of a character that is owed others after it. -/
theorem more_fits {size need lo hi acc b : Nat} (h : (State.inside size need lo hi acc).Fits)
    (hb : lo ≤ b ∧ b ≤ hi) (hmore : need ≠ 1) :
    (State.inside size (need - 1) 0x80 0xbf (acc * 64 + (b - 0x80))).Fits := by
  obtain ⟨hrange, hroom⟩ := h
  refine ⟨by decide, ?_⟩
  cases hroom with
  | two => exact absurd rfl hmore
  | three hneed hlow hhigh hgap =>
    obtain rfl | rfl := hneed
    · exact absurd rfl hmore
    · simp only [span, Nat.reduceSub] at hlow hhigh hgap ⊢
      exact .three (.inl rfl) (by omega) (by omega) (by omega)
  | four hneed hlow hhigh =>
    obtain rfl | rfl | rfl := hneed
    · exact absurd rfl hmore
    · simp only [span, Nat.reduceSub] at hlow hhigh ⊢
      exact .four (.inl rfl) (by omega) (by omega)
    · simp only [span, Nat.reduceSub] at hlow hhigh ⊢
      have hacc : acc * 64 + (hi - 0x80) + 1 ≤ 272 := by
        exact Nat.le_of_mul_le_mul_right (Nat.le_trans hhigh (by decide)) (by decide : 0 < 4096)
      have hroom : (acc * 64 + (b - 0x80)) * 64 + (0xbf - 0x80) + 1 ≤ 17408 := by omega
      exact .four (.inr (.inl rfl)) (by omega) (Nat.mul_le_mul_right 64 hroom)

theorem step_fits {s : State} {b : Nat} (h : s.Fits) (hb : b < 256) :
    (step s b).2.Fits ∧ s.held + 1 ≤ (encode (step s b).1).length + (step s b).2.held := by
  cases s with
  | start =>
    have hfirst := first_fits hb
    exact ⟨hfirst.1, by simpa [State.held, step] using hfirst.2⟩
  | inside size need lo hi acc =>
    have howed := h.owed
    by_cases hin : lo ≤ b ∧ b ≤ hi
    · rw [step, if_pos hin]
      split
      · rename_i hneed
        subst hneed
        refine ⟨trivial, ?_⟩
        rw [length_encode_singleton, utf8Size_complete h hin]
        simp only [State.held]
        omega
      · rename_i hmore
        refine ⟨more_fits h hin hmore, ?_⟩
        simp only [State.held, encode_nil, List.length_nil]
        omega
    · rw [step, if_neg hin]
      have hfirst := first_fits hb
      have hheld := h.held_le
      refine ⟨hfirst.1, ?_⟩
      rw [show replacement :: (first b).1 = [replacement] ++ (first b).1 from rfl,
        length_encode_append, length_encode_singleton]
      have hwidth : replacement.utf8Size = 3 := by decide
      dsimp only
      omega

theorem feed_fits {s : State} (h : s.Fits) (bs : List UInt8) : (feed s bs).2.Fits ∧
    s.held + bs.length ≤ (encode (feed s bs).1).length + (feed s bs).2.held := by
  induction bs generalizing s with
  | nil => exact ⟨h, by simp [feed]⟩
  | cons b bs ih =>
    obtain ⟨hfits, hwidth⟩ := step_fits h b.toNat_lt
    obtain ⟨hrest, hlength⟩ := ih hfits
    refine ⟨hrest, ?_⟩
    rw [feed, length_encode_append, List.length_cons]
    dsimp only
    omega

/-- Decoding never makes a text shorter than the bytes it is decoded from. -/
theorem length_le_encode_decode (bytes : List UInt8) :
    bytes.length ≤ (encode (decode bytes)).length := by
  obtain ⟨hfits, hwidth⟩ := feed_fits (s := .start) trivial bytes
  rw [decode, length_encode_append]
  have hheld := hfits.held_le
  cases hend : (feed .start bytes).2 with
  | start =>
    rw [hend] at hwidth
    simpa [State.held, finish] using hwidth
  | inside size need lo hi acc =>
    rw [hend] at hwidth hheld
    have hreplaced : (encode (finish (.inside size need lo hi acc))).length = 3 := rfl
    rw [hreplaced]
    simp only [State.held] at hwidth hheld ⊢
    omega

end Width

end utf8
