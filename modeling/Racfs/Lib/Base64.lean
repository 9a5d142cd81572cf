/-
# Base64

The encoding of bytes by 64 characters: three bytes make four digits of six bits, and a rest of
one or two bytes is padded by `=`.  Decoding is strict: the padding has to be there, and the bits
that do not count have to be zero.  So `decode` gives the bytes back (`decode_encode`).

`Base64Engine` is what another program may rely on.
-/
import Racfs.Lib.Bytes

namespace Racfs

/-- An encoding of bytes by texts. -/
structure Base64Engine where
  encode : Bytes → Bytes
  decode : Bytes → Option Bytes
  decode_encode : ∀ data, decode (encode data) = some data

namespace Base64

/-- The padding. -/
def pad : UInt8 := 61

/-- The character of a digit. -/
def digit (n : ℕ) : UInt8 :=
  if n < 26 then (65 + n).toUInt8
  else if n < 52 then (97 + (n - 26)).toUInt8
  else if n < 62 then (48 + (n - 52)).toUInt8
  else if n = 62 then 43
  else 47

/-- The digit of a character. -/
def value (c : UInt8) : Option ℕ :=
  let n := c.toNat
  if 65 ≤ n ∧ n < 91 then some (n - 65)
  else if 97 ≤ n ∧ n < 123 then some (n - 97 + 26)
  else if 48 ≤ n ∧ n < 58 then some (n - 48 + 52)
  else if n = 43 then some 62
  else if n = 47 then some 63
  else none

/-- The characters for bytes. -/
def encode : Bytes → Bytes
  | [] => []
  | [a] => [digit (a.toNat / 4), digit (a.toNat % 4 * 16), pad, pad]
  | [a, b] =>
    [digit (a.toNat / 4), digit (a.toNat % 4 * 16 + b.toNat / 16), digit (b.toNat % 16 * 4), pad]
  | a :: b :: c :: rest =>
    digit (a.toNat / 4) :: digit (a.toNat % 4 * 16 + b.toNat / 16) ::
      digit (b.toNat % 16 * 4 + c.toNat / 64) :: digit (c.toNat % 64) :: encode rest

/-- The bytes for one digit, two, or three that are left at the end. -/
def decodeEnd (w x y z : UInt8) : Option Bytes :=
  if z = pad then
    if y = pad then
      match value w, value x with
      | some w, some x => if x % 16 = 0 then some [(w * 4 + x / 16).toUInt8] else none
      | _, _ => none
    else
      match value w, value x, value y with
      | some w, some x, some y =>
        if y % 4 = 0 then some [(w * 4 + x / 16).toUInt8, (x % 16 * 16 + y / 4).toUInt8] else none
      | _, _, _ => none
  else
    match value w, value x, value y, value z with
    | some w, some x, some y, some z =>
      some [(w * 4 + x / 16).toUInt8, (x % 16 * 16 + y / 4).toUInt8, (y % 4 * 64 + z).toUInt8]
    | _, _, _, _ => none

/-- The bytes for characters. -/
def decode : Bytes → Option Bytes
  | [] => some []
  | [w, x, y, z] => decodeEnd w x y z
  | w :: x :: y :: z :: rest =>
    match value w, value x, value y, value z with
    | some w, some x, some y, some z =>
      (decode rest).map fun data =>
        (w * 4 + x / 16).toUInt8 :: (x % 16 * 16 + y / 4).toUInt8 :: (y % 4 * 64 + z).toUInt8 ::
          data
    | _, _, _, _ => none
  | _ => none

/-! ### The round trip -/

lemma value_digit {n : ℕ} (h : n < 64) : value (digit n) = some n := by
  have hall : ∀ n < 64, value (digit n) = some n := by decide
  exact hall n h

lemma digit_ne_pad {n : ℕ} (h : n < 64) : digit n ≠ pad := by
  have hall : ∀ n < 64, digit n ≠ pad := by decide
  exact hall n h

lemma toUInt8_eq {n : ℕ} {a : UInt8} (h : n = a.toNat) : n.toUInt8 = a := by
  rw [h]
  exact UInt8.ofNat_toNat

/-- The digits of bytes. -/
lemma digits_lt (a b c : UInt8) : a.toNat / 4 < 64 ∧ a.toNat % 4 * 16 + b.toNat / 16 < 64 ∧
    b.toNat % 16 * 4 + c.toNat / 64 < 64 ∧ c.toNat % 64 < 64 := by
  have ha := a.toNat_lt
  have hb := b.toNat_lt
  have hc := c.toNat_lt
  omega

lemma high_lt (b : UInt8) : b.toNat / 16 < 16 ∧ b.toNat / 64 < 4 := by
  have hb := b.toNat_lt
  omega

/-- The bytes again; `m` is the part of a digit that belongs to the next byte. -/
lemma first_byte (a : UInt8) {m : ℕ} (hm : m < 16) :
    (a.toNat / 4 * 4 + (a.toNat % 4 * 16 + m) / 16).toUInt8 = a :=
  toUInt8_eq (by omega)

lemma second_byte (k : ℕ) (b : UInt8) {m : ℕ} (hm : m < 4) :
    ((k * 16 + b.toNat / 16) % 16 * 16 + (b.toNat % 16 * 4 + m) / 4).toUInt8 = b := by
  have hb := b.toNat_lt
  exact toUInt8_eq (by omega)

lemma third_byte (k : ℕ) (c : UInt8) :
    ((k * 4 + c.toNat / 64) % 4 * 64 + c.toNat % 64).toUInt8 = c := by
  have hc := c.toNat_lt
  exact toUInt8_eq (by omega)

lemma encode_eq_nil {data : Bytes} (h : encode data = []) : data = [] := by
  rcases data with _ | ⟨a, _ | ⟨b, _ | ⟨c, rest⟩⟩⟩
  · rfl
  all_goals cases h

theorem decode_encode (data : Bytes) : decode (encode data) = some data := by
  induction data using encode.induct with
  | case1 => rfl
  | case2 a =>
    obtain ⟨hw, hx, -, -⟩ := digits_lt a 0 0
    have hfirst := @first_byte a 0 (by decide)
    rw [Nat.add_zero] at hfirst
    rw [encode, decode, decodeEnd, if_pos rfl, if_pos rfl, value_digit hw,
      value_digit (n := a.toNat % 4 * 16) (by omega)]
    simp only [hfirst]
    rw [if_pos (by omega)]
  | case3 a b =>
    obtain ⟨hw, hx, -, -⟩ := digits_lt a b 0
    have hy : b.toNat % 16 * 4 < 64 := by omega
    have hm := (high_lt b).1
    have hsecond := @second_byte (a.toNat % 4) b 0 (by decide)
    rw [Nat.add_zero] at hsecond
    rw [encode, decode, decodeEnd, if_pos rfl, if_neg (digit_ne_pad hy), value_digit hw,
      value_digit hx, value_digit hy]
    simp only [first_byte a hm, hsecond]
    rw [if_pos (by omega)]
  | case4 a b c rest ih =>
    obtain ⟨hw, hx, hy, hz⟩ := digits_lt a b c
    have hm := (high_lt b).1
    have hm' := (high_lt c).2
    rw [encode]
    cases hrest : encode rest with
    | nil =>
      rw [decode, decodeEnd, if_neg (digit_ne_pad hz), value_digit hw, value_digit hx,
        value_digit hy, value_digit hz]
      simp only [first_byte a hm, second_byte _ b hm', third_byte]
      rw [encode_eq_nil hrest]
    | cons e more =>
      rw [hrest] at ih
      rw [decode, value_digit hw, value_digit hx, value_digit hy, value_digit hz, ih]
      · simp only [Option.map_some, first_byte a hm, second_byte _ b hm', third_byte]
      · simp

/-- The usual alphabet. -/
def standard : Base64Engine := ⟨encode, decode, decode_encode⟩

end Base64

end Racfs
