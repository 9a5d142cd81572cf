/-
# Decimal numbers as text

The text of a number as the formatting functions print it (`decimal`), with zeros in front up to
a minimal width (`zeroPadded`), and how such texts are ordered as strings.  Texts of one length
are in the order of the numbers.  A longer text is compared by its leading digits only, so the
order of zero-padded numbers is the order of the numbers as long as none of them needs more than
the minimal width, and no longer (`compare_zeroPadded`).

The proofs go through `fixed`, the last `w` digits of a number.
-/
import Racfs.Lib.Bytes
import Mathlib.Algebra.Order.Ring.Nat
import Mathlib.Tactic.Common

namespace Racfs

/-- The character of a digit. -/
def digit (d : ℕ) : UInt8 := d.digitChar.toNat.toUInt8

/-- The text of a number. -/
def decimal (n : ℕ) : Bytes := ascii (toString n)

/-- The text of a number, with zeros in front when it is shorter than `w`. -/
def zeroPadded (w n : ℕ) : Bytes :=
  List.replicate (w - (decimal n).length) (digit 0) ++ decimal n

/-- The last `w` digits of a number. -/
def fixed : ℕ → ℕ → Bytes
  | 0, _ => []
  | w + 1, n => fixed w (n / 10) ++ [digit (n % 10)]

/-- Whether a byte is a decimal digit. -/
def isDigit (b : UInt8) : Bool := digit 0 ≤ b && b ≤ digit 9

/-- The number that a text of digits stands for. -/
def digitsValue (s : Bytes) : ℕ := s.foldl (fun n b => 10 * n + (b - digit 0).toNat) 0

/-- `str::parse` for an unsigned number of 64 bits: digits, perhaps after a `+`. -/
def parseU64 (s : Bytes) : Option UInt64 :=
  let digits := if s.head? = some 43 then s.tail else s
  if digits ≠ [] ∧ digits.all isDigit ∧ digitsValue digits < 2 ^ 64 then
    some (digitsValue digits).toUInt64
  else none

/-- The same for 32 bits. -/
def parseU32 (s : Bytes) : Option UInt32 :=
  let digits := if s.head? = some 43 then s.tail else s
  if digits ≠ [] ∧ digits.all isDigit ∧ digitsValue digits < 2 ^ 32 then
    some (digitsValue digits).toUInt32
  else none

/-- The same for 16 bits. -/
def parseU16 (s : Bytes) : Option UInt16 :=
  let digits := if s.head? = some 43 then s.tail else s
  if digits ≠ [] ∧ digits.all isDigit ∧ digitsValue digits < 2 ^ 16 then
    some (digitsValue digits).toUInt16
  else none

/-! ### The digits -/

lemma decimal_eq (n : ℕ) :
    decimal n = (Nat.toDigits 10 n).map fun c => c.toNat.toUInt8 := by
  rw [decimal, ascii, Nat.toString_eq_repr, Nat.toList_repr]

lemma decimal_of_lt {n : ℕ} (h : n < 10) : decimal n = [digit n] := by
  rw [decimal_eq, Nat.toDigits_of_lt_base h]
  rfl

lemma decimal_of_le {n : ℕ} (h : 10 ≤ n) :
    decimal n = decimal (n / 10) ++ [digit (n % 10)] := by
  rw [decimal_eq, Nat.toDigits_of_base_le (by decide) h, List.map_append, ← decimal_eq]
  rfl

lemma decimal_length_le_iff {n k : ℕ} (hk : 0 < k) : (decimal n).length ≤ k ↔ n < 10 ^ k := by
  rw [decimal_eq, List.length_map, Nat.length_toDigits_le_iff (by decide) hk]

lemma decimal_length_pos (n : ℕ) : 0 < (decimal n).length := by
  rw [decimal_eq, List.length_map]
  exact Nat.length_toDigits_pos

lemma lt_pow_decimal_length (n : ℕ) : n < 10 ^ (decimal n).length :=
  (decimal_length_le_iff (decimal_length_pos n)).1 le_rfl

@[simp] lemma length_fixed (w n : ℕ) : (fixed w n).length = w := by
  induction w generalizing n with
  | zero => rfl
  | succ w ih => simp [fixed, ih]

lemma fixed_zero (w : ℕ) : fixed w 0 = List.replicate w (digit 0) := by
  induction w with
  | zero => rfl
  | succ w ih => rw [fixed, Nat.zero_div, ih, List.replicate_succ']

/-- The leading ones of the last digits are the last digits of the quotient. -/
lemma fixed_add (v w n : ℕ) : fixed (v + w) n = fixed v (n / 10 ^ w) ++ fixed w n := by
  induction w generalizing n with
  | zero => simp [fixed]
  | succ w ih =>
    show fixed (v + w) (n / 10) ++ _ = _
    rw [ih, fixed, Nat.div_div_eq_div_mul, ← pow_succ', List.append_assoc]

lemma fixed_decimal_length (n : ℕ) : fixed (decimal n).length n = decimal n := by
  induction n using Nat.strong_induction_on with
  | _ n ih =>
    rcases Nat.lt_or_ge n 10 with h | h
    · rw [decimal_of_lt h]
      simp [fixed, Nat.mod_eq_of_lt h]
    · rw [decimal_of_le h, List.length_append, List.length_singleton, fixed,
        ih (n / 10) (by omega)]

/-- How long the text of a number is. -/
def width (w n : ℕ) : ℕ := max w (decimal n).length

lemma lt_pow_width (w n : ℕ) : n < 10 ^ width w n :=
  lt_of_lt_of_le (lt_pow_decimal_length n) (Nat.pow_le_pow_right (by decide) (le_max_right _ _))

lemma zeroPadded_eq_fixed (w n : ℕ) : zeroPadded w n = fixed (width w n) n := by
  have hwidth : width w n = (w - (decimal n).length) + (decimal n).length := by
    rw [width]
    omega
  rw [hwidth, fixed_add, Nat.div_eq_of_lt (lt_pow_decimal_length n), fixed_zero,
    fixed_decimal_length, zeroPadded]

lemma width_mono {w k m : ℕ} (h : k ≤ m) : width w k ≤ width w m := by
  refine max_le_max le_rfl ?_
  rw [decimal_length_le_iff (decimal_length_pos m)]
  exact lt_of_le_of_lt h (lt_pow_decimal_length m)

lemma width_eq_of_lt {w n : ℕ} (hw : 0 < w) (h : n < 10 ^ w) : width w n = w :=
  max_eq_left ((decimal_length_le_iff hw).2 h)

lemma exists_digit_of_mem_fixed {w n : ℕ} {b : UInt8} (h : b ∈ fixed w n) :
    ∃ d < 10, b = digit d := by
  induction w generalizing n with
  | zero => simp [fixed] at h
  | succ w ih =>
    rcases List.mem_append.1 h with h | h
    · exact ih h
    · exact ⟨n % 10, Nat.mod_lt n (by decide), List.mem_singleton.1 h⟩

lemma isAscii_zeroPadded (w n : ℕ) : IsAscii (zeroPadded w n) := by
  intro b hb
  rw [zeroPadded_eq_fixed] at hb
  obtain ⟨d, hd, rfl⟩ := exists_digit_of_mem_fixed hb
  have h : ∀ d : Fin 10, digit d < 0x80 := by decide
  exact h ⟨d, hd⟩

lemma slash_not_mem_zeroPadded (w n : ℕ) : slash ∉ zeroPadded w n := by
  intro hb
  rw [zeroPadded_eq_fixed] at hb
  obtain ⟨d, hd, heq⟩ := exists_digit_of_mem_fixed hb
  have h : ∀ d : Fin 10, slash ≠ digit d := by decide
  exact h ⟨d, hd⟩ heq

lemma le_length_zeroPadded (w n : ℕ) : w ≤ (zeroPadded w n).length := by
  rw [zeroPadded_eq_fixed, length_fixed]
  exact le_max_left _ _

/-! ### Parsing -/

lemma digitsValue_concat (s : Bytes) {d : ℕ} (hd : d < 10) :
    digitsValue (s ++ [digit d]) = 10 * digitsValue s + d := by
  have h : ∀ d : Fin 10, (digit d - digit 0).toNat = d := by decide
  rw [digitsValue, List.foldl_append, List.foldl_cons, List.foldl_nil, h ⟨d, hd⟩]
  rfl

lemma digitsValue_fixed (w n : ℕ) : digitsValue (fixed w n) = n % 10 ^ w := by
  induction w generalizing n with
  | zero => rw [pow_zero, Nat.mod_one]; rfl
  | succ w ih =>
    rw [fixed, digitsValue_concat _ (Nat.mod_lt n (by decide)), ih, pow_succ', Nat.mod_mul]
    omega

lemma isDigit_of_mem_zeroPadded {w n : ℕ} {b : UInt8} (h : b ∈ zeroPadded w n) :
    isDigit b = true := by
  rw [zeroPadded_eq_fixed] at h
  obtain ⟨d, hd, rfl⟩ := exists_digit_of_mem_fixed h
  have hdigit : ∀ d : Fin 10, isDigit (digit d) = true := by decide
  exact hdigit ⟨d, hd⟩

lemma zeroPadded_ne_nil (w n : ℕ) : zeroPadded w n ≠ [] := by
  have hpos := decimal_length_pos n
  rw [zeroPadded, Ne, List.append_eq_nil_iff, ← List.length_eq_zero_iff (l := decimal n)]
  omega

/-- What a parser looks at in the text of a number. -/
lemma parts_zeroPadded (w n : ℕ) : (zeroPadded w n).head? ≠ some 43 ∧ zeroPadded w n ≠ [] ∧
    (zeroPadded w n).all isDigit = true ∧ digitsValue (zeroPadded w n) = n := by
  have hplus : (zeroPadded w n).head? ≠ some 43 := by
    intro h
    have hdigit := isDigit_of_mem_zeroPadded (List.mem_of_mem_head? h)
    exact absurd hdigit (by decide)
  have hvalue : digitsValue (zeroPadded w n) = n := by
    rw [zeroPadded_eq_fixed, digitsValue_fixed, Nat.mod_eq_of_lt (lt_pow_width w n)]
  have hall : (zeroPadded w n).all isDigit = true :=
    List.all_eq_true.2 fun b hb => isDigit_of_mem_zeroPadded hb
  exact ⟨hplus, zeroPadded_ne_nil w n, hall, hvalue⟩

/-- The text of a number is parsed as that number. -/
theorem parseU64_zeroPadded (w : ℕ) (n : UInt64) : parseU64 (zeroPadded w n.toNat) = some n := by
  obtain ⟨hplus, hne, hall, hvalue⟩ := parts_zeroPadded w n.toNat
  have hparts : zeroPadded w n.toNat ≠ [] ∧ (zeroPadded w n.toNat).all isDigit = true ∧
      n.toNat < 2 ^ 64 := ⟨hne, hall, n.toNat_lt⟩
  simp only [parseU64, if_neg hplus, hvalue, if_pos hparts]
  rw [Nat.toUInt64, UInt64.ofNat_toNat]

lemma zeroPadded_zero (n : ℕ) : zeroPadded 0 n = decimal n := by
  rw [zeroPadded, Nat.zero_sub, List.replicate_zero, List.nil_append]

lemma parseU64_decimal (n : UInt64) : parseU64 (decimal n.toNat) = some n := by
  rw [← zeroPadded_zero, parseU64_zeroPadded]

lemma parseU16_decimal (n : UInt16) : parseU16 (decimal n.toNat) = some n := by
  obtain ⟨hplus, hne, hall, hvalue⟩ := parts_zeroPadded 0 n.toNat
  rw [← zeroPadded_zero]
  have hparts : zeroPadded 0 n.toNat ≠ [] ∧ (zeroPadded 0 n.toNat).all isDigit = true ∧
      n.toNat < 2 ^ 16 := ⟨hne, hall, n.toNat_lt⟩
  simp only [parseU16, if_neg hplus, hvalue, if_pos hparts]
  rw [Nat.toUInt16, UInt16.ofNat_toNat]

/-! ### The order of the texts -/

lemma compare_digit {a b : ℕ} (ha : a < 10) (hb : b < 10) :
    compare (digit a) (digit b) = compare a b := by
  have h : ∀ a b : Fin 10, compare (digit a) (digit b) = compare a.1 b.1 := by decide
  exact h ⟨a, ha⟩ ⟨b, hb⟩

lemma compare_append {a b : Bytes} (h : a.length = b.length) (c d : Bytes) :
    compare (a ++ c) (b ++ d) = (compare a b).then (compare c d) := by
  induction a generalizing b with
  | nil =>
    obtain rfl : b = [] := List.length_eq_zero_iff.1 h.symm
    rfl
  | cons x a ih =>
    cases b with
    | nil => simp at h
    | cons y b =>
      simp only [List.cons_append, List.compare_cons_cons, Ordering.then_assoc]
      rw [ih (by simpa using h)]

lemma compare_div_mod (a b : ℕ) :
    compare a b = (compare (a / 10) (b / 10)).then (compare (a % 10) (b % 10)) := by
  rcases Nat.lt_trichotomy (a / 10) (b / 10) with h | h | h
  · rw [Nat.compare_eq_lt.2 h, Nat.compare_eq_lt.2 (by omega)]
    rfl
  · rw [Nat.compare_eq_eq.2 h, Ordering.eq_then]
    rcases Nat.lt_trichotomy a b with hab | hab | hab
    · rw [Nat.compare_eq_lt.2 hab, Nat.compare_eq_lt.2 (by omega)]
    · rw [hab, Std.ReflOrd.compare_self, Std.ReflOrd.compare_self]
    · rw [Nat.compare_eq_gt.2 hab, Nat.compare_eq_gt.2 (by omega)]
  · rw [Nat.compare_eq_gt.2 h, Nat.compare_eq_gt.2 (by omega)]
    rfl

/-- Texts of one length are in the order of the numbers. -/
theorem compare_fixed {w a b : ℕ} (ha : a < 10 ^ w) (hb : b < 10 ^ w) :
    compare (fixed w a) (fixed w b) = compare a b := by
  induction w generalizing a b with
  | zero =>
    rw [pow_zero, Nat.lt_one_iff] at ha hb
    rw [ha, hb]
    rfl
  | succ w ih =>
    have ha' : a / 10 < 10 ^ w := Nat.div_lt_of_lt_mul (by rwa [← pow_succ'])
    have hb' : b / 10 < 10 ^ w := Nat.div_lt_of_lt_mul (by rwa [← pow_succ'])
    have hdigit : compare [digit (a % 10)] [digit (b % 10)] = compare (a % 10) (b % 10) := by
      rw [← compare_digit (Nat.mod_lt a (by decide)) (Nat.mod_lt b (by decide))]
      simp [List.compare_cons_cons]
    rw [fixed, fixed, compare_append (by simp), ih ha' hb', hdigit, ← compare_div_mod]

/-- A number comes before a greater one exactly when it is at most the leading digits of it. -/
theorem compare_zeroPadded {w k m : ℕ} (hkm : k < m) :
    compare (zeroPadded w k) (zeroPadded w m) = .lt ↔
      k ≤ m / 10 ^ (width w m - width w k) := by
  obtain ⟨d, hd⟩ := Nat.exists_eq_add_of_le (width_mono (w := w) hkm.le)
  have hm : m / 10 ^ d < 10 ^ width w k := by
    refine Nat.div_lt_of_lt_mul ?_
    rw [← pow_add, Nat.add_comm, ← hd]
    exact lt_pow_width w m
  rw [zeroPadded_eq_fixed, zeroPadded_eq_fixed, hd, fixed_add, Nat.add_sub_cancel_left]
  nth_rewrite 1 [← List.append_nil (fixed (width w k) k)]
  rw [compare_append (by simp), compare_fixed (lt_pow_width w k) hm]
  rcases Nat.lt_trichotomy k (m / 10 ^ d) with h | h | h
  · rw [Nat.compare_eq_lt.2 h]
    exact iff_of_true rfl h.le
  · rw [Nat.compare_eq_eq.2 h, Ordering.eq_then]
    -- one text is the beginning of the other, and they differ, so there is more of it
    have hd0 : d ≠ 0 := by
      rintro rfl
      rw [pow_zero, Nat.div_one] at h
      omega
    obtain ⟨d, rfl⟩ := Nat.exists_eq_succ_of_ne_zero hd0
    refine iff_of_true ?_ h.le
    cases hf : fixed (d + 1) m with
    | nil => simpa using congrArg List.length hf
    | cons b l => rfl
  · rw [Nat.compare_eq_gt.2 h]
    exact iff_of_false (by simp) (by omega)

lemma zeroPadded_injective (w : ℕ) : Function.Injective (zeroPadded w) := by
  intro k m h
  rw [zeroPadded_eq_fixed, zeroPadded_eq_fixed] at h
  have hwidth : width w k = width w m := by simpa using congrArg List.length h
  have hcompare := compare_fixed (hwidth ▸ lt_pow_width w k) (lt_pow_width w m)
  rw [← hwidth, h, hwidth, Std.ReflOrd.compare_self, eq_comm, Nat.compare_eq_eq] at hcompare
  exact hcompare

end Racfs
