/-
# Offsets as machine words

An offset in a file is a signed word, and the code uses it as an unsigned one where it indexes
a vector.  For an offset that is not negative the two are the same number; a negative one
becomes a number that is past the end of every vector.
-/
import Racfs.Lib.Bytes
import Mathlib.Algebra.Group.Int.Defs
import Mathlib.Data.Nat.Basic

namespace Racfs.Offset

/-- The unsigned word of an offset, as a number. -/
lemma toNat_eq (x : Int64) :
    (x.toUInt64.toNat : ℤ) = if 0 ≤ x.toInt then x.toInt else x.toInt + 2 ^ 64 := by
  have hword : x.toUInt64.toNat = x.toBitVec.toNat := rfl
  have hint : x.toInt = x.toBitVec.toInt := rfl
  have hlt := x.toBitVec.isLt
  rw [hword, hint, BitVec.toInt_eq_toNat_cond]
  split_ifs <;> omega

lemma toNat_of_nonneg {x : Int64} (h : 0 ≤ x) : x.toUInt64.toNat = x.toInt.toNat := by
  have hint : 0 ≤ x.toInt := Int64.le_iff_toInt_le.1 h
  have heq := toNat_eq x
  rw [if_pos hint] at heq
  omega

lemma le_toNat_of_neg {x : Int64} (h : x < 0) : 2 ^ 63 ≤ x.toUInt64.toNat := by
  have hint : x.toInt < 0 := Int64.lt_iff_toInt_lt.1 h
  have hmin := x.le_toInt
  have heq := toNat_eq x
  rw [if_neg (by omega)] at heq
  omega

/-- A negative offset that is replaced by zero. -/
lemma toNat_max (x : Int64) : (max x 0).toUInt64.toNat = x.toInt.toNat := by
  show (if x ≤ 0 then (0 : Int64) else x).toUInt64.toNat = _
  split_ifs with h
  · have hint : x.toInt ≤ 0 := Int64.le_iff_toInt_le.1 h
    rw [Int.toNat_of_nonpos hint]
    rfl
  · have hint : ¬ x.toInt ≤ 0 := fun hle => h (Int64.le_iff_toInt_le.2 hle)
    have hpos : (0 : Int64).toInt ≤ x.toInt := by
      show 0 ≤ x.toInt
      omega
    exact toNat_of_nonneg (Int64.le_iff_toInt_le.2 hpos)

lemma toInt_min (x y : Int64) : (min x y).toInt = min x.toInt y.toInt := by
  show (if x ≤ y then x else y).toInt = _
  split_ifs with h
  · have hle : x.toInt ≤ y.toInt := Int64.le_iff_toInt_le.1 h
    omega
  · have hle : ¬ x.toInt ≤ y.toInt := fun hle => h (Int64.le_iff_toInt_le.2 hle)
    omega

/-- A sum that has not left the signed words. -/
lemma toNat_le_add {x y : Int64} (hy : 0 ≤ y.toInt) (hsum : 0 ≤ (x + y).toInt) :
    x.toInt.toNat ≤ (x + y).toInt.toNat := by
  have hx := x.toInt_lt
  have hx' := x.le_toInt
  have hy' := y.toInt_lt
  rw [Int64.toInt_add, Int.bmod_def] at hsum ⊢
  omega

end Racfs.Offset
