/-
# Cutting a list into pieces of one size

The pieces of a list are numbered from zero, and each begins where the one before it ends
(`chunkAt`).  All of them have the same size except for the last one, which is not empty
(`isCut_chunks`), and together they are the list.
-/
import Mathlib.Tactic.Common

namespace Racfs

variable {α : Type*}

/-- One piece of a list. -/
def chunkAt (n : ℕ) (l : List α) (i : ℕ) : List α := (l.drop (i * n)).take n

/-- How many pieces a list of some length has. -/
def chunkCount (n len : ℕ) : ℕ := (len + n - 1) / n

/-- The pieces of a list. -/
def chunks (n : ℕ) (l : List α) : List (List α) :=
  (List.range (chunkCount n l.length)).map (chunkAt n l)

/-- The pieces are of one size except for the last one, which is not empty, and together they are
the list. -/
structure IsCut (n : ℕ) (l : List α) (pieces : List (List α)) : Prop where
  flatten : pieces.flatten = l
  full : ∀ p ∈ pieces.dropLast, p.length = n
  last : ∀ p ∈ pieces.getLast?, p ≠ [] ∧ p.length ≤ n

@[simp] lemma length_chunks (n : ℕ) (l : List α) :
    (chunks n l).length = chunkCount n l.length := by
  rw [chunks, List.length_map, List.length_range]

lemma lt_chunkCount_iff {n : ℕ} (hn : 0 < n) {i len : ℕ} : i < chunkCount n len ↔ i * n < len := by
  have hstep : (i + 1) * n = i * n + n := Nat.succ_mul i n
  rw [chunkCount, Nat.lt_iff_add_one_le, Nat.le_div_iff_mul_le hn]
  omega

lemma length_chunkAt (n : ℕ) (l : List α) (i : ℕ) :
    (chunkAt n l i).length = min n (l.length - i * n) := by
  rw [chunkAt, List.length_take, List.length_drop]

lemma chunkAt_ne_nil {n : ℕ} (hn : 0 < n) {l : List α} {i : ℕ} (hi : i < chunkCount n l.length) :
    chunkAt n l i ≠ [] := by
  rw [lt_chunkCount_iff hn] at hi
  rw [← List.length_pos_iff, length_chunkAt]
  omega

lemma length_chunkAt_of_lt {n : ℕ} (hn : 0 < n) {l : List α} {i : ℕ}
    (hi : i + 1 < chunkCount n l.length) : (chunkAt n l i).length = n := by
  have hstep : (i + 1) * n = i * n + n := Nat.succ_mul i n
  rw [lt_chunkCount_iff hn] at hi
  rw [length_chunkAt]
  omega

/-- The first pieces are the beginning of the list. -/
lemma flatten_map_chunkAt (n : ℕ) (l : List α) (k : ℕ) :
    ((List.range k).map (chunkAt n l)).flatten = l.take (k * n) := by
  induction k with
  | zero => simp
  | succ k ih =>
    rw [List.range_succ, List.map_append, List.flatten_append, ih, List.map_singleton,
      List.flatten_singleton, chunkAt, Nat.succ_mul, List.take_add]

/-- A piece by where it begins and ends. -/
lemma chunkAt_eq_drop_take (n : ℕ) (l : List α) (i : ℕ) :
    chunkAt n l i = (l.take (min (i * n + n) l.length)).drop (i * n) := by
  rw [List.drop_take, chunkAt, List.take_eq_take_iff, List.length_drop]
  omega

lemma getElem_chunks {n : ℕ} {l : List α} {i : ℕ} (hi : i < (chunks n l).length) :
    (chunks n l)[i] = chunkAt n l i := by
  simp [chunks]

theorem isCut_chunks {n : ℕ} (hn : 0 < n) (l : List α) : IsCut n l (chunks n l) where
  flatten := by
    rw [chunks, flatten_map_chunkAt, List.take_of_length_le]
    rw [← Nat.not_lt, ← lt_chunkCount_iff hn]
    exact Nat.lt_irrefl _
  full := by
    intro p hp
    obtain ⟨i, hi, rfl⟩ := List.mem_iff_getElem.1 hp
    rw [List.length_dropLast, length_chunks] at hi
    rw [List.getElem_dropLast, getElem_chunks]
    exact length_chunkAt_of_lt hn (by omega)
  last := by
    intro p hp
    obtain ⟨i, hi, rfl⟩ := List.mem_iff_getElem.1 (List.mem_of_getLast? hp)
    rw [length_chunks] at hi
    rw [getElem_chunks, length_chunkAt]
    exact ⟨chunkAt_ne_nil hn hi, Nat.min_le_left _ _⟩

end Racfs
