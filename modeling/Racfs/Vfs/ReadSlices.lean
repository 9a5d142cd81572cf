/-
# The slice of a read

A read gets its offset and its size as signed words, and nothing checks them before.  The few lines
that compute a slice from them stand in every filesystem.  `MemFS`, `KvFS` and `QueueFS` add the
two as signed words and take the sum as an unsigned one afterwards, `StreamFS` takes both as
unsigned words and adds them then.  A build may have checks for overflow, and wraps around
otherwise.

So the first three fail where the sum is too large, or negative while there is content, and
`StreamFS` fails for a negative offset: a read that starts before the content panics or returns
too much (`sliceExact_iff`).
-/
import Racfs.Lib.Offset
import Racfs.KvFs.Model
import Racfs.QueueFs.Model
import Racfs.StreamFs.Steps
import Racfs.Vfs.PathTree

namespace Racfs.Vfs

open StreamFs (Vec Result)

/-- `a + b` for signed words. -/
def addSigned (checks : Bool) (a b : Int64) : Result Int64 :=
  if checks ∧ ¬ (-2 ^ 63 ≤ a.toInt + b.toInt ∧ a.toInt + b.toInt < 2 ^ 63) then .error .overflow
  else .ok (a + b)

/-- The slice of a read, with an end in signed arithmetic. -/
def signedSlice (checks : Bool) (data : Vec) (offset size : Int64) : Result Bytes := do
  let start := (max offset 0).toUInt64
  let stop ←
    if size < 0 then .ok data.len
    else (addSigned checks offset size).map fun stop =>
      (min stop (Int64.ofNat data.bytes.length)).toUInt64
  if start.toNat ≥ data.bytes.length then .ok [] else data.slice start stop

/-- The filesystems that slice a content by themselves. -/
inductive Backend
  | memFs
  | kvFs
  | queueFs
  | streamFs

/-- The slice of a read. -/
def readSlice (checks : Bool) : Backend → Vec → Int64 → Int64 → Result Bytes
  | .memFs => signedSlice checks
  | .kvFs => signedSlice checks
  | .queueFs => signedSlice checks
  | .streamFs => StreamFs.readAt checks

/-- Every build returns the window of the content. -/
def SliceExact (b : Backend) (data : Vec) (offset size : Int64) : Prop :=
  ∀ checks, readSlice checks b data offset size =
    .ok (window data.bytes offset.toInt size.toInt)

/-- The numbers that the arithmetic of a filesystem is right for. -/
def SliceFits (b : Backend) (data : Vec) (offset size : Int64) : Prop :=
  let stop := offset.toInt + size.toInt
  size < 0 ∨
  match b with
  | .streamFs => 0 ≤ offset ∨ data.bytes = [] ∧ stop < 0
  | _ => stop < 2 ^ 63 ∧ (0 ≤ stop ∨ data.bytes = [])

/-! ### Slices that are in order -/

section Slices

variable {data : Vec} {offset size : Int64} {checks : Bool}

/-- A slice whose end is at a position or at the end of the content. -/
lemma slice_of_le {start stop : UInt64} {e : ℕ}
    (h : start.toNat < data.bytes.length →
      start.toNat ≤ e ∧ stop.toNat = min e data.bytes.length) :
    (if start.toNat ≥ data.bytes.length then .ok [] else data.slice start stop : Result Bytes) =
      .ok ((data.bytes.take e).drop start.toNat) := by
  by_cases hpast : start.toNat ≥ data.bytes.length
  · rw [if_pos hpast, List.drop_eq_nil_of_le]
    exact (List.length_take_le' _ _).trans hpast
  · obtain ⟨hstart, hstop⟩ := h (by omega)
    rw [if_neg hpast, Vec.slice, if_pos (by omega), hstop, ← List.take_take, List.take_length]

/-- An end that is past every content. -/
lemma slice_of_lt {start stop : UInt64} (hstart : start.toNat < data.bytes.length)
    (hstop : data.bytes.length < stop.toNat) :
    (if start.toNat ≥ data.bytes.length then .ok [] else data.slice start stop : Result Bytes) =
      .error .slice := by
  rw [if_neg (by omega), Vec.slice, if_neg (by omega)]

lemma toInt_nonneg_of_not_lt (hsize : ¬ size < 0) : 0 ≤ size.toInt := by
  have hlt : size < 0 ↔ size.toInt < 0 := Int64.lt_iff_toInt_lt
  exact not_lt.mp (mt hlt.mpr hsize)

/-! ### The end in signed arithmetic -/

lemma signedSlice_of_neg (hsize : size < 0) :
    signedSlice checks data offset size =
      .ok (window data.bytes offset.toInt size.toInt) := by
  have hsize' : size.toInt < 0 := Int64.lt_iff_toInt_lt.mp hsize
  rw [signedSlice, if_pos hsize, window, if_pos hsize', ← Offset.toNat_max]
  refine slice_of_le fun hstart => ⟨hstart.le, ?_⟩
  rw [data.toNat_len, min_self]

lemma addSigned_of_lt (checks : Bool) (hsize : ¬ size < 0)
    (hfit : offset.toInt + size.toInt < 2 ^ 63) :
    addSigned checks offset size = .ok (offset + size) ∧
      (offset + size).toInt = offset.toInt + size.toInt := by
  have hpos := toInt_nonneg_of_not_lt hsize
  have hmin : -2 ^ 63 ≤ offset.toInt := Int64.le_toInt offset
  constructor
  · rw [addSigned, if_neg]
    rintro ⟨-, hnot⟩
    exact hnot ⟨by omega, hfit⟩
  · rw [Int64.toInt_add]
    exact Int.bmod_eq_of_le (by omega) (by omega)

/-- The end of a slice as an unsigned word, for a sum that has not overflowed. -/
lemma toInt_min_length (stop : Int64) (data : Vec) :
    (min stop (Int64.ofNat data.bytes.length)).toInt = min stop.toInt data.bytes.length := by
  have hle := data.length_le
  rw [StreamFs.isizeMax] at hle
  rw [Offset.toInt_min, Int64.toInt_ofNat_of_lt (by omega)]

lemma signedSlice_of_fits (hsize : ¬ size < 0) (hfit : offset.toInt + size.toInt < 2 ^ 63)
    (hstop : 0 ≤ offset.toInt + size.toInt ∨ data.bytes = []) :
    signedSlice checks data offset size =
      .ok (window data.bytes offset.toInt size.toInt) := by
  have hpos := toInt_nonneg_of_not_lt hsize
  obtain ⟨hadd, hsum⟩ := addSigned_of_lt checks hsize hfit
  rw [signedSlice, if_neg hsize, hadd, window, if_neg (by omega), ← Offset.toNat_max]
  refine slice_of_le fun hstart => ?_
  have hnonneg : 0 ≤ offset.toInt + size.toInt := by
    rcases hstop with hstop | hnil
    · exact hstop
    · rw [hnil] at hstart
      exact absurd hstart (Nat.not_lt_zero _)
  have hint := toInt_min_length (offset + size) data
  rw [hsum] at hint
  have hmin : 0 ≤ min (offset + size) (Int64.ofNat data.bytes.length) := by
    rw [Int64.le_iff_toInt_le, hint]
    exact le_min hnonneg (Int.natCast_nonneg _)
  rw [Offset.toNat_of_nonneg hmin, hint, Offset.toNat_max]
  omega

lemma signedSlice_of_overflow (hsum : ¬ offset.toInt + size.toInt < 2 ^ 63) (hsize : ¬ size < 0) :
    signedSlice true data offset size = .error .overflow := by
  rw [signedSlice, if_neg hsize, addSigned, if_pos ⟨rfl, fun h => hsum h.2⟩]
  rfl

/-- A negative end is past the content as an unsigned word. -/
lemma signedSlice_of_lt (hsize : ¬ size < 0) (hlt : offset.toInt + size.toInt < 0)
    (hne : data.bytes ≠ []) : signedSlice checks data offset size = .error .slice := by
  have hpos := toInt_nonneg_of_not_lt hsize
  obtain ⟨hadd, hsum⟩ := addSigned_of_lt checks hsize (hlt.trans (by decide))
  rw [signedSlice, if_neg hsize, hadd]
  have hlength := List.length_pos_of_ne_nil hne
  have hle := data.length_le
  rw [StreamFs.isizeMax] at hle
  refine slice_of_lt ?_ ?_
  · rw [Offset.toNat_max]
    omega
  · have hint := toInt_min_length (offset + size) data
    rw [hsum] at hint
    refine lt_of_lt_of_le ?_ (Offset.le_toNat_of_neg ?_)
    · omega
    · rw [Int64.lt_iff_toInt_lt, hint]
      exact lt_of_le_of_lt (min_le_left _ _) hlt

/-- Without checks this is what the model of `MemFS` computes. -/
lemma readData_eq_signedSlice (data : Vec) (offset size : Int64) :
    MemFs.MemFS.readData data.bytes offset size =
      match signedSlice false data offset size with
      | .ok b => .ok b
      | .error _ => .panic := by
  have hlen := data.toNat_len
  have hadd : addSigned false offset size = .ok (offset + size) := by
    rw [addSigned, if_neg (by simp)]
  rw [MemFs.MemFS.readData, signedSlice, hadd]
  by_cases hsize : size < 0
  · simp only [if_pos hsize, bind, Except.bind, Vec.slice, hlen]
    split_ifs <;> rfl
  · simp only [if_neg hsize, bind, Except.bind, Except.map, Vec.slice]
    split_ifs <;> rfl

/-! ### The end in unsigned arithmetic -/

/-- The start of a slice. -/
lemma toNat_start (offset : Int64) :
    (if offset < 0 then (0 : UInt64) else offset.toUInt64).toNat = offset.toInt.toNat := by
  split_ifs with hneg
  · have hint : offset.toInt < 0 := Int64.lt_iff_toInt_lt.mp hneg
    rw [Int.toNat_of_nonpos hint.le]
    rfl
  · exact Offset.toNat_of_nonneg (Int64.not_lt.mp hneg)

lemma toNat_min_len (stop : UInt64) (data : Vec) :
    (min stop data.len).toNat = min stop.toNat data.bytes.length := by
  rw [← data.toNat_len]
  show (if stop ≤ data.len then stop else data.len).toNat = _
  split_ifs with hle
  · exact (min_eq_left (UInt64.le_iff_toNat_le.mp hle)).symm
  · exact (min_eq_right (Nat.le_of_lt (UInt64.lt_iff_toNat_lt.mp (UInt64.not_le.mp hle)))).symm

lemma readAt_of_neg (hsize : size < 0) :
    StreamFs.readAt checks data offset size =
      .ok (window data.bytes offset.toInt size.toInt) := by
  have hsize' : size.toInt < 0 := Int64.lt_iff_toInt_lt.mp hsize
  rw [StreamFs.readAt, StreamFs.readEnd, if_pos hsize, window, if_pos hsize', ← toNat_start]
  refine slice_of_le fun hstart => ⟨hstart.le, ?_⟩
  rw [data.toNat_len, min_self]

lemma readAt_of_nonneg (hsize : ¬ size < 0) (hoffset : 0 ≤ offset) :
    StreamFs.readAt checks data offset size =
      .ok (window data.bytes offset.toInt size.toInt) := by
  have hpos := toInt_nonneg_of_not_lt hsize
  have hoffset' : 0 ≤ offset.toInt := Int64.le_iff_toInt_le.mp hoffset
  have ha := Offset.toNat_of_nonneg hoffset
  have hb := Offset.toNat_of_nonneg (Int64.not_lt.mp hsize)
  have hmax := offset.toInt_lt
  have hmax' := size.toInt_lt
  have hlt : offset.toUInt64.toNat + size.toUInt64.toNat < 2 ^ 64 := by omega
  have hsum : (offset.toUInt64 + size.toUInt64).toNat =
      offset.toUInt64.toNat + size.toUInt64.toNat := by
    rw [UInt64.toNat_add, Nat.mod_eq_of_lt hlt]
  have hsize' : ¬ size.toInt < 0 := not_lt.mpr hpos
  rw [StreamFs.readAt, StreamFs.readEnd, if_neg hsize, StreamFs.add_of_lt hlt, window,
    if_neg hsize', ← toNat_start]
  refine slice_of_le fun _ => ?_
  rw [toNat_start, toNat_min_len, hsum]
  omega

lemma toNat_of_lt (hoffset : offset < 0) :
    (offset.toUInt64.toNat : ℤ) = offset.toInt + 2 ^ 64 := by
  have hoffset' : offset.toInt < 0 := Int64.lt_iff_toInt_lt.mp hoffset
  rw [Offset.toNat_eq, if_neg (by omega)]

/-- A read that starts before the content and ends in it. -/
lemma readAt_of_overflow (hsize : ¬ size < 0) (hoffset : offset < 0)
    (hsum : 0 ≤ offset.toInt + size.toInt) :
    StreamFs.readAt true data offset size = .error .overflow := by
  have ha := toNat_of_lt hoffset
  have hb := Offset.toNat_of_nonneg (Int64.not_lt.mp hsize)
  rw [StreamFs.readAt, StreamFs.readEnd, if_neg hsize, StreamFs.add, if_pos ⟨rfl, by omega⟩]
  rfl

/-- A read that ends before the content returns all of it. -/
lemma readAt_of_lt (hsize : ¬ size < 0) (hlt : offset.toInt + size.toInt < 0) :
    StreamFs.readAt checks data offset size = .ok data.bytes := by
  have hpos := toInt_nonneg_of_not_lt hsize
  have hoffset : offset < 0 := by
    rw [Int64.lt_iff_toInt_lt]
    show offset.toInt < 0
    omega
  have ha := toNat_of_lt hoffset
  have hb := Offset.toNat_of_nonneg (Int64.not_lt.mp hsize)
  have hmin := offset.le_toInt
  have hle := data.length_le
  rw [StreamFs.isizeMax] at hle
  have hfit : offset.toUInt64.toNat + size.toUInt64.toNat < 2 ^ 64 := by omega
  have hsum : (offset.toUInt64 + size.toUInt64).toNat =
      offset.toUInt64.toNat + size.toUInt64.toNat := by
    rw [UInt64.toNat_add, Nat.mod_eq_of_lt hfit]
  rw [StreamFs.readAt, StreamFs.readEnd, if_neg hsize, StreamFs.add_of_lt hfit]
  refine (slice_of_le (e := data.bytes.length) fun hstart => ⟨hstart.le, ?_⟩).trans ?_
  · rw [toNat_min_len, hsum]
    omega
  · rw [toNat_start, List.take_length, show offset.toInt.toNat = 0 by omega, List.drop_zero]

end Slices

/-! ### When a slice is the window -/

lemma window_of_lt {data : Bytes} {offset size : ℤ} (hsize : ¬ size < 0) (h : offset + size < 0) :
    window data offset size = [] := by
  rw [window, if_neg hsize, Int.toNat_of_nonpos h.le, List.take_zero, List.drop_nil]

lemma signedSlice_eq_window_iff {data : Vec} {offset size : Int64} :
    (∀ checks, signedSlice checks data offset size =
        .ok (window data.bytes offset.toInt size.toInt)) ↔
      size < 0 ∨ offset.toInt + size.toInt < 2 ^ 63 ∧
        (0 ≤ offset.toInt + size.toInt ∨ data.bytes = []) := by
  constructor
  · intro h
    by_contra hnot
    obtain ⟨hsize, hnot⟩ := not_or.mp hnot
    by_cases hfit : offset.toInt + size.toInt < 2 ^ 63
    · obtain ⟨hlt, hne⟩ := not_or.mp fun hstop => hnot ⟨hfit, hstop⟩
      have hread := h true
      rw [signedSlice_of_lt hsize (not_le.mp hlt) hne] at hread
      nomatch hread
    · have hread := h true
      rw [signedSlice_of_overflow hfit hsize] at hread
      nomatch hread
  · rintro (hsize | ⟨hfit, hstop⟩) checks
    · exact signedSlice_of_neg hsize
    · by_cases hsize : size < 0
      · exact signedSlice_of_neg hsize
      · exact signedSlice_of_fits hsize hfit hstop

lemma readAt_eq_window_iff {data : Vec} {offset size : Int64} :
    (∀ checks, StreamFs.readAt checks data offset size =
        .ok (window data.bytes offset.toInt size.toInt)) ↔
      size < 0 ∨ 0 ≤ offset ∨ data.bytes = [] ∧ offset.toInt + size.toInt < 0 := by
  constructor
  · intro h
    by_contra hnot
    obtain ⟨hsize, hnot⟩ := not_or.mp hnot
    obtain ⟨hoffset, hnot⟩ := not_or.mp hnot
    have hpos := toInt_nonneg_of_not_lt hsize
    by_cases hlt : offset.toInt + size.toInt < 0
    · have hread := h true
      rw [readAt_of_lt hsize hlt, window_of_lt (by omega) hlt] at hread
      exact hnot ⟨Except.ok.inj hread, hlt⟩
    · have hread := h true
      rw [readAt_of_overflow hsize (Int64.not_le.mp hoffset) (not_lt.mp hlt)] at hread
      nomatch hread
  · rintro (hsize | hoffset | ⟨hnil, hlt⟩) checks
    · exact readAt_of_neg hsize
    all_goals by_cases hsize : size < 0
    · exact readAt_of_neg hsize
    · exact readAt_of_nonneg hsize hoffset
    · exact readAt_of_neg hsize
    · have hpos := toInt_nonneg_of_not_lt hsize
      rw [readAt_of_lt hsize hlt, window_of_lt (by omega) hlt, hnil]

/-- **Slices.**  Every build slices the window of the content if and only if the numbers are such
that the arithmetic of the filesystem is right for them. -/
theorem sliceExact_iff (b : Backend) (data : Vec) (offset size : Int64) :
    SliceExact b data offset size ↔ SliceFits b data offset size := by
  cases b with
  | memFs => exact signedSlice_eq_window_iff
  | kvFs => exact signedSlice_eq_window_iff
  | queueFs => exact signedSlice_eq_window_iff
  | streamFs => exact readAt_eq_window_iff

/-- One byte, read from two bytes before it. -/
theorem sliceExact_before :
    (∀ checks, readSlice checks .memFs ⟨[7], by decide⟩ (-2) 1 = .error .slice) ∧
    (∀ checks, readSlice checks .kvFs ⟨[7], by decide⟩ (-2) 1 = .error .slice) ∧
    (∀ checks, readSlice checks .queueFs ⟨[7], by decide⟩ (-2) 1 = .error .slice) ∧
    (∀ checks, readSlice checks .streamFs ⟨[7], by decide⟩ (-2) 1 = .ok [7]) ∧
    readSlice true .streamFs ⟨[7], by decide⟩ (-1) 1 = .error .overflow ∧
    readSlice true .memFs ⟨[7], by decide⟩ 1 Int64.maxValue = .error .overflow ∧
    ∀ b, ¬ SliceExact b ⟨[7], by decide⟩ (-2) 1 := by
  have hmem : ∀ checks, signedSlice checks ⟨[7], by decide⟩ (-2) 1 = .error .slice :=
    fun checks => signedSlice_of_lt (by decide) (by decide) (by decide)
  have hstream : ∀ checks, StreamFs.readAt checks ⟨[7], by decide⟩ (-2) 1 = .ok [7] :=
    fun checks => readAt_of_lt (by decide) (by decide)
  have hover : signedSlice true ⟨[7], by decide⟩ 1 Int64.maxValue = .error .overflow :=
    signedSlice_of_overflow (by decide) (by decide)
  have hover' : StreamFs.readAt true ⟨[7], by decide⟩ (-1) 1 = .error .overflow :=
    readAt_of_overflow (by decide) (by decide) (by decide)
  refine ⟨hmem, hmem, hmem, hstream, hover', hover, ?_⟩
  have hwindow : window [7] (-2 : Int64).toInt (1 : Int64).toInt = [] :=
    window_of_lt (by decide) (by decide)
  intro b h
  have hread := h true
  rw [hwindow] at hread
  cases b with
  | memFs => nomatch (hmem true).symm.trans hread
  | kvFs => nomatch (hmem true).symm.trans hread
  | queueFs => nomatch (hmem true).symm.trans hread
  | streamFs => exact absurd (Except.ok.inj ((hstream true).symm.trans hread)) nofun

end Racfs.Vfs
