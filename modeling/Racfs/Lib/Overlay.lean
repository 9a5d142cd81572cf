/-
# Writing at a position

A piece is data together with the offset where it is to be written.  `overlay` writes one of
them over a content: the gap between the end of the content and the offset is filled with zeros,
and nothing else changes (`getD_overlay`).

Of several pieces written one after another, the byte at a position is what the last of those
that reach it puts there (`lastWriter`, `getD_overlays`).  Written in the order of their offsets,
it is what the one with the greatest offset puts there (`topWriter`,
`lastWriter_insertionSort`).  So the order does not matter exactly if these two agree on every
position (`overlays_eq_iff`).

Two writes of which the second begins inside of the first, or at its end, are one
(`overlay_overlay`).
-/
import Racfs.Lib.Bytes
import Mathlib.Data.List.Sort
import Mathlib.Order.Lattice

namespace Racfs

/-- Data, and the offset where it is to be written. -/
abbrev Piece := ℕ × Bytes

/-- Write a piece over a content; a gap is filled with zeros. -/
def overlay (content : Bytes) (s : Piece) : Bytes :=
  let stop := s.1 + s.2.length
  copyFromSlice (if stop > content.length then resize content stop else content) s.1 s.2

/-- Write pieces one after another. -/
def overlays (content : Bytes) (segs : List Piece) : Bytes := segs.foldl overlay content

/-- The piece has a byte for the position. -/
def Reaches (i : ℕ) (s : Piece) : Prop := s.1 ≤ i ∧ i < s.1 + s.2.length

instance (i : ℕ) (s : Piece) : Decidable (Reaches i s) := inferInstanceAs (Decidable (_ ∧ _))

/-- The byte that a piece has for a position. -/
def byteAt (i : ℕ) (s : Piece) : UInt8 := s.2.getD (i - s.1) 0

/-- The last piece that reaches the position. -/
def lastWriter (i : ℕ) : List Piece → Option Piece
  | [] => none
  | s :: segs => (lastWriter i segs).or (if Reaches i s then some s else none)

/-- The piece with the greatest offset that reaches the position, and of several with this
offset the last one. -/
def topWriter (i : ℕ) : List Piece → Option Piece
  | [] => none
  | s :: segs =>
    match topWriter i segs with
    | none => if Reaches i s then some s else none
    | some t => if Reaches i s ∧ t.1 < s.1 then some s else some t

/-! ### One write -/

lemma eq_of_getD {a b : Bytes} (hlen : a.length = b.length) (h : ∀ i, a.getD i 0 = b.getD i 0) :
    a = b := by
  refine List.ext_getElem hlen fun i hia hib => ?_
  have := h i
  rwa [List.getD_eq_getElem _ _ hia, List.getD_eq_getElem _ _ hib] at this

lemma getD_resize {data : Bytes} {n : ℕ} (h : data.length ≤ n) (i : ℕ) :
    (resize data n).getD i 0 = data.getD i 0 := by
  rw [resize, List.take_of_length_le h]
  rcases lt_or_ge i data.length with hi | hi
  · exact List.getD_append _ _ _ _ hi
  · rw [List.getD_append_right _ _ _ _ hi, List.getD_eq_default _ _ hi]
    rcases lt_or_ge (i - data.length) (n - data.length) with hn | hn
    · exact List.getD_replicate _ hn
    · exact List.getD_eq_default _ _ (by simpa using hn)

lemma getD_copyFromSlice {data src : Bytes} {start : ℕ} (h : start + src.length ≤ data.length)
    (i : ℕ) :
    (copyFromSlice data start src).getD i 0 =
      if start ≤ i ∧ i < start + src.length then src.getD (i - start) 0 else data.getD i 0 := by
  have htake : (data.take start).length = start := by
    rw [List.length_take]
    omega
  rw [copyFromSlice, List.append_assoc]
  rcases lt_or_ge i start with hi | hi
  · rw [List.getD_append _ _ _ _ (by omega), if_neg (by omega)]
    simp [List.getD_eq_getElem?_getD, hi]
  · rw [List.getD_append_right _ _ _ _ (by omega), htake]
    rcases lt_or_ge i (start + src.length) with hs | hs
    · rw [List.getD_append _ _ _ _ (by omega), if_pos ⟨hi, hs⟩]
    · rw [List.getD_append_right _ _ _ _ (by omega), if_neg (by omega)]
      have : start + src.length + (i - start - src.length) = i := by omega
      simp only [List.getD_eq_getElem?_getD, List.getElem?_drop, this]

@[simp] lemma length_overlay (content : Bytes) (s : Piece) :
    (overlay content s).length = max content.length (s.1 + s.2.length) := by
  rw [overlay]
  by_cases hlong : s.1 + s.2.length > content.length
  · simp only [if_pos hlong]
    rw [length_copyFromSlice (by simp), length_resize, max_eq_right hlong.le]
  · simp only [if_neg hlong]
    rw [length_copyFromSlice (not_lt.1 hlong), max_eq_left (not_lt.1 hlong)]

/-- A write changes the bytes of its piece only. -/
lemma getD_overlay (content : Bytes) (s : Piece) (i : ℕ) :
    (overlay content s).getD i 0 = if Reaches i s then byteAt i s else content.getD i 0 := by
  rw [overlay]
  by_cases hlong : s.1 + s.2.length > content.length
  · simp only [if_pos hlong]
    rw [getD_copyFromSlice (by simp), getD_resize hlong.le]
    rfl
  · simp only [if_neg hlong]
    rw [getD_copyFromSlice (not_lt.1 hlong)]
    rfl

/-- A write that begins at the end of the content or after it. -/
lemma overlay_of_le {content : Bytes} {s : Piece} (h : content.length ≤ s.1) :
    overlay content s = resize content s.1 ++ s.2 := by
  apply eq_of_getD
  · simp only [length_overlay, List.length_append, length_resize]
    omega
  · intro i
    rw [getD_overlay]
    by_cases hreach : Reaches i s
    · rw [if_pos hreach, List.getD_append_right _ _ _ _ (by simpa using hreach.1), length_resize]
      rfl
    · rw [if_neg hreach, ← getD_resize h]
      rcases lt_or_ge i s.1 with hi | hi
      · exact (List.getD_append _ _ _ _ (by simpa using hi)).symm
      · -- nothing is there before the write, nor after it
        have hpast : s.1 + s.2.length ≤ i := not_lt.1 fun hlt => hreach ⟨hi, hlt⟩
        rw [List.getD_eq_default _ _ (by simpa using hi),
          List.getD_eq_default _ _ (by simpa using hpast)]

/-- The gap can be filled before the write. -/
lemma overlay_grown (content : Bytes) (s : Piece) :
    overlay (if s.1 > content.length then resize content s.1 else content) s =
      overlay content s := by
  split_ifs with hgap
  · apply eq_of_getD
    · simp only [length_overlay, length_resize]
      omega
    · intro i
      rw [getD_overlay, getD_overlay, getD_resize hgap.le]
  · rfl

/-- A write that ends inside of the content. -/
lemma overlay_of_inside {content : Bytes} {s : Piece} (h : s.1 + s.2.length ≤ content.length) :
    overlay content s = copyFromSlice content s.1 s.2 := by
  rw [overlay, if_neg (not_lt.2 h)]

/-- A write that cuts off what comes after it. -/
lemma overlay_eq_take_append_iff {content : Bytes} {s : Piece} :
    overlay content s = content.take s.1 ++ s.2 ↔
      s.1 ≤ content.length ∧ content.length ≤ s.1 + s.2.length := by
  constructor
  · intro heq
    have hlen := congrArg List.length heq
    rw [length_overlay, List.length_append, List.length_take] at hlen
    omega
  · rintro ⟨hbegin, hend⟩
    have htake : (content.take s.1).length = s.1 := List.length_take_of_le hbegin
    apply eq_of_getD
    · rw [length_overlay, List.length_append, htake]
      omega
    · intro i
      rw [getD_overlay]
      by_cases hreach : Reaches i s
      · rw [if_pos hreach, List.getD_append_right _ _ _ _ (by simpa [htake] using hreach.1), htake]
        rfl
      · rw [if_neg hreach]
        rcases lt_or_ge i s.1 with hi | hi
        · rw [List.getD_append _ _ _ _ (by simpa [htake] using hi)]
          simp [List.getD_eq_getElem?_getD, hi]
        · -- the content does not go on after the write
          have hpast : s.1 + s.2.length ≤ i := not_lt.1 fun hlt => hreach ⟨hi, hlt⟩
          rw [List.getD_eq_default _ _ (by omega),
            List.getD_eq_default _ _ (by rw [List.length_append, htake]; exact hpast)]

/-- The joined piece reaches what one of the two reaches. -/
lemma reaches_overlay {s t : Piece} (hle : s.1 ≤ t.1) (htouch : t.1 ≤ s.1 + s.2.length) {i : ℕ} :
    Reaches i (s.1, overlay s.2 (t.1 - s.1, t.2)) ↔ Reaches i s ∨ Reaches i t := by
  simp only [Reaches, length_overlay]
  omega

/-- Of the two, the second has the last word. -/
lemma byteAt_overlay {s t : Piece} (hle : s.1 ≤ t.1) {i : ℕ} (hi : s.1 ≤ i) :
    byteAt i (s.1, overlay s.2 (t.1 - s.1, t.2)) =
      if Reaches i t then byteAt i t else byteAt i s := by
  have hinner : Reaches (i - s.1) (t.1 - s.1, t.2) ↔ Reaches i t := by
    simp only [Reaches]
    omega
  have hsub : i - s.1 - (t.1 - s.1) = i - t.1 := by omega
  simp only [byteAt, getD_overlay, hinner, hsub]

/-- A write that begins inside of the one before, or at its end, can be done in that one. -/
lemma overlay_overlay (content : Bytes) {s t : Piece} (hle : s.1 ≤ t.1)
    (htouch : t.1 ≤ s.1 + s.2.length) :
    overlay (overlay content s) t = overlay content (s.1, overlay s.2 (t.1 - s.1, t.2)) := by
  apply eq_of_getD
  · simp only [length_overlay]
    omega
  · intro i
    rw [getD_overlay, getD_overlay, getD_overlay]
    by_cases ht : Reaches i t
    · rw [if_pos ht, if_pos ((reaches_overlay hle htouch).2 (Or.inr ht)),
        byteAt_overlay hle (hle.trans ht.1), if_pos ht]
    · rw [if_neg ht]
      by_cases hs : Reaches i s
      · rw [if_pos hs, if_pos ((reaches_overlay hle htouch).2 (Or.inl hs)),
          byteAt_overlay hle hs.1, if_neg ht]
      · rw [if_neg hs, if_neg fun h => ((reaches_overlay hle htouch).1 h).elim hs ht]

/-! ### Writes one after another -/

@[simp] lemma overlays_nil (content : Bytes) : overlays content [] = content := rfl

@[simp] lemma overlays_cons (content : Bytes) (s : Piece) (segs : List Piece) :
    overlays content (s :: segs) = overlays (overlay content s) segs := rfl

lemma overlays_concat (content : Bytes) (s : Piece) (segs : List Piece) :
    overlays content (segs ++ [s]) = overlay (overlays content segs) s := by
  rw [overlays, List.foldl_append]
  rfl

/-- What a position holds after the writes. -/
lemma getD_overlays (content : Bytes) (segs : List Piece) (i : ℕ) :
    (overlays content segs).getD i 0 =
      ((lastWriter i segs).map (byteAt i)).getD (content.getD i 0) := by
  induction segs generalizing content with
  | nil => rfl
  | cons s segs ih =>
    rw [overlays_cons, ih, getD_overlay, lastWriter]
    cases lastWriter i segs with
    | some t => rfl
    | none => by_cases h : Reaches i s <;> simp [h]

lemma length_overlays (content : Bytes) (segs : List Piece) :
    (overlays content segs).length =
      segs.foldl (fun n s => max n (s.1 + s.2.length)) content.length := by
  induction segs generalizing content with
  | nil => rfl
  | cons s segs ih => rw [overlays_cons, ih, length_overlay, List.foldl_cons]

lemma length_overlays_perm (content : Bytes) {a b : List Piece} (h : a.Perm b) :
    (overlays content a).length = (overlays content b).length := by
  rw [length_overlays, length_overlays]
  exact h.foldl_eq' (fun s _ t _ n => by omega) _

lemma lastWriter_eq_none_iff {i : ℕ} {segs : List Piece} :
    lastWriter i segs = none ↔ ∀ s ∈ segs, ¬ Reaches i s := by
  induction segs with
  | nil => simp [lastWriter]
  | cons s segs ih =>
    rw [lastWriter, Option.or_eq_none_iff, ih, List.forall_mem_cons, and_comm]
    simp

lemma mem_of_lastWriter {i : ℕ} {segs : List Piece} {t : Piece}
    (h : lastWriter i segs = some t) : t ∈ segs ∧ Reaches i t := by
  induction segs with
  | nil => simp [lastWriter] at h
  | cons s segs ih =>
    rw [lastWriter, Option.or_eq_some_iff] at h
    rcases h with h | ⟨-, h⟩
    · exact ⟨List.mem_cons_of_mem _ (ih h).1, (ih h).2⟩
    · obtain ⟨hs, heq⟩ := Option.ite_none_right_eq_some.1 h
      obtain rfl := Option.some.inj heq
      exact ⟨List.mem_cons_self, hs⟩

/-- The order of the writes does not matter exactly if at every position the last pieces that
reach it have the same byte there. -/
theorem overlays_eq_iff (content : Bytes) {a b : List Piece} (h : a.Perm b) :
    overlays content a = overlays content b ↔
      ∀ i, (lastWriter i a).map (byteAt i) = (lastWriter i b).map (byteAt i) := by
  constructor
  · intro heq i
    have hbyte := getD_overlays content a i
    rw [heq, getD_overlays] at hbyte
    -- a position is reached in both orders or in none
    have hnone : lastWriter i a = none ↔ lastWriter i b = none := by
      simp only [lastWriter_eq_none_iff, h.mem_iff]
    cases ha : lastWriter i a with
    | none => rw [hnone.1 ha]
    | some s =>
      cases hb : lastWriter i b with
      | none => rw [hnone.2 hb] at ha; simp at ha
      | some t => simpa [ha, hb] using hbyte.symm
  · intro heq
    refine eq_of_getD (length_overlays_perm content h) fun i => ?_
    rw [getD_overlays, getD_overlays, heq]

/-! ### The order of the offsets -/

lemma lastWriter_orderedInsert {i : ℕ} (s : Piece) {segs : List Piece}
    (hsorted : segs.Pairwise fun a b => a.1 ≤ b.1) :
    lastWriter i (segs.orderedInsert (fun a b => a.1 ≤ b.1) s) =
      match lastWriter i segs with
      | none => if Reaches i s then some s else none
      | some t => if Reaches i s ∧ t.1 < s.1 then some s else some t := by
  induction segs with
  | nil => simp [lastWriter]
  | cons first segs ih =>
    obtain ⟨hfirst, hsorted⟩ := List.pairwise_cons.1 hsorted
    rw [List.orderedInsert_cons]
    by_cases hle : s.1 ≤ first.1
    · -- all pieces of the list come after this one
      rw [if_pos hle, lastWriter]
      cases hlast : lastWriter i (first :: segs) with
      | none => rfl
      | some t =>
        have hmem : first.1 ≤ t.1 := by
          rcases List.mem_cons.1 (mem_of_lastWriter hlast).1 with rfl | hmem
          · exact le_rfl
          · exact hfirst t hmem
        simp only [Option.some_or]
        rw [if_neg (by omega)]
    · rw [if_neg hle, lastWriter, ih hsorted, lastWriter]
      cases lastWriter i segs with
      | none =>
        by_cases hs : Reaches i s <;> by_cases hf : Reaches i first <;> simp [hs, hf]
        omega
      | some t =>
        simp only [Option.some_or]
        split <;> rfl

/-- The last piece in the order of the offsets. -/
theorem lastWriter_insertionSort (i : ℕ) (segs : List Piece) :
    lastWriter i (segs.insertionSort fun a b => a.1 ≤ b.1) = topWriter i segs := by
  have htotal : Std.Total fun a b : Piece => a.1 ≤ b.1 := ⟨fun a b => le_total a.1 b.1⟩
  have htrans : IsTrans Piece fun a b => a.1 ≤ b.1 := ⟨fun _ _ _ => le_trans⟩
  induction segs with
  | nil => rfl
  | cons s segs ih =>
    rw [List.insertionSort_cons, lastWriter_orderedInsert s (List.pairwise_insertionSort _ segs),
      ih]
    rfl

/-- Pieces of which none overlaps an earlier one with a greater offset. -/
theorem topWriter_eq_lastWriter (i : ℕ) {segs : List Piece}
    (h : segs.Pairwise fun s t => s.1 ≤ t.1 ∨ t.1 + t.2.length ≤ s.1) :
    topWriter i segs = lastWriter i segs := by
  induction segs with
  | nil => rfl
  | cons s segs ih =>
    obtain ⟨hs, hsegs⟩ := List.pairwise_cons.1 h
    rw [topWriter, ih hsegs, lastWriter]
    cases hlast : lastWriter i segs with
    | none => rfl
    | some t =>
      obtain ⟨hmem, hreach⟩ := mem_of_lastWriter hlast
      have hlater := hs t hmem
      -- the later piece does not begin before this one where both reach the position
      have hnot : ¬ (Reaches i s ∧ t.1 < s.1) := by
        simp only [Reaches] at hreach ⊢
        omega
      simp only [if_neg hnot, Option.some_or]

end Racfs
