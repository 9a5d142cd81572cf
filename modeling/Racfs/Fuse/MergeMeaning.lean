/-
# What merging does to the buffered writes

The runs of `mergeWriteSegments` are written one after another, each at its offset
(`applyRuns`).  Joining is harmless: the runs have the effect of the segments in the order in
which they are sorted (`applyRuns_merge_eq_sorted`).  Sorting is not: it puts the segments in
the order of their offsets, and where two of them overlap, the one with the greater offset has
the last word, whichever came last.

So merging keeps the meaning of the segments exactly if at every position the last segment that
reaches it and the one with the greatest offset have the same byte there
(`applyRuns_merge_eq_iff`).
-/
import Racfs.Fuse.Merge
import Racfs.Lib.Overlay

namespace Racfs.Fuse

/-- A run with its offset as a number. -/
def toPiece (run : Run) : Piece := (run.1.toNat, run.2)

/-- Write runs one after another. -/
def applyRuns (content : Bytes) (runs : List Run) : Bytes := overlays content (runs.map toPiece)

/-- The end of the run is an offset. -/
def EndFits (run : Run) : Prop := run.1.toNat + run.2.length < 2 ^ 64

instance (run : Run) : Decidable (EndFits run) := inferInstanceAs (Decidable (_ < _))

variable {content : Bytes}

lemma applyRuns_reverse_cons (run : Run) (runs : List Run) :
    applyRuns content (run :: runs).reverse =
      overlay (applyRuns content runs.reverse) (toPiece run) := by
  rw [applyRuns, List.reverse_cons, List.map_append]
  exact overlays_concat _ _ _

variable (content) in
/-- One step of the loop: the runs have the effect of the segment as well, and the last run ends
at an offset. -/
lemma applyRuns_mergeStep {result : List Run} {seg : Run} (hseg : EndFits seg)
    (hhead : ∀ last ∈ result.head?, last.1 ≤ seg.1 ∧ EndFits last) :
    applyRuns content (mergeStep result seg).reverse =
        overlay (applyRuns content result.reverse) (toPiece seg) ∧
      ∀ last ∈ (mergeStep result seg).head?, EndFits last := by
  cases result with
  | nil => exact ⟨rfl, by simpa [mergeStep] using hseg⟩
  | cons last rest =>
    obtain ⟨hle, hfits⟩ := hhead last (by simp)
    have hle := UInt64.le_iff_toNat_le.1 hle
    rw [mergeStep]
    by_cases hjoin : seg.1 ≤ last.1 + last.2.length.toUInt64
    · have htouch := UInt64.le_iff_toNat_le.1 hjoin
      rw [toNat_end hfits] at htouch
      simp only [if_pos hjoin]
      constructor
      · rw [applyRuns_reverse_cons, applyRuns_reverse_cons,
          overlay_overlay _ (s := toPiece last) (t := toPiece seg) hle htouch]
        rfl
      · intro grown hgrown
        have hlen := length_overlay last.2 (seg.1.toNat - last.1.toNat, seg.2)
        obtain rfl := Option.some.inj hgrown
        simp only [overlay] at hlen
        simp only [EndFits, hlen] at hseg hfits ⊢
        omega
    · simp only [if_neg hjoin]
      exact ⟨applyRuns_reverse_cons _ _, by simpa using hseg⟩

/-- The loop over sorted segments. -/
lemma applyRuns_foldl {segs : List Run} (hsorted : segs.Pairwise fun a b => a.1 ≤ b.1)
    (hfits : ∀ seg ∈ segs, EndFits seg) {result : List Run}
    (hhead : ∀ last ∈ result.head?, (∀ seg ∈ segs, last.1 ≤ seg.1) ∧ EndFits last) :
    applyRuns content (segs.foldl mergeStep result).reverse =
      overlays (applyRuns content result.reverse) (segs.map toPiece) := by
  induction segs generalizing result with
  | nil => rfl
  | cons first segs ih =>
    have hlast : ∀ last ∈ result.head?, last.1 ≤ first.1 := fun last hl =>
      (hhead last hl).1 first (by simp)
    obtain ⟨hstep, hend⟩ := applyRuns_mergeStep content (hfits first (by simp))
      fun last hl => ⟨hlast last hl, (hhead last hl).2⟩
    obtain ⟨hfirst, hsorted⟩ := List.pairwise_cons.1 hsorted
    rw [List.foldl_cons, ih hsorted fun seg hseg => hfits seg (by simp [hseg]), hstep]
    · rfl
    · refine fun last hl => ⟨fun seg hseg => ?_, hend last hl⟩
      exact UInt64.le_trans ((mergeStep_spec hlast).2.2 last hl) (hfirst seg hseg)

/-- Joining is harmless: the runs have the effect of the sorted segments. -/
theorem applyRuns_merge_eq_sorted {segs : List Run} (hfits : ∀ seg ∈ segs, EndFits seg) :
    applyRuns content (mergeWriteSegments segs) =
      applyRuns content (segs.insertionSort fun a b => a.1 ≤ b.1) := by
  refine applyRuns_foldl (pairwise_sorted segs) (fun seg hseg => hfits seg ?_) (by simp)
  exact (List.mem_insertionSort _).1 hseg

lemma map_toPiece_sorted (segs : List Run) :
    (segs.insertionSort fun a b => a.1 ≤ b.1).map toPiece =
      (segs.map toPiece).insertionSort fun a b => a.1 ≤ b.1 :=
  List.map_insertionSort _ _ _ _ fun _ _ _ _ => UInt64.le_iff_toNat_le

/-- Merging keeps the meaning of the segments exactly if at every position the last segment that
reaches it has the byte there that the one with the greatest offset has. -/
theorem applyRuns_merge_eq_iff {segs : List Run} (hfits : ∀ seg ∈ segs, EndFits seg)
    (content : Bytes) :
    applyRuns content (mergeWriteSegments segs) = applyRuns content segs ↔
      ∀ i, (topWriter i (segs.map toPiece)).map (byteAt i) =
        (lastWriter i (segs.map toPiece)).map (byteAt i) := by
  rw [applyRuns_merge_eq_sorted hfits, applyRuns, applyRuns, map_toPiece_sorted,
    overlays_eq_iff _ (List.perm_insertionSort _ _)]
  simp only [lastWriter_insertionSort]

/-- Segments that overlap, in the order of their offsets. -/
theorem applyRuns_merge_eq_iff_overlapping :
    (∀ seg ∈ [(0, [97, 98, 99]), (2, [88, 89, 90])], EndFits seg) ∧
      (applyRuns [] (mergeWriteSegments [(0, [97, 98, 99]), (2, [88, 89, 90])]) =
          applyRuns [] [(0, [97, 98, 99]), (2, [88, 89, 90])] ↔
        ∀ i, (topWriter i [(0, [97, 98, 99]), (2, [88, 89, 90])]).map (byteAt i) =
          (lastWriter i [(0, [97, 98, 99]), (2, [88, 89, 90])]).map (byteAt i)) :=
  ⟨by decide, applyRuns_merge_eq_iff (by decide) []⟩

/-- A byte at offset 1, and then two bytes at offset 0: the first byte comes back. -/
theorem applyRuns_merge_ne :
    (∀ seg ∈ [(1, [65]), (0, [98, 98])], EndFits seg) ∧
      applyRuns [] [(1, [65]), (0, [98, 98])] = [98, 98] ∧
      applyRuns [] (mergeWriteSegments [(1, [65]), (0, [98, 98])]) = [98, 65] := by
  decide

/-- Merging keeps the meaning of segments of which none overlaps an earlier one with a greater
offset. -/
theorem applyRuns_merge_of_ascending {segs : List Run} (hfits : ∀ seg ∈ segs, EndFits seg)
    (h : segs.Pairwise fun s t => s.1 ≤ t.1 ∨ t.1.toNat + t.2.length ≤ s.1.toNat)
    (content : Bytes) :
    applyRuns content (mergeWriteSegments segs) = applyRuns content segs := by
  rw [applyRuns_merge_eq_sorted hfits, applyRuns, applyRuns, map_toPiece_sorted,
    overlays_eq_iff _ (List.perm_insertionSort _ _)]
  intro i
  rw [lastWriter_insertionSort, topWriter_eq_lastWriter]
  exact List.pairwise_map.2 (h.imp fun hst => hst.imp_left UInt64.le_iff_toNat_le.1)

end Racfs.Fuse
