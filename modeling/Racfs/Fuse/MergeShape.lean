/-
# The shape of merged writes

The runs of `mergeWriteSegments` lie apart in the order of their offsets, and they hold nothing but
what is in the segments: a position is in a run exactly if it is in a segment, and the byte there is
that of a segment.  The loop fills the last run with zeros before it copies a segment into it, but
only where the segment goes (`Holds.mergeStep`).
-/
import Racfs.Fuse.MergeMeaning

namespace Racfs.Fuse

/-- The runs hold the positions of the segments, each with the byte of one of them, and end at
offsets. -/
structure Holds (segs runs : List Run) : Prop where
  fits : ∀ run ∈ runs, EndFits run
  positions : ∀ i, (∃ run ∈ runs, Reaches i (toPiece run)) ↔ ∃ seg ∈ segs, Reaches i (toPiece seg)
  bytes : ∀ run ∈ runs, ∀ i, Reaches i (toPiece run) →
    ∃ seg ∈ segs, Reaches i (toPiece seg) ∧ byteAt i (toPiece run) = byteAt i (toPiece seg)

/-- The runs are in order and lie apart, and they hold the segments. -/
structure MergeShape (segs runs : List Run) : Prop extends Holds segs runs where
  increasing : runs.Pairwise fun a b => a.1 < b.1
  apart : runs.Pairwise fun a b => a.1.toNat + a.2.length < b.1.toNat

variable {segs runs : List Run} {seg : Run}

lemma Holds.nil : Holds [] [] := ⟨by simp, by simp, by simp⟩

lemma Holds.of_mem_iff {segs' : List Run} (h : Holds segs runs)
    (hmem : ∀ s, s ∈ segs ↔ s ∈ segs') : Holds segs' runs where
  fits := h.fits
  positions i := by
    rw [h.positions]
    exact exists_congr fun s => and_congr_left fun _ => hmem s
  bytes run hrun i hi := by
    obtain ⟨s, hs, hbyte⟩ := h.bytes run hrun i hi
    exact ⟨s, (hmem s).mp hs, hbyte⟩

lemma Holds.reverse (h : Holds segs runs) : Holds segs runs.reverse where
  fits run hrun := h.fits run (List.mem_reverse.mp hrun)
  positions i := by
    rw [← h.positions]
    exact exists_congr fun run => and_congr_left fun _ => List.mem_reverse
  bytes run hrun := h.bytes run (List.mem_reverse.mp hrun)

/-- A segment that is a run of its own. -/
lemma Holds.cons (h : Holds segs runs) (hseg : EndFits seg) :
    Holds (seg :: segs) (seg :: runs) where
  fits := List.forall_mem_cons.mpr ⟨hseg, h.fits⟩
  positions i := by
    rw [List.exists_mem_cons_iff, List.exists_mem_cons_iff, h.positions]
  bytes run hrun i hi := by
    rcases List.mem_cons.mp hrun with rfl | hrun
    · exact ⟨run, List.mem_cons_self, hi, rfl⟩
    · obtain ⟨s, hs, hbyte⟩ := h.bytes run hrun i hi
      exact ⟨s, List.mem_cons_of_mem _ hs, hbyte⟩

/-- A segment that begins inside of the last run, or at its end, and is copied into it. -/
lemma Holds.join {last grown : Run} (h : Holds segs (last :: runs)) (hseg : EndFits seg)
    (hle : last.1.toNat ≤ seg.1.toNat) (htouch : seg.1.toNat ≤ last.1.toNat + last.2.length)
    (hgrown : grown = (last.1, overlay last.2 (seg.1.toNat - last.1.toNat, seg.2))) :
    Holds (seg :: segs) (grown :: runs) := by
  have hpiece : toPiece grown = ((toPiece last).1,
      overlay (toPiece last).2 ((toPiece seg).1 - (toPiece last).1, (toPiece seg).2)) := by
    rw [hgrown]
    rfl
  have hreach (i : ℕ) : Reaches i (toPiece grown) ↔
      Reaches i (toPiece last) ∨ Reaches i (toPiece seg) := by
    rw [hpiece]
    exact reaches_overlay hle htouch
  obtain ⟨hlast, hruns⟩ := List.forall_mem_cons.mp h.fits
  refine ⟨List.forall_mem_cons.mpr ⟨?_, hruns⟩, fun i => ?_, fun run hrun i hi => ?_⟩
  · simp only [EndFits] at hseg hlast ⊢
    simp only [hgrown, length_overlay]
    omega
  · have hpos := h.positions i
    rw [List.exists_mem_cons_iff] at hpos
    rw [List.exists_mem_cons_iff, List.exists_mem_cons_iff, hreach, ← hpos, or_right_comm, or_comm]
  · rcases List.mem_cons.mp hrun with rfl | hrun
    · -- where the segment goes there is its byte, and elsewhere that of the run before
      by_cases hi' : Reaches i (toPiece seg)
      · refine ⟨seg, List.mem_cons_self, hi', ?_⟩
        rw [hpiece, byteAt_overlay hle (hle.trans hi'.1), if_pos hi']
      · have hold := ((hreach i).mp hi).resolve_right hi'
        obtain ⟨s, hs, hsi, hbyte⟩ := h.bytes last List.mem_cons_self i hold
        refine ⟨s, List.mem_cons_of_mem _ hs, hsi, ?_⟩
        rw [← hbyte, hpiece, byteAt_overlay hle hold.1, if_neg hi']
    · obtain ⟨s, hs, hbyte⟩ := h.bytes run (List.mem_cons_of_mem _ hrun) i hi
      exact ⟨s, List.mem_cons_of_mem _ hs, hbyte⟩

/-- One step of the loop; the last run is the head. -/
lemma Holds.mergeStep (h : Holds segs runs) (hseg : EndFits seg)
    (hhead : ∀ last ∈ runs.head?, last.1 ≤ seg.1) :
    Holds (seg :: segs) (mergeStep runs seg) := by
  cases runs with
  | nil => exact h.cons hseg
  | cons last rest =>
    have hle := UInt64.le_iff_toNat_le.mp (hhead last rfl)
    rw [Fuse.mergeStep]
    by_cases hjoin : seg.1 ≤ last.1 + last.2.length.toUInt64
    · have htouch := UInt64.le_iff_toNat_le.mp hjoin
      rw [toNat_end (h.fits last List.mem_cons_self)] at htouch
      simp only [if_pos hjoin]
      exact h.join hseg hle htouch rfl
    · simp only [if_neg hjoin]
      exact h.cons hseg

/-- The loop over sorted segments, with those that it has gone through before. -/
lemma Holds.foldl {rest : List Run} (hsorted : rest.Pairwise fun a b => a.1 ≤ b.1)
    (hfits : ∀ seg ∈ rest, EndFits seg)
    (hhead : ∀ last ∈ runs.head?, ∀ seg ∈ rest, last.1 ≤ seg.1) (h : Holds segs runs) :
    Holds (segs ++ rest) (rest.foldl Fuse.mergeStep runs) := by
  induction rest generalizing segs runs with
  | nil => exact h.of_mem_iff fun s => by rw [List.append_nil]
  | cons first rest ih =>
    have hfirst : ∀ last ∈ runs.head?, last.1 ≤ first.1 := fun last hl =>
      hhead last hl first List.mem_cons_self
    obtain ⟨hle, hsorted⟩ := List.pairwise_cons.mp hsorted
    obtain ⟨hfit, hfits⟩ := List.forall_mem_cons.mp hfits
    have hstep := ih hsorted hfits (fun last hl later hlater => ?_) (h.mergeStep hfit hfirst)
    · refine hstep.of_mem_iff fun s => ?_
      simp only [List.mem_append, List.mem_cons]
      tauto
    · exact UInt64.le_trans ((mergeStep_spec hfirst).2.2 last hl) (hle later hlater)

/-- The runs hold exactly what is in the segments. -/
lemma holds_merge (hfits : ∀ seg ∈ segs, EndFits seg) : Holds segs (mergeWriteSegments segs) := by
  have hmem (s : Run) : s ∈ segs.insertionSort (fun a b => a.1 ≤ b.1) ↔ s ∈ segs :=
    List.mem_insertionSort _
  have hfold := Holds.nil.foldl (pairwise_sorted segs) (fun s hs => hfits s ((hmem s).mp hs))
    (by simp)
  exact (hfold.of_mem_iff hmem).reverse

/-- **The shape of merged writes.**  Of segments that end at offsets, the runs are in order and lie
apart, and they hold exactly the positions of the segments, each with the byte of one of them. -/
theorem mergeShape_merge {segs : List Run} (hfits : ∀ seg ∈ segs, EndFits seg) :
    MergeShape segs (mergeWriteSegments segs) := by
  have hholds := holds_merge hfits
  have hapart : (mergeWriteSegments segs).Pairwise
      fun a b => a.1.toNat + a.2.length < b.1.toNat :=
    (pairwise_apart_merge segs).imp_of_mem fun ha _ hab => hab.2 (hholds.fits _ ha)
  exact ⟨hholds, hapart.imp fun hab => UInt64.lt_iff_toNat_lt.mpr (by omega), hapart⟩

/-- Two segments that overlap, one that touches them, an empty one inside, and one further off. -/
theorem mergeShape_merge_five :
    mergeWriteSegments [(9, [57]), (2, [66, 67]), (0, [97, 98, 99]), (4, [68]), (1, [])] =
        [(0, [97, 98, 66, 67, 68]), (9, [57])] ∧
      MergeShape [(9, [57]), (2, [66, 67]), (0, [97, 98, 99]), (4, [68]), (1, [])]
        (mergeWriteSegments [(9, [57]), (2, [66, 67]), (0, [97, 98, 99]), (4, [68]), (1, [])]) :=
  ⟨by decide, mergeShape_merge (by decide)⟩

end Racfs.Fuse
