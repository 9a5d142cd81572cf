/-
# Merging buffered writes

Before the buffered writes of a file are sent, `merge_write_segments`
(`racfs-fuse/src/async_fs.rs`) sorts them by offset and joins those that overlap or touch into
longer runs.  The offsets are machine words, and the end of a run is computed in them.

Every write ends up inside of one of the runs (`exists_covers_merge`), and the runs do not
overlap as long as their ends are offsets (`pairwise_apart_merge`).
-/
import Racfs.Lib.Bytes
import Mathlib.Data.List.Sort

namespace Racfs.Fuse

/-- An offset and the data to be written there. -/
abbrev Run := UInt64 × Bytes

/-- One segment in the loop; the last run of the result is its head. -/
def mergeStep (result : List Run) (seg : Run) : List Run :=
  match result with
  | [] => [seg]
  | last :: rest =>
    let lastEnd := last.1 + last.2.length.toUInt64
    if seg.1 ≤ lastEnd then
      let start := seg.1.toNat - last.1.toNat
      let stop := start + seg.2.length
      let grown := if stop > last.2.length then resize last.2 stop else last.2
      (last.1, copyFromSlice grown start seg.2) :: rest
    else seg :: last :: rest

/-- Join the segments that overlap or touch. -/
def mergeWriteSegments (segments : List Run) : List Run :=
  ((segments.insertionSort fun a b => a.1 ≤ b.1).foldl mergeStep []).reverse

/-! ### Every segment is inside of a run -/

/-- All bytes of the segment lie inside of the run. -/
def Covers (run seg : Run) : Prop :=
  run.1.toNat ≤ seg.1.toNat ∧ seg.1.toNat + seg.2.length ≤ run.1.toNat + run.2.length

instance (run seg : Run) : Decidable (Covers run seg) := inferInstanceAs (Decidable (_ ∧ _))

lemma Covers.refl (run : Run) : Covers run run := ⟨le_rfl, le_rfl⟩

lemma Covers.trans {a b c : Run} (hab : Covers a b) (hbc : Covers b c) : Covers a c :=
  ⟨hab.1.trans hbc.1, hbc.2.trans hab.2⟩

/-- A run that a segment is copied into covers what it was before and the segment. -/
lemma covers_overlay {last seg : Run} (h : last.1.toNat ≤ seg.1.toNat) :
    let start := seg.1.toNat - last.1.toNat
    let stop := start + seg.2.length
    let grown := if stop > last.2.length then resize last.2 stop else last.2
    Covers (last.1, copyFromSlice grown start seg.2) last ∧
      Covers (last.1, copyFromSlice grown start seg.2) seg := by
  intro start stop grown
  have hgrown : stop ≤ grown.length ∧ last.2.length ≤ grown.length := by
    by_cases hlong : stop > last.2.length
    · simp only [grown, if_pos hlong, length_resize]
      exact ⟨le_rfl, hlong.le⟩
    · simp only [grown, if_neg hlong]
      exact ⟨not_lt.1 hlong, le_rfl⟩
  have hlen : (copyFromSlice grown start seg.2).length = grown.length :=
    length_copyFromSlice hgrown.1
  simp only [Covers, hlen]
  omega

/-- One step of the loop: what was covered stays so, the segment is covered, and the last run
does not start behind the segment. -/
lemma mergeStep_spec {result : List Run} {seg : Run}
    (h : ∀ last ∈ result.head?, last.1 ≤ seg.1) :
    (∀ run ∈ result, ∃ run' ∈ mergeStep result seg, Covers run' run) ∧
      (∃ run ∈ mergeStep result seg, Covers run seg) ∧
      ∀ last ∈ (mergeStep result seg).head?, last.1 ≤ seg.1 := by
  cases result with
  | nil => exact ⟨by simp, ⟨seg, by simp [mergeStep], .refl seg⟩, by simp [mergeStep]⟩
  | cons last rest =>
    have hlast : last.1 ≤ seg.1 := h last (by simp)
    rw [mergeStep]
    by_cases hjoin : seg.1 ≤ last.1 + last.2.length.toUInt64
    · obtain ⟨hold, hseg⟩ := covers_overlay (UInt64.le_iff_toNat_le.1 hlast)
      simp only [if_pos hjoin]
      refine ⟨fun run hrun => ?_, ⟨_, List.mem_cons_self, hseg⟩, by simpa using hlast⟩
      rcases List.mem_cons.1 hrun with rfl | hrun
      · exact ⟨_, List.mem_cons_self, hold⟩
      · exact ⟨run, List.mem_cons_of_mem _ hrun, .refl run⟩
    · simp only [if_neg hjoin]
      refine ⟨fun run hrun => ⟨run, List.mem_cons_of_mem _ hrun, .refl run⟩, ?_, by simp⟩
      exact ⟨seg, List.mem_cons_self, .refl seg⟩

/-- The loop over sorted segments. -/
lemma exists_covers_foldl {segs : List Run} (hsorted : segs.Pairwise fun a b => a.1 ≤ b.1)
    {result : List Run} (hhead : ∀ last ∈ result.head?, ∀ seg ∈ segs, last.1 ≤ seg.1)
    {seg : Run} (h : (∃ run ∈ result, Covers run seg) ∨ seg ∈ segs) :
    ∃ run ∈ segs.foldl mergeStep result, Covers run seg := by
  induction segs generalizing result with
  | nil => simpa using h
  | cons first segs ih =>
    obtain ⟨hold, hfirst, hlast⟩ := @mergeStep_spec result first fun last hl =>
      hhead last hl first (by simp)
    -- the last run starts at or before this segment, and so before all later ones
    refine ih (List.pairwise_cons.1 hsorted).2 (fun last hl later hlater => ?_) ?_
    · exact UInt64.le_trans (hlast last hl) ((List.pairwise_cons.1 hsorted).1 later hlater)
    · rcases h with ⟨run, hrun, hcov⟩ | hmem
      · obtain ⟨run', hrun', hcov'⟩ := hold run hrun
        exact Or.inl ⟨run', hrun', hcov'.trans hcov⟩
      · rcases List.mem_cons.1 hmem with rfl | hmem
        · exact Or.inl hfirst
        · exact Or.inr hmem

lemma pairwise_sorted (segs : List Run) :
    (segs.insertionSort fun a b => a.1 ≤ b.1).Pairwise fun a b => a.1 ≤ b.1 := by
  have htotal : Std.Total fun a b : Run => a.1 ≤ b.1 := ⟨fun a b => UInt64.le_total a.1 b.1⟩
  have htrans : IsTrans Run fun a b => a.1 ≤ b.1 := ⟨fun _ _ _ => UInt64.le_trans⟩
  exact List.pairwise_insertionSort _ segs

/-- Every segment lies inside of one of the runs. -/
theorem exists_covers_merge {segs : List Run} {seg : Run} (h : seg ∈ segs) :
    ∃ run ∈ mergeWriteSegments segs, Covers run seg := by
  obtain ⟨run, hrun, hcov⟩ := @exists_covers_foldl _ (pairwise_sorted segs) [] (by simp) seg
    (Or.inr ((List.mem_insertionSort _).2 h))
  exact ⟨run, List.mem_reverse.2 hrun, hcov⟩

/-! ### The runs lie apart -/

/-- The second run starts behind the end of the first one, if that end is an offset. -/
def Apart (a b : Run) : Prop :=
  a.1 ≤ b.1 ∧ (a.1.toNat + a.2.length < 2 ^ 64 → a.1.toNat + a.2.length < b.1.toNat)

/-- The end of a run as the loop computes it, if it is an offset. -/
lemma toNat_end {run : Run} (h : run.1.toNat + run.2.length < 2 ^ 64) :
    (run.1 + run.2.length.toUInt64).toNat = run.1.toNat + run.2.length := by
  rw [UInt64.toNat_add, Nat.toUInt64_eq, UInt64.toNat_ofNat', Nat.add_mod_mod, Nat.mod_eq_of_lt h]

/-- One step of the loop; the last run is the head. -/
lemma pairwise_mergeStep {result : List Run} {seg : Run}
    (hhead : ∀ last ∈ result.head?, last.1 ≤ seg.1)
    (h : result.Pairwise fun b a => Apart a b) :
    (mergeStep result seg).Pairwise fun b a => Apart a b := by
  cases result with
  | nil => simp [mergeStep]
  | cons last rest =>
    have hlast : last.1 ≤ seg.1 := hhead last (by simp)
    obtain ⟨hrest, hpair⟩ := List.pairwise_cons.1 h
    rw [mergeStep]
    by_cases hjoin : seg.1 ≤ last.1 + last.2.length.toUInt64
    · -- the last run grows, and starts where it started
      simp only [if_pos hjoin]
      exact List.pairwise_cons.2 ⟨fun a ha => hrest a ha, hpair⟩
    · simp only [if_neg hjoin]
      have hnew : Apart last seg := by
        refine ⟨hlast, fun hlt => ?_⟩
        have hend := toNat_end hlt
        have hlt' := UInt64.lt_iff_toNat_lt.1 (UInt64.not_le.1 hjoin)
        omega
      refine List.pairwise_cons.2 ⟨fun a ha => ?_, h⟩
      rcases List.mem_cons.1 ha with rfl | ha
      · exact hnew
      · obtain ⟨hle, hend⟩ := hrest a ha
        refine ⟨UInt64.le_trans hle hlast, fun hlt => (hend hlt).trans_le ?_⟩
        exact UInt64.le_iff_toNat_le.1 hlast

/-- The loop over sorted segments. -/
lemma pairwise_foldl {segs : List Run} (hsorted : segs.Pairwise fun a b => a.1 ≤ b.1)
    {result : List Run} (hhead : ∀ last ∈ result.head?, ∀ seg ∈ segs, last.1 ≤ seg.1)
    (h : result.Pairwise fun b a => Apart a b) :
    (segs.foldl mergeStep result).Pairwise fun b a => Apart a b := by
  induction segs generalizing result with
  | nil => exact h
  | cons first segs ih =>
    have hfirst : ∀ last ∈ result.head?, last.1 ≤ first.1 := fun last hl =>
      hhead last hl first (by simp)
    obtain ⟨hle, hsorted⟩ := List.pairwise_cons.1 hsorted
    refine ih hsorted (fun last hl later hlater => ?_) (pairwise_mergeStep hfirst h)
    exact UInt64.le_trans ((mergeStep_spec hfirst).2.2 last hl) (hle later hlater)

/-- The runs come in the order of their offsets and lie apart. -/
theorem pairwise_apart_merge (segs : List Run) : (mergeWriteSegments segs).Pairwise Apart := by
  rw [mergeWriteSegments, List.pairwise_reverse]
  exact pairwise_foldl (pairwise_sorted segs) (by simp) List.Pairwise.nil

end Racfs.Fuse
