/-
# Enumeration by pages

A set whose elements have positions is handed out piece by piece: a piece begins behind the
position that the one before ended with, and says where it ends, unless it goes to the end of
the set (`Piece`).  Two pieces that follow each other are one piece of the set as it was before
the first one, if what has changed in between lies at positions that have been passed
(`Piece.append`): so a loop that asks for the pieces one after the other has read one piece at each
turn (`ReadTo`), and at the end the whole set, every element once (`Piece.mem_iff_of_all`).

`piece_take` cuts the next piece off a sorted list.
-/
import Mathlib.Data.List.Sort
import Mathlib.Data.Set.Finite.Basic
import Mathlib.Order.Basic

namespace Racfs.Pages

variable {I P : Type*} [LinearOrder P] {pos : I → P}

/-- The position is behind the given one, if there is one. -/
def Behind (after : Option P) (p : P) : Prop := ∀ a, after = some a → a < p

/-- The elements of `S` behind `after` and up to `stop`, or all that follow. -/
structure Piece (pos : I → P) (S : Set I) (after : Option P) (items : List I)
    (stop : Option P) : Prop where
  nodup : items.Nodup
  mem_iff : ∀ i, i ∈ items ↔ i ∈ S ∧ Behind after (pos i) ∧ ∀ m, stop = some m → pos i ≤ m
  behind : ∀ m, stop = some m → Behind after m

variable {S S' : Set I} {after stop : Option P} {xs ys : List I}

@[simp] lemma behind_none (p : P) : Behind none p := by simp [Behind]

lemma Behind.trans {m p : P} (h : Behind after m) (hmp : m < p) : Behind after p :=
  fun a ha => (h a ha).trans hmp

/-- A piece and the next one; the set has changed at most where it has been read. -/
theorem Piece.append {m : P} (hxs : Piece pos S after xs (some m))
    (hys : Piece pos S' (some m) ys stop) (hsame : ∀ i, m < pos i → (i ∈ S' ↔ i ∈ S)) :
    Piece pos S after (xs ++ ys) stop where
  nodup := by
    refine List.nodup_append.2 ⟨hxs.nodup, hys.nodup, ?_⟩
    rintro i hi j hj rfl
    have hle := ((hxs.mem_iff i).1 hi).2.2 m rfl
    have hlt := ((hys.mem_iff i).1 hj).2.1 m rfl
    exact absurd hlt (not_lt.2 hle)
  mem_iff i := by
    rw [List.mem_append, hxs.mem_iff, hys.mem_iff]
    constructor
    · rintro (⟨hi, hafter, hle⟩ | ⟨hi, hlt, hstop⟩)
      · refine ⟨hi, hafter, fun m' hm' => (hle m rfl).trans ?_⟩
        exact (hys.behind m' hm' m rfl).le
      · have hm := hlt m rfl
        exact ⟨(hsame i hm).1 hi, (hxs.behind m rfl).trans hm, hstop⟩
    · rintro ⟨hi, hafter, hstop⟩
      rcases le_or_gt (pos i) m with hle | hlt
      · refine Or.inl ⟨hi, hafter, fun m' hm' => ?_⟩
        cases hm'
        exact hle
      · refine Or.inr ⟨(hsame i hlt).2 hi, fun m' hm' => ?_, hstop⟩
        cases hm'
        exact hlt
  behind m' hm' := (hxs.behind m rfl).trans (hys.behind m' hm' m rfl)

lemma Piece.perm (h : Piece pos S after xs stop) (hperm : ys.Perm xs) : Piece pos S after ys stop :=
  ⟨hperm.nodup_iff.2 h.nodup, fun i => hperm.mem_iff.trans (h.mem_iff i), h.behind⟩

/-- What has been read from the beginning to the end. -/
lemma Piece.mem_iff_of_all (h : Piece pos S none xs none) (i : I) : i ∈ xs ↔ i ∈ S := by
  rw [h.mem_iff]
  simp

/-- A piece is not longer than a list of the elements of the set. -/
lemma Piece.length_le (h : Piece pos S after xs stop) {l : List I} (hl : ∀ i ∈ S, i ∈ l) :
    xs.length ≤ l.length :=
  (h.nodup.subperm fun i hi => hl i ((h.mem_iff i).1 hi).1).length_le

/-- What has been read by a loop that is at a position: nothing at the beginning, and later on
the elements up to there. -/
def ReadTo (pos : I → P) (S : Set I) (xs : List I) : Option P → Prop
  | none => xs = []
  | some m => Piece pos S none xs (some m)

/-- One more turn of the loop. -/
lemma ReadTo.append (h : ReadTo pos S xs after) (hys : Piece pos S' after ys stop)
    (hsame : ∀ i, Behind after (pos i) → (i ∈ S' ↔ i ∈ S)) : Piece pos S none (xs ++ ys) stop := by
  cases after with
  | none =>
    obtain rfl : xs = [] := h
    have hS : S' = S := Set.ext fun i => hsame i (behind_none _)
    rwa [List.nil_append, ← hS]
  | some m => exact Piece.append h hys fun i hi => hsame i fun a ha => by cases ha; exact hi

lemma ReadTo.mem (h : ReadTo pos S xs after) {i : I} (hi : i ∈ xs) : i ∈ S := by
  cases after with
  | none =>
    obtain rfl : xs = [] := h
    cases hi
  | some m => exact ((Piece.mem_iff h i).1 hi).1

/-- What follows has not been read. -/
lemma ReadTo.not_mem (h : ReadTo pos S xs after) {i : I} (hi : Behind after (pos i)) : i ∉ xs := by
  cases after with
  | none =>
    obtain rfl : xs = [] := h
    simp
  | some m =>
    intro hmem
    exact absurd (hi m rfl) (not_lt.2 (((Piece.mem_iff h i).1 hmem).2.2 m rfl))

lemma ReadTo.length_le (h : ReadTo pos S xs after) {l : List I} (hl : ∀ i ∈ S, i ∈ l) :
    xs.length ≤ l.length := by
  cases after with
  | none =>
    obtain rfl : xs = [] := h
    exact Nat.zero_le _
  | some m => exact Piece.length_le h hl

/-- The elements of a sorted list up to one of them. -/
lemma mem_take_iff_le {l : List I} (hl : l.Pairwise fun i j => pos i < pos j) {n : ℕ} {last : I}
    (hlast : (l.take n).getLast? = some last) (i : I) :
    i ∈ l.take n ↔ i ∈ l ∧ pos i ≤ pos last := by
  obtain ⟨init, hinit⟩ := List.getLast?_eq_some_iff.1 hlast
  have hsplit : l = init ++ [last] ++ l.drop n := by rw [← hinit, List.take_append_drop]
  rw [hsplit] at hl
  obtain ⟨htake, -, hdrop⟩ := List.pairwise_append.1 hl
  have hbefore := (List.pairwise_append.1 htake).2.2
  constructor
  · intro hi
    refine ⟨List.mem_of_mem_take hi, ?_⟩
    rw [hinit, List.mem_append, List.mem_singleton] at hi
    rcases hi with hi | rfl
    · exact (hbefore i hi last (List.mem_singleton_self last)).le
    · exact le_rfl
  · rintro ⟨hi, hle⟩
    rw [hsplit, List.mem_append] at hi
    rcases hi with hi | hi
    · rwa [hinit]
    · exact absurd (hdrop last (by simp) i hi) (not_lt.2 hle)

/-- The first `n` elements of a sorted list that follow a position. -/
lemma piece_take {l : List I} (hl : l.Pairwise fun i j => pos i < pos j)
    (hS : ∀ i, i ∈ l ↔ i ∈ S ∧ Behind after (pos i)) {n : ℕ} (hn : 0 < n) :
    Piece pos S after (l.take n)
      (if n < l.length then (l.take n).getLast?.map pos else none) where
  nodup := (hl.imp fun h heq => absurd (heq ▸ h) (lt_irrefl _)).sublist (l.take_sublist n)
  mem_iff i := by
    by_cases hlen : n < l.length
    · obtain ⟨last, hlast⟩ : ∃ last, (l.take n).getLast? = some last := by
        rw [← Option.isSome_iff_exists, List.getLast?_isSome]
        exact List.ne_nil_of_length_pos (by rw [List.length_take]; omega)
      rw [if_pos hlen, hlast, mem_take_iff_le hl hlast, hS]
      simp [and_assoc]
    · rw [if_neg hlen, List.take_of_length_le (by omega), hS]
      simp
  behind m hm := by
    split_ifs at hm
    obtain ⟨last, hlast, rfl⟩ := Option.map_eq_some_iff.1 hm
    exact ((hS last).1 (List.mem_of_mem_take (List.mem_of_getLast? hlast))).2

end Racfs.Pages
