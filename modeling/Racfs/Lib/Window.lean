/-
# Windows of time

Events with a time `now`, each in a window of length `w` that begins at `start`.  The windows do
not follow each other without a gap: the next one begins with the first event after the end of
the last one, so two windows are the same or their beginnings are at least `w` apart (`Spaced`).
An interval of length `w` then meets at most two windows, and `k` events for each window are at
most `2 * k` in the interval (`countP_interval_le`).
-/
import Mathlib.Tactic.Common

namespace Racfs.Window

variable {A : Type*} (now start : A → ℕ) (w : ℕ)

/-- Each event is in its window, and different windows do not overlap. -/
structure Spaced (l : List A) : Prop where
  start_le : ∀ x ∈ l, start x ≤ now x
  lt_end : ∀ x ∈ l, now x < start x + w
  apart : ∀ x ∈ l, ∀ y ∈ l, start x = start y ∨ start x + w ≤ start y ∨ start y + w ≤ start x

variable {now start w} {l : List A}

/-- The events of the interval are in the windows of any two of them that are in different
ones. -/
lemma Spaced.start_eq_or (h : Spaced now start w l) {a b : ℕ} (hab : b ≤ a + w) {x y z : A}
    (hx : x ∈ l) (hy : y ∈ l) (hz : z ∈ l) (hnx : a ≤ now x ∧ now x ≤ b)
    (hny : a ≤ now y ∧ now y ≤ b) (hnz : a ≤ now z ∧ now z ≤ b) (hxy : start x ≠ start y) :
    start z = start x ∨ start z = start y := by
  have hxw := h.lt_end x hx
  have hyw := h.lt_end y hy
  have hzw := h.lt_end z hz
  have hxs := h.start_le x hx
  have hys := h.start_le y hy
  have hzs := h.start_le z hz
  have hxyw := h.apart x hx y hy
  have hxzw := h.apart x hx z hz
  have hyzw := h.apart y hy z hz
  omega

/-- The events between the beginning and the end of a window are those in it. -/
lemma Spaced.mem_window_iff (h : Spaced now start w l) {x y : A} (hx : x ∈ l) (hy : y ∈ l) :
    start x ≤ now y ∧ now y < start x + w ↔ start y = start x := by
  have hyw := h.lt_end y hy
  have hys := h.start_le y hy
  have hxyw := h.apart x hx y hy
  omega

lemma Spaced.filter (h : Spaced now start w l) (p : A → Bool) :
    Spaced now start w (l.filter p) := by
  have hmem : ∀ {x}, x ∈ l.filter p → x ∈ l := fun hx => (List.mem_filter.1 hx).1
  exact ⟨fun x hx => h.start_le x (hmem hx), fun x hx => h.lt_end x (hmem hx),
    fun x hx y hy => h.apart x (hmem hx) y (hmem hy)⟩

lemma countP_or_le (p q : A → Bool) (l : List A) :
    l.countP (fun x => p x || q x) ≤ l.countP p + l.countP q := by
  induction l with
  | nil => simp
  | cons x l ih =>
    simp only [List.countP_cons]
    cases p x <;> cases q x <;> simp <;> omega

/-- An interval that is not longer than a window. -/
theorem Spaced.countP_interval_le (h : Spaced now start w l) {k : ℕ}
    (hcount : ∀ s, l.countP (fun x => start x = s) ≤ k) {a b : ℕ} (hab : b ≤ a + w) :
    l.countP (fun x => a ≤ now x ∧ now x ≤ b) ≤ 2 * k := by
  by_cases hempty : ∀ x ∈ l, ¬ (a ≤ now x ∧ now x ≤ b)
  · rw [List.countP_eq_zero.2 fun x hx => by simpa using hempty x hx]
    exact Nat.zero_le _
  push Not at hempty
  obtain ⟨x, hx, hnx⟩ := hempty
  by_cases hone : ∀ y ∈ l, a ≤ now y ∧ now y ≤ b → start y = start x
  · -- all events are in the window of `x`
    have hle : l.countP (fun y => a ≤ now y ∧ now y ≤ b) ≤ l.countP (fun y => start y = start x) :=
      List.countP_mono_left fun y hy hny => by simpa using hone y hy (by simpa using hny)
    have hk := hcount (start x)
    omega
  · push Not at hone
    obtain ⟨y, hy, hny, hne⟩ := hone
    have hle : l.countP (fun z => a ≤ now z ∧ now z ≤ b) ≤
        l.countP (fun z => decide (start z = start x) || decide (start z = start y)) := by
      refine List.countP_mono_left fun z hz hnz => ?_
      have hor := h.start_eq_or hab hx hy hz hnx hny (by simpa using hnz) (Ne.symm hne)
      simpa using hor
    have hor := countP_or_le (fun z => decide (start z = start x))
      (fun z => decide (start z = start y)) l
    have hkx := hcount (start x)
    have hky := hcount (start y)
    omega

end Racfs.Window
