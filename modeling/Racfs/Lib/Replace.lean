/-
# Replacing the first occurrence

The first place where a list occurs in another one, taken out and something else put in.
-/
import Mathlib.Data.List.Infix
import Mathlib.Tactic.Common

namespace Racfs

variable {α : Type*} [DecidableEq α]

/-- Replace the first occurrence of `a` by `b`. -/
def replaceFirst (a b : List α) : List α → List α
  | [] => if a = [] then b else []
  | x :: l =>
    if a.isPrefixOf (x :: l) then b ++ (x :: l).drop a.length else x :: replaceFirst a b l

variable {a b : List α}

lemma replaceFirst_append (a b l : List α) : replaceFirst a b (a ++ l) = b ++ l := by
  cases h : a ++ l with
  | nil =>
    obtain ⟨rfl, rfl⟩ := List.append_eq_nil_iff.1 h
    simp [replaceFirst]
  | cons x t =>
    have hpre : a.isPrefixOf (x :: t) = true := by
      rw [List.isPrefixOf_iff_prefix, ← h]
      exact List.prefix_append a l
    rw [replaceFirst, if_pos hpre, ← h, List.drop_left]

lemma replaceFirst_eq_self {l : List α} (h : ¬ a <:+: l) : replaceFirst a b l = l := by
  induction l with
  | nil =>
    have hne : a ≠ [] := by
      rintro rfl
      exact h List.nil_infix
    simp [replaceFirst, hne]
  | cons x l ih =>
    have hpre : ¬ a.isPrefixOf (x :: l) = true := by
      rw [List.isPrefixOf_iff_prefix]
      exact fun hpre => h hpre.isInfix
    rw [replaceFirst, if_neg hpre, ih fun hoccurs => h (List.infix_cons hoccurs)]

lemma exists_replaceFirst {l : List α} (h : a <:+: l) :
    ∃ front rest, l = front ++ a ++ rest ∧ replaceFirst a b l = front ++ b ++ rest := by
  induction l with
  | nil =>
    obtain rfl := List.eq_nil_of_infix_nil h
    exact ⟨[], [], rfl, by simp [replaceFirst]⟩
  | cons x l ih =>
    by_cases hpre : a <+: x :: l
    · obtain ⟨rest, hrest⟩ := hpre
      refine ⟨[], rest, hrest.symm, ?_⟩
      rw [← hrest, replaceFirst_append]
      rfl
    · obtain ⟨front, rest, hl, hreplaced⟩ := ih ((List.infix_cons_iff.1 h).resolve_left hpre)
      refine ⟨x :: front, rest, by rw [hl]; rfl, ?_⟩
      rw [replaceFirst, if_neg (by rwa [List.isPrefixOf_iff_prefix]), hreplaced]
      rfl

/-- Something changes exactly if there is an occurrence. -/
lemma replaceFirst_eq_self_iff (hab : a ≠ b) {l : List α} :
    replaceFirst a b l = l ↔ ¬ a <:+: l := by
  refine ⟨fun heq h => ?_, replaceFirst_eq_self⟩
  obtain ⟨front, rest, hl, hreplaced⟩ := exists_replaceFirst (b := b) h
  rw [hreplaced, hl, List.append_assoc, List.append_assoc] at heq
  exact hab (List.append_cancel_right (List.append_cancel_left heq)).symm

end Racfs
