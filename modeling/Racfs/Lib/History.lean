/-
# What a cell has held

A cell whose successive values are kept in a list, the present one last.  A value is held since
the `v`-th one if it is the `v`-th one or a later one (`Held`): this is what a reader may return
who must not fall behind the `v`-th value.
-/
import Mathlib.Data.List.Basic
import Mathlib.Tactic.Common

namespace Racfs.History

variable {A : Type*}

/-- The cell has had the value, at the given number or later. -/
def Held (history : List A) (since : ℕ) (a : A) : Prop :=
  ∃ v, since ≤ v ∧ history[v]? = some a

lemma Held.append {history : List A} {since : ℕ} {a : A} (h : Held history since a)
    (more : List A) : Held (history ++ more) since a := by
  obtain ⟨v, hle, hv⟩ := h
  have hlt : v < history.length := (List.getElem?_eq_some_iff.1 hv).1
  exact ⟨v, hle, (List.getElem?_append_left hlt).trans hv⟩

/-- The present value is held since any number. -/
lemma held_of_getLast? {history : List A} {since : ℕ} {a : A} (h : since < history.length)
    (ha : history.getLast? = some a) : Held history since a := by
  rw [List.getLast?_eq_getElem?] at ha
  exact ⟨history.length - 1, by omega, ha⟩

end Racfs.History
