/-
# String literals

A string literal ends with a quote, so a quote inside of it is doubled; every other symbol stands
for itself.  Doubling the quotes of a text and reading it as a literal gives the text back, and the
reader stops at the quote at the end (`readLiteral_doubled`).
-/
import Mathlib.Data.List.Flatten
import Mathlib.Tactic.Common

namespace Racfs

variable {α : Type*} [DecidableEq α] {q : α}

/-- Every occurrence of a symbol is doubled. -/
def doubled (q : α) (l : List α) : List α := l.flatMap fun a => if a = q then [q, q] else [a]

/-- Read a literal, behind the quote with which it begins: what it stands for, and what follows
the quote with which it ends. -/
def readLiteral (q : α) : List α → Option (List α × List α)
  | [] => none
  | a :: l =>
    if a = q then
      match l with
      | [] => some ([], [])
      | b :: l =>
        if b = q then (readLiteral q l).map fun r => (q :: r.1, r.2) else some ([], b :: l)
    else (readLiteral q l).map fun r => (a :: r.1, r.2)

lemma readLiteral_cons_of_ne {a : α} (ha : a ≠ q) (l : List α) :
    readLiteral q (a :: l) = (readLiteral q l).map fun r => (a :: r.1, r.2) := by
  cases l <;> simp [readLiteral, ha]

lemma doubled_cons (a : α) (l : List α) :
    doubled q (a :: l) = (if a = q then [q, q] else [a]) ++ doubled q l :=
  List.flatMap_cons

/-- The symbol is counted twice. -/
lemma length_doubled (l : List α) : (doubled q l).length = l.length + l.count q := by
  induction l with
  | nil => rfl
  | cons a l ih =>
    rw [doubled_cons, List.length_append, ih, List.length_cons, List.count_cons]
    by_cases ha : a = q
    · rw [if_pos ha, if_pos (by simpa using ha), List.length_cons, List.length_singleton]
      omega
    · rw [if_neg ha, if_neg (by simpa using ha), List.length_singleton]
      omega

lemma doubled_eq_self_iff {l : List α} : doubled q l = l ↔ q ∉ l := by
  constructor
  · intro h hmem
    have hlength := length_doubled (q := q) l
    have hcount := List.count_pos_iff.2 hmem
    rw [h] at hlength
    omega
  · intro h
    induction l with
    | nil => rfl
    | cons a l ih =>
      obtain ⟨ha, hl⟩ := not_or.1 (mt List.mem_cons.2 h)
      rw [doubled_cons, if_neg (Ne.symm ha), ih hl, List.singleton_append]

/-- A literal with doubled quotes stands for the text, and ends where the text does. -/
theorem readLiteral_doubled (l : List α) {rest : List α} (hrest : rest.head? ≠ some q) :
    readLiteral q (doubled q l ++ q :: rest) = some (l, rest) := by
  induction l with
  | nil =>
    cases rest with
    | nil => simp [doubled, readLiteral]
    | cons b rest =>
      have hb : b ≠ q := fun hb => hrest (congrArg some hb)
      simp [doubled, readLiteral, hb]
  | cons a l ih =>
    rw [doubled_cons]
    by_cases ha : a = q
    · simp [readLiteral, ha, ih]
    · simp [readLiteral_cons_of_ne ha, ha, ih]

end Racfs
