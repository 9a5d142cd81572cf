/-
# Trees of names

A tree in which a node is the list of names on the way to it, given by a partial function
from such lists to a mark: `some true` for a node that may have children (a directory),
`some false` for one that may not, `none` outside of the tree.  The tree is well formed
(`IsTree`) when the root is a directory and the parent of every other node is one.

For each way to change a tree (add a node, take one out, take a subtree out, move a node) we
give the exact condition under which the result is well formed again.  Two further rules,
`retain` and `relabel`, are for changes of many nodes at once.
-/
import Mathlib.Data.List.Infix
import Mathlib.Logic.Function.Basic

namespace Racfs

variable {N : Type*}

lemma dropLast_ne_self {p : List N} (hne : p ≠ []) : p.dropLast ≠ p := by
  intro heq
  have hlen := congrArg List.length heq
  rw [List.length_dropLast] at hlen
  have := List.length_pos_of_ne_nil hne
  omega

/-- The root is a directory, and so is the parent of every other node. -/
structure IsTree (t : List N → Option Bool) : Prop where
  root : t [] = some true
  parent : ∀ p, p ≠ [] → t p ≠ none → t p.dropLast = some true

namespace IsTree

variable {t : List N → Option Bool}

/-- The proper ancestors of a node are directories. -/
lemma of_prefix (h : IsTree t) {p q : List N} (hpq : p <+: q) (hne : p ≠ q) (hq : t q ≠ none) :
    t p = some true := by
  obtain ⟨r, rfl⟩ := hpq
  induction r using List.reverseRecOn with
  | nil => simp at hne
  | append_singleton r x ih =>
    have hparent : t (p ++ r) = some true := by
      have := h.parent (p ++ (r ++ [x])) (by simp) hq
      rwa [← List.append_assoc, List.dropLast_concat] at this
    by_cases hr : r = []
    · simpa [hr] using hparent
    · exact ih (by simpa using hr) (by simp [hparent])

/-- Nothing is below a path that is not a directory. -/
lemma eq_none_of_prefix (h : IsTree t) {p q : List N} (hpq : p <+: q) (hne : p ≠ q)
    (hp : t p ≠ some true) : t q = none := by
  by_contra hq
  exact hp (h.of_prefix hpq hne hq)

/-- A part of a tree that has the root, and with a node its parent, is a tree. -/
lemma retain (h : IsTree t) {out : List N → Prop} [DecidablePred out] (hroot : ¬ out [])
    (hparent : ∀ p, p ≠ [] → t p ≠ none → out p.dropLast → out p) :
    IsTree fun p => if out p then none else t p := by
  refine ⟨?_, fun p hne hsome => ?_⟩
  · rw [if_neg hroot, h.root]
  · by_cases hp : out p
    · simp [hp] at hsome
    · rw [if_neg hp] at hsome
      rw [if_neg fun hout => hp (hparent p hne hsome hout), h.parent p hne hsome]

/-- The nodes of a tree under other names are a tree when the root stays and every node comes
below a directory.  `R p q` says that the node `p` is now called `q`. -/
lemma relabel {t' : List N → Option Bool} (h : IsTree t) {R : List N → List N → Prop}
    (hroot : R [] []) (hmark : ∀ p q, R p q → t' q = t p) (hfrom : ∀ q, t' q ≠ none → ∃ p, R p q)
    (hparent : ∀ p q, R p q → t p ≠ none → q ≠ [] → ∃ p', t p' = some true ∧ R p' q.dropLast) :
    IsTree t' := by
  refine ⟨(hmark _ _ hroot).trans h.root, fun q hne hsome => ?_⟩
  obtain ⟨p, hp⟩ := hfrom q hsome
  rw [hmark p q hp] at hsome
  obtain ⟨p', hdir, hp'⟩ := hparent p q hp hsome hne
  exact (hmark _ _ hp').trans hdir

end IsTree

section

variable [DecidableEq N] {t : List N → Option Bool}

/-- Adding a node keeps the tree well formed exactly when its parent is a directory. -/
theorem isTree_add_iff (h : IsTree t) {p : List N} (hp : t p = none) (b : Bool) :
    IsTree (Function.update t p (some b)) ↔ t p.dropLast = some true := by
  have hne : p ≠ [] := by
    rintro rfl
    simp [h.root] at hp
  have hdrop : p.dropLast ≠ p := dropLast_ne_self hne
  constructor
  · intro h'
    have := h'.parent p hne (by simp)
    rwa [Function.update_of_ne hdrop] at this
  · intro hparent
    refine ⟨?_, fun q hq hsome => ?_⟩
    · rw [Function.update_of_ne hne.symm]
      exact h.root
    · by_cases hqp : q = p
      · subst hqp
        rwa [Function.update_of_ne hdrop]
      · rw [Function.update_of_ne hqp] at hsome
        have hq' := h.parent q hq hsome
        -- the parent of an old node is not the new one
        rw [Function.update_of_ne (by rintro heq; rw [heq, hp] at hq'; cases hq')]
        exact hq'

/-- Taking out a node keeps the tree well formed exactly when it is not the root and has
nothing below it. -/
theorem isTree_erase_iff (h : IsTree t) (p : List N) :
    IsTree (Function.update t p none) ↔ p ≠ [] ∧ ∀ q, p <+: q → p ≠ q → t q = none := by
  constructor
  · intro h'
    have hne : p ≠ [] := by
      rintro rfl
      simpa using h'.root
    refine ⟨hne, fun q hpq hneq => ?_⟩
    have hnone := h'.eq_none_of_prefix hpq hneq (by simp)
    rwa [Function.update_of_ne (Ne.symm hneq)] at hnone
  · rintro ⟨hne, hbelow⟩
    refine ⟨?_, fun q hq hsome => ?_⟩
    · rw [Function.update_of_ne (Ne.symm hne)]
      exact h.root
    · by_cases hqp : q = p
      · simp [hqp] at hsome
      rw [Function.update_of_ne hqp] at hsome
      have hdrop : q.dropLast ≠ p := by
        rintro rfl
        exact hsome (hbelow q (List.dropLast_prefix q) (Ne.symm hqp))
      rw [Function.update_of_ne hdrop]
      exact h.parent q hq hsome

/-- Taking out a subtree keeps the tree well formed unless it is the whole tree. -/
theorem isTree_prune_iff (h : IsTree t) (p : List N) :
    IsTree (fun q => if p <+: q then none else t q) ↔ p ≠ [] := by
  constructor
  · rintro h' rfl
    simpa using h'.root
  · intro hne
    -- a node whose parent is in the subtree is in it too
    exact h.retain (by simp [hne]) fun q _ _ hpd => hpd.trans (List.dropLast_prefix q)

/-- Moving a node to a path that is not in use keeps the tree well formed exactly when it is
not the root, has nothing below it, and the new parent is a directory other than itself. -/
theorem isTree_move_iff (h : IsTree t) {o n : List N} {b : Bool} (hn : t n = none) (hne : n ≠ o) :
    IsTree (Function.update (Function.update t o none) n (some b)) ↔
      o ≠ [] ∧ (∀ q, o <+: q → o ≠ q → t q = none) ∧ n.dropLast ≠ o ∧
        t n.dropLast = some true := by
  have hnil : n ≠ [] := by
    rintro rfl
    simp [h.root] at hn
  constructor
  · intro h'
    have hroot : o ≠ [] := by
      rintro rfl
      have := h'.root
      rw [Function.update_of_ne (Ne.symm hne), Function.update_self] at this
      cases this
    refine ⟨hroot, fun q hoq hneq => ?_, ?_⟩
    · by_contra hq
      have hqn : q ≠ n := by
        rintro rfl
        exact hq hn
      have hmoved := h'.of_prefix hoq hneq
        (by rwa [Function.update_of_ne hqn, Function.update_of_ne (Ne.symm hneq)])
      rw [Function.update_of_ne (Ne.symm hne), Function.update_self] at hmoved
      cases hmoved
    · have hparent := h'.parent n hnil (by simp)
      rw [Function.update_of_ne (dropLast_ne_self hnil)] at hparent
      by_cases hno : n.dropLast = o
      · rw [hno, Function.update_self] at hparent
        cases hparent
      · rw [Function.update_of_ne hno] at hparent
        exact ⟨hno, hparent⟩
  · -- a move is a removal and an addition
    rintro ⟨hroot, hbelow, hno, hparent⟩
    have herased := (isTree_erase_iff h o).2 ⟨hroot, hbelow⟩
    refine (isTree_add_iff herased ?_ b).2 ?_
    · rw [Function.update_of_ne hne, hn]
    · rw [Function.update_of_ne hno, hparent]

end

end Racfs
