/-
# The order of the entries of a map

`Std.TreeMap` keeps its entries in the order of the keys, and an ordered list of entries is
determined by what is in it (`toList_eq`).  From there: what an insertion behind all keys and
the removal of the first entry do to the list, which keys are among the last ones, and that maps
whose entries are related one by one have related lists.
-/
import Mathlib.Data.List.Forall2
import Mathlib.Data.List.Sort
import Mathlib.Data.Option.Basic
import Std.Data.TreeMap.Lemmas

namespace Racfs.TreeMap

open Std

variable {K V W : Type*} {cmp : K → K → Ordering} [TransCmp cmp] [LawfulEqCmp cmp]
  {t : TreeMap K V cmp}

/-- An ordered list with the entries of a map is the list of its entries. -/
theorem toList_eq {l : List (K × V)} (hl : l.Pairwise fun a b => cmp a.1 b.1 = .lt)
    (hmem : ∀ e, e ∈ l ↔ t[e.1]? = some e.2) : t.toList = l := by
  have hlt : ∀ a b : K, cmp a b = .lt → a ≠ b := by
    rintro a b h rfl
    have hself : cmp a a = .eq := ReflCmp.compare_self
    rw [hself] at h
    cases h
  have hnodup : ∀ {l : List (K × V)}, (l.Pairwise fun a b => cmp a.1 b.1 = .lt) → l.Nodup :=
    fun h => h.imp fun h heq => hlt _ _ h (congrArg Prod.fst heq)
  have hperm : t.toList.Perm l := by
    refine (List.perm_ext_iff_of_nodup (hnodup TreeMap.ordered_keys_toList) (hnodup hl)).2 ?_
    rintro ⟨k, v⟩
    rw [hmem, TreeMap.mem_toList_iff_getElem?_eq_some]
  refine hperm.eq_of_pairwise (fun a b _ _ hab hba => ?_) TreeMap.ordered_keys_toList hl
  have hswap : cmp a.1 b.1 = (cmp b.1 a.1).swap := OrientedCmp.eq_swap
  rw [hswap, hba] at hab
  cases hab

/-- An entry behind all others. -/
lemma toList_insert_last {k : K} (h : ∀ k' ∈ t, cmp k' k = .lt) (v : V) :
    (t.insert k v).toList = t.toList ++ [(k, v)] := by
  have hkeys : ∀ e ∈ t.toList, cmp e.1 k = .lt := fun e he => h e.1 <| by
    rw [← TreeMap.mem_keys, ← TreeMap.map_fst_toList_eq_keys]
    exact List.mem_map_of_mem he
  refine toList_eq ?_ ?_
  · rw [List.pairwise_append]
    refine ⟨TreeMap.ordered_keys_toList, List.pairwise_singleton _ _, fun e he e' he' => ?_⟩
    rw [List.mem_singleton.1 he']
    exact hkeys e he
  · rintro ⟨k', v'⟩
    rw [List.mem_append, List.mem_singleton, TreeMap.mem_toList_iff_getElem?_eq_some,
      TreeMap.getElem?_insert]
    split_ifs with heq
    · obtain rfl := LawfulEqCmp.eq_of_compare heq
      have hnot : t[k]? ≠ some v' := by
        intro hsome
        have hself := h k (TreeMap.mem_iff_isSome_getElem?.2 (by rw [hsome]; rfl))
        have heq : cmp k k = .eq := ReflCmp.compare_self
        rw [heq] at hself
        cases hself
      simp [hnot, eq_comm]
    · refine or_iff_left ?_
      rintro ⟨⟩
      exact heq ReflCmp.compare_self

/-- The entries after one has been removed. -/
lemma toList_erase (k : K) :
    (t.erase k).toList = t.toList.filter fun e => cmp k e.1 ≠ .eq := by
  refine toList_eq (TreeMap.ordered_keys_toList.filter _) ?_
  rintro ⟨k', v'⟩
  rw [List.mem_filter, TreeMap.mem_toList_iff_getElem?_eq_some, TreeMap.getElem?_erase]
  by_cases heq : cmp k k' = .eq <;> simp [heq]

/-- Without its first entry, a map has the rest of the list. -/
lemma toList_erase_first {k : K} {v : V} {l : List (K × V)} (h : t.toList = (k, v) :: l) :
    (t.erase k).toList = l := by
  have hord := TreeMap.ordered_keys_toList (t := t)
  rw [h, List.pairwise_cons] at hord
  rw [toList_erase, h, List.filter_cons_of_neg (by simp [ReflCmp.compare_self]),
    List.filter_eq_self]
  intro e he
  rw [hord.1 e he]
  rfl

/-- Maps with the same keys have them in the same order. -/
lemma keys_eq {t' : TreeMap K W cmp} (h : ∀ k, k ∈ t ↔ k ∈ t') : t.keys = t'.keys := by
  have hperm : t.keys.Perm t'.keys := by
    refine (List.perm_ext_iff_of_nodup TreeMap.nodup_keys TreeMap.nodup_keys).2 fun k => ?_
    rw [TreeMap.mem_keys, TreeMap.mem_keys, h]
  refine hperm.eq_of_pairwise (fun a b _ _ hab hba => ?_) TreeMap.ordered_keys
    TreeMap.ordered_keys
  have hswap : cmp a b = (cmp b a).swap := OrientedCmp.eq_swap
  rw [hswap, hba] at hab
  cases hab

/-- A key is among the last `n` ones exactly if fewer than `n` keys are behind it. -/
lemma mem_drop_keys_iff {k : K} (hk : k ∈ t) (n : ℕ) :
    k ∈ t.keys.drop (t.size - n) ↔ t.keys.countP (fun k' => cmp k k' = .lt) < n := by
  have hord : t.keys.Pairwise fun a b => cmp a b = .lt := TreeMap.ordered_keys
  rw [← TreeMap.length_keys]
  obtain ⟨front, back, hsplit⟩ := List.append_of_mem (TreeMap.mem_keys.2 hk)
  rw [hsplit, List.pairwise_append, List.pairwise_cons] at hord
  obtain ⟨-, ⟨hback, -⟩, hfront⟩ := hord
  have hself : cmp k k ≠ .lt := by
    have heq : cmp k k = .eq := ReflCmp.compare_self
    simp [heq]
  have hbefore : ∀ a ∈ front, cmp k a ≠ .lt := by
    intro a ha hlt
    have hswap : cmp k a = (cmp a k).swap := OrientedCmp.eq_swap
    rw [hswap, hfront a ha k List.mem_cons_self] at hlt
    cases hlt
  have hcount : (front ++ k :: back).countP (fun k' => cmp k k' = .lt) = back.length := by
    rw [List.countP_append, List.countP_cons, List.countP_eq_zero.2 (by simpa using hbefore),
      List.countP_eq_length.2 (by simpa using hback)]
    simp [hself]
  have hnot : k ∉ back := fun h => hself (hback k h)
  have hlen : (front ++ k :: back).length = front.length + 1 + back.length := by
    simp only [List.length_append, List.length_cons]
    omega
  rw [hsplit, hcount, hlen]
  rcases Nat.lt_or_ge back.length n with hlt | hge
  · refine iff_of_true ?_ hlt
    have hle : front.length + 1 + back.length - n ≤ front.length := by omega
    rw [List.drop_append_of_le_length hle]
    exact List.mem_append_right _ List.mem_cons_self
  · refine iff_of_false (fun hmem => hnot ?_) (Nat.not_lt.2 hge)
    obtain ⟨m, hm⟩ : ∃ m, front.length + 1 + back.length - n = front.length + (1 + m) :=
      ⟨back.length - n, by omega⟩
    rw [hm, List.drop_append, List.drop_eq_nil_of_le (by omega), List.nil_append,
      Nat.add_sub_cancel_left, Nat.add_comm 1 m, List.drop_succ_cons] at hmem
    exact List.mem_of_mem_drop hmem

/-- An insertion does not change how many other keys there are of a kind. -/
lemma countP_keys_insert {k : K} {p : K → Bool} (hk : p k = false) (v : V) :
    (t.insert k v).keys.countP p = t.keys.countP p := by
  rw [List.countP_eq_length_filter, List.countP_eq_length_filter]
  refine List.Perm.length_eq ?_
  refine (List.perm_ext_iff_of_nodup (TreeMap.nodup_keys.filter _)
    (TreeMap.nodup_keys.filter _)).2 fun a => ?_
  rw [List.mem_filter, List.mem_filter, TreeMap.mem_keys, TreeMap.mem_keys, TreeMap.mem_insert]
  refine and_congr_left fun ha => or_iff_right ?_
  intro heq
  obtain rfl := LawfulEqCmp.eq_of_compare heq
  rw [hk] at ha
  cases ha

/-! ### Maps with related values -/

/-- Maps with the same keys, whose values are related. -/
def Rel (R : V → W → Prop) (t : TreeMap K V cmp) (t' : TreeMap K W cmp) : Prop :=
  ∀ k : K, Option.Rel R t[k]? t'[k]?

namespace Rel

variable {R : V → W → Prop} {t' : TreeMap K W cmp}

omit [LawfulEqCmp cmp] in
lemma empty : Rel R (∅ : TreeMap K V cmp) (∅ : TreeMap K W cmp) := by
  intro k
  rw [TreeMap.getElem?_emptyc, TreeMap.getElem?_emptyc]
  exact .none

omit [LawfulEqCmp cmp] in
lemma insert (h : Rel R t t') (k : K) {v : V} {w : W} (hvw : R v w) :
    Rel R (t.insert k v) (t'.insert k w) := by
  intro k'
  rw [TreeMap.getElem?_insert, TreeMap.getElem?_insert]
  split_ifs
  · exact .some hvw
  · exact h k'

omit [LawfulEqCmp cmp] in
lemma erase (h : Rel R t t') (k : K) : Rel R (t.erase k) (t'.erase k) := by
  intro k'
  rw [TreeMap.getElem?_erase, TreeMap.getElem?_erase]
  split_ifs
  · exact .none
  · exact h k'

omit [TransCmp cmp] [LawfulEqCmp cmp] in
/-- Either map has a value, and these are related, or none has. -/
lemma get?_cases (h : Rel R t t') (k : K) :
    (t[k]? = none ∧ t'[k]? = none) ∨ ∃ v w, t[k]? = some v ∧ t'[k]? = some w ∧ R v w := by
  have hk := h k
  cases hv : t[k]? with
  | none =>
    cases hw : t'[k]? with
    | none => exact Or.inl ⟨rfl, rfl⟩
    | some w => rw [hv, hw] at hk; cases hk
  | some v =>
    cases hw : t'[k]? with
    | none => rw [hv, hw] at hk; cases hk
    | some w =>
      rw [hv, hw] at hk
      exact Or.inr ⟨v, w, rfl, rfl, Option.rel_some_some.1 hk⟩

omit [LawfulEqCmp cmp] in
lemma contains_eq (h : Rel R t t') (k : K) : t.contains k = t'.contains k := by
  rw [TreeMap.contains_eq_isSome_getElem?, TreeMap.contains_eq_isSome_getElem?]
  rcases h.get?_cases k with ⟨hv, hw⟩ | ⟨v, w, hv, hw, -⟩
  · rw [hv, hw]
    rfl
  · rw [hv, hw]
    rfl

lemma keys_eq (h : Rel R t t') : t.keys = t'.keys :=
  TreeMap.keys_eq fun k => by
    rw [← TreeMap.contains_iff_mem, ← TreeMap.contains_iff_mem, h.contains_eq]

lemma size_eq (h : Rel R t t') : t.size = t'.size := by
  rw [← TreeMap.length_keys, h.keys_eq, TreeMap.length_keys]

/-- The entries are related one by one. -/
theorem forall₂_toList (h : Rel R t t') :
    List.Forall₂ (fun a b => a.1 = b.1 ∧ R a.2 b.2) t.toList t'.toList := by
  have hkeys := h.keys_eq
  rw [← TreeMap.map_fst_toList_eq_keys, ← TreeMap.map_fst_toList_eq_keys,
    ← List.forall₂_eq_eq_eq, List.forall₂_map_left_iff, List.forall₂_map_right_iff,
    List.forall₂_iff_zip] at hkeys
  refine List.forall₂_iff_zip.2 ⟨hkeys.1, ?_⟩
  rintro ⟨k, v⟩ ⟨k', w⟩ hzip
  obtain rfl : k = k' := hkeys.2 hzip
  obtain ⟨hv, hw⟩ := List.of_mem_zip hzip
  have hk := h k
  rw [TreeMap.mem_toList_iff_getElem?_eq_some.1 hv, TreeMap.mem_toList_iff_getElem?_eq_some.1 hw,
    Option.rel_some_some] at hk
  exact ⟨rfl, hk⟩

end Rel

end Racfs.TreeMap
