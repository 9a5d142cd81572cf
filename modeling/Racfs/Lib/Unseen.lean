/-
# The first of each name

A loop over a list that keeps what has a name it has not seen before.  Which elements are kept
depends on the order of the list, but every name of the list is kept once, and in a suitable
order any element with a name is kept (`forall_unseen_iff`).
-/
import Mathlib.Data.List.Nodup
import Mathlib.Data.List.Permutation

namespace Racfs

variable {A K : Type*} [DecidableEq K]

/-- What a loop keeps, with the names, after it has seen some names. -/
def unseen (name : A → Option K) : List K → List A → List (A × K)
  | _, [] => []
  | seen, a :: l =>
    match name a with
    | none => unseen name seen l
    | some k => if k ∈ seen then unseen name seen l else (a, k) :: unseen name (k :: seen) l

variable {name : A → Option K}

/-- A filter before the loop takes the names away. -/
lemma unseen_filter (f : A → Bool) (seen : List K) (l : List A) :
    unseen name seen (l.filter f) = unseen (fun a => if f a then name a else none) seen l := by
  induction l generalizing seen with
  | nil => rfl
  | cons a l ih =>
    cases hf : f a with
    | false =>
      rw [List.filter_cons_of_neg (by simp [hf]), ih]
      simp [unseen, hf]
    | true =>
      rw [List.filter_cons_of_pos hf]
      simp [unseen, hf, ih]

/-- What is kept is in the list, and its name is new. -/
lemma of_mem_unseen {seen : List K} {l : List A} {x : A × K} (h : x ∈ unseen name seen l) :
    x.1 ∈ l ∧ name x.1 = some x.2 ∧ x.2 ∉ seen := by
  induction l generalizing seen with
  | nil => cases h
  | cons a l ih =>
    have hrest : ∀ {seen}, x ∈ unseen name seen l → x.1 ∈ a :: l ∧ name x.1 = some x.2 ∧
        x.2 ∉ seen := fun h => ⟨List.mem_cons_of_mem a (ih h).1, (ih h).2⟩
    cases hname : name a with
    | none =>
      simp only [unseen, hname] at h
      exact hrest h
    | some k =>
      simp only [unseen, hname] at h
      split_ifs at h with hk
      · exact hrest h
      · rcases List.mem_cons.1 h with rfl | h
        · exact ⟨List.mem_cons_self, hname, hk⟩
        · obtain ⟨hmem, hx, hnot⟩ := hrest h
          exact ⟨hmem, hx, fun hseen => hnot (List.mem_cons_of_mem k hseen)⟩

/-- No name is kept twice. -/
lemma nodup_unseen (seen : List K) (l : List A) :
    ((unseen name seen l).map Prod.snd).Nodup := by
  induction l generalizing seen with
  | nil => exact List.nodup_nil
  | cons a l ih =>
    cases hname : name a with
    | none =>
      simp only [unseen, hname]
      exact ih seen
    | some k =>
      simp only [unseen, hname]
      split_ifs with hk
      · exact ih seen
      · rw [List.map_cons, List.nodup_cons]
        refine ⟨fun hmem => ?_, ih (k :: seen)⟩
        obtain ⟨x, hx, rfl⟩ := List.mem_map.1 hmem
        exact (of_mem_unseen hx).2.2 List.mem_cons_self

/-- A name that is new is kept. -/
lemma exists_mem_unseen {seen : List K} {l : List A} {a : A} {k : K} (ha : a ∈ l)
    (hname : name a = some k) (hk : k ∉ seen) : ∃ b, (b, k) ∈ unseen name seen l := by
  induction l generalizing seen with
  | nil => cases ha
  | cons c l ih =>
    cases hc : name c with
    | none =>
      have hne : a ≠ c := by
        rintro rfl
        rw [hname] at hc
        cases hc
      simp only [unseen, hc]
      exact ih ((List.mem_cons.1 ha).resolve_left hne) hk
    | some k' =>
      simp only [unseen, hc]
      by_cases hkk : k = k'
      · subst hkk
        rw [if_neg hk]
        exact ⟨c, List.mem_cons_self⟩
      · have hne : a ≠ c := by
          rintro rfl
          exact hkk (Option.some.inj (hname.symm.trans hc))
        have hl := (List.mem_cons.1 ha).resolve_left hne
        split_ifs with hk'
        · exact ih hl hk
        · have hnew : k ∉ k' :: seen := by simp [hkk, hk]
          obtain ⟨b, hb⟩ := ih hl hnew
          exact ⟨b, List.mem_cons_of_mem _ hb⟩

/-- What is kept in some order is what has a name. -/
lemma forall_unseen_iff {l : List A} {P : A → K → Prop} :
    (∀ l', l'.Perm l → ∀ x ∈ unseen name [] l', P x.1 x.2) ↔
      ∀ a ∈ l, ∀ k, name a = some k → P a k := by
  constructor
  · intro h a ha k hk
    obtain ⟨front, back, rfl⟩ := List.append_of_mem ha
    -- an order in which the element comes first
    refine h (a :: (front ++ back)) List.perm_middle.symm (a, k) ?_
    simp [unseen, hk]
  · intro h l' hl' x hx
    obtain ⟨hmem, hname, -⟩ := of_mem_unseen hx
    exact h x.1 (hl'.mem_iff.1 hmem) x.2 hname

end Racfs
