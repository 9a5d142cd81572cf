/-
# Slicing the key of a path

The loop of `resolve_fs` takes the slice `&key[..i]` for every index `i` of the key of the path,
from the length down to zero, and it does not stop when it has found a filesystem.  An index is
a number of bytes, and a slice that ends inside of a character panics.  So the routing of a path
returns exactly if its key is ASCII, whatever is mounted (`resolveFs_returns_iff`).
-/
import Racfs.Vfs.Routing

namespace Racfs.Vfs

open Utf8 MountableFS

variable {F : Type*}

/-- The loop over the prefixes returns if every slice that it takes is at a boundary. -/
lemma searchTrie_ne_panic {trie : AssocMap Bytes F} {key : Bytes} {i : ℕ}
    (hb : ∀ j ≤ i, isCharBoundary key j = true) (best : Option F) (bestLen : ℕ) :
    searchTrie trie key i best bestLen ≠ .panic := by
  induction i generalizing best bestLen with
  | zero =>
    rw [searchTrie]
    simp [hb 0 le_rfl]
  | succ i ih =>
    rw [searchTrie]
    simp only [hb (i + 1) le_rfl, Bool.not_true, Bool.false_eq_true, if_false]
    exact ih (fun j hj => hb j (by omega)) _ _

/-- The key is the text of the path, up to a separator at the end. -/
lemma pathToKey_cases (p : PathBuf) :
    p.toStringLossy = pathToKey p ∨ p.toStringLossy = pathToKey p ++ [slash] := by
  rw [pathToKey]
  split_ifs with hlast
  · right
    obtain ⟨t, ht⟩ := List.getLast?_eq_some_iff.1 hlast
    rw [ht, List.dropLast_concat]
  · exact Or.inl rfl

lemma isAscii_pathToKey_iff (p : PathBuf) : IsAscii (pathToKey p) ↔ IsAscii p.bytes := by
  have htext : IsAscii p.toStringLossy ↔ IsAscii p.bytes := by
    refine ⟨isAscii_of_fromUtf8Lossy, fun h => ?_⟩
    rw [PathBuf.toStringLossy, fromUtf8Lossy_of_isAscii h]
    exact h
  rw [← htext]
  rcases pathToKey_cases p with heq | heq
  · rw [heq]
  · rw [heq]
    refine ⟨fun h b hb => ?_, fun h b hb => h b (List.mem_append_left _ hb)⟩
    rcases List.mem_append.1 hb with hb | hb
    · exact h b hb
    · rw [List.mem_singleton.1 hb]
      exact slash_lt

/-- A key can be sliced at every index exactly if it is ASCII. -/
lemma sliceable_pathToKey_iff (p : PathBuf) :
    (∀ i ≤ (pathToKey p).length, isCharBoundary (pathToKey p) i = true) ↔ IsAscii p.bytes := by
  refine ⟨fun hall => ?_, fun h => boundary_of_isAscii ((isAscii_pathToKey_iff p).2 h)⟩
  by_contra hascii
  obtain ⟨i, hpos, hcont⟩ := exists_pos_isCont_of_not_isAscii hascii
  -- the separator at the end of the text is not the continuation byte
  have hkey : isCont (safeGet (pathToKey p) i) = true := by
    rcases pathToKey_cases p with heq | heq
    · rw [← heq]
      exact hcont
    · rw [← PathBuf.toStringLossy, heq, safeGet] at hcont
      rcases Nat.lt_or_ge i (pathToKey p).length with hlt | hge
      · rwa [List.getD_append _ _ _ _ hlt] at hcont
      · rw [List.getD_append_right _ _ _ _ hge] at hcont
        cases hk : i - (pathToKey p).length with
        | zero =>
          rw [hk] at hcont
          exact absurd hcont (by decide)
        | succ k =>
          rw [hk, List.getD_eq_default _ _ (by simp), isCont_zero] at hcont
          cases hcont
  rw [forall_isCharBoundary_iff.1 hall i hpos] at hkey
  cases hkey

/-- For every mount table and every path, the routing returns a filesystem or an error exactly
if the normalized path is ASCII, and this is also when every slice that it takes ends at a
boundary of characters. -/
theorem resolveFs_returns_iff (s : MountableFS F) (path : PathBuf) :
    (((∃ r, s.resolveFs path = .ok r) ∨ ∃ e, s.resolveFs path = .err e) ↔
      IsAscii (normalizePath path).bytes) ∧
    ((∀ i ≤ (pathToKey (normalizePath path)).length,
        isCharBoundary (pathToKey (normalizePath path)) i = true) ↔
      IsAscii (normalizePath path).bytes) := by
  refine ⟨?_, sliceable_pathToKey_iff _⟩
  rw [← sliceable_pathToKey_iff]
  constructor
  · rintro hreturns
    by_contra hall
    push Not at hall
    obtain ⟨j, hj, hb⟩ := hall
    have hpanic : s.resolveFs path = .panic := by
      rw [resolveFs, searchTrie_of_not_boundary hj (by simpa using hb)]
      rfl
    rcases hreturns with ⟨r, hr⟩ | ⟨e, he⟩
    · rw [hpanic] at hr
      cases hr
    · rw [hpanic] at he
      cases he
  · intro hall
    rw [resolveFs]
    cases hfound : searchTrie s.trie (pathToKey (normalizePath path))
        (pathToKey (normalizePath path)).length none 0 with
    | ok found =>
      cases found with
      | none => exact Or.inr ⟨_, rfl⟩
      | some fs => exact Or.inl ⟨_, rfl⟩
    | err e => exact Or.inr ⟨e, rfl⟩
    | panic => exact absurd hfound (searchTrie_ne_panic hall _ _)

/-- Nothing is mounted, and the path is `/é`. -/
theorem resolveFs_panics :
    isUtf8 [slash, 0xC3, 0xA9] = true ∧
      (new : MountableFS ℕ).resolveFs ⟨[slash, 0xC3, 0xA9]⟩ = .panic ∧
      isCharBoundary (pathToKey (normalizePath ⟨[slash, 0xC3, 0xA9]⟩)) 2 = false := by
  refine ⟨by decide, rfl, rfl⟩

end Racfs.Vfs
