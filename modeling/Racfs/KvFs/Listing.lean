/-
# The listings of the key-value filesystem

The two backends find what is directly below a path in different ways: the one in memory
compares texts and then counts the components of what is left of a path, the one in a
database selects rows by a pattern, which also selects rows elsewhere, and then looks for a
separator.  For normalized absolute paths both list the entries whose paths have one name
more.
-/
import Racfs.KvFs.Model

namespace Racfs.KvFs

/-- A path is directly below another one. -/
def Child (p q : EntryPath) : Prop := ∃ n, q.names = p.names ++ [n]

lemma Child.text_eq {p q : EntryPath} (h : Child p q) :
    ∃ n, slash ∉ n ∧ q.text = p.text ++ slash :: n := by
  obtain ⟨n, hn⟩ := h
  have hname : IsName n := q.valid n (by simp [hn])
  exact ⟨n, hname.2.1, (EntryPath.text_eq_append_iff hname.2.1).2 hn⟩

lemma Child.two_le {p q : EntryPath} (h : Child p q) : 2 ≤ q.names.length := by
  obtain ⟨n, hn⟩ := h
  have hp := List.length_pos_of_ne_nil p.ne_root
  rw [hn, List.length_append, List.length_singleton]
  omega

/-! ### The backend in memory -/

namespace KvMemory

/-- All paths are normalized absolute paths other than the root. -/
def WellKeyed (fs : KvMemory) : Prop :=
  ∀ k ∈ fs.metadata.keys, ∃ p : EntryPath, k = p.toPath

/-- What is left of a path has one component when the path is directly below. -/
lemma length_relative_iff {p q : EntryPath} :
    ((q.toPath.stripPrefix p.toPath).getD q.toPath).components.length = 1 ↔ Child p q := by
  by_cases hpre : p.names <+: q.names
  · obtain ⟨r, hr⟩ := hpre
    have hvalid : ∀ n ∈ r, IsName n := fun n hn => q.valid n (by simp [← hr, hn])
    have hdrop : q.toPath.components.drop p.toPath.components.length = r.map .normal := by
      rw [AbsPath.components_toPath, AbsPath.components_toPath, ← hr]
      simp
    rw [PathBuf.stripPrefix, if_pos (AbsPath.startsWith_iff.2 ⟨r, hr⟩), Option.getD_some, hdrop,
      AbsPath.ofComponents_normal hvalid, AbsPath.components_relative hvalid, List.length_map,
      List.length_eq_one_iff]
    exact exists_congr fun n => by rw [← hr, List.append_cancel_left_eq]
  · have hnot : ¬ q.toPath.startsWith p.toPath = true :=
      fun h => hpre (AbsPath.startsWith_iff.1 h)
    have hlen := List.length_pos_of_ne_nil q.ne_root
    rw [PathBuf.stripPrefix, if_neg hnot, Option.getD_none, AbsPath.components_toPath,
      List.length_cons, List.length_map]
    refine iff_of_false (by omega) ?_
    rintro ⟨n, hn⟩
    exact hpre ⟨[n], hn.symm⟩

lemma mem_readDir {fs : KvMemory} (hkeys : fs.WellKeyed) (p : EntryPath) (m : FileMetadata) :
    m ∈ fs.readDir p.toPath ↔ ∃ q : EntryPath, Child p q ∧ fs.metadata.get? q.toPath = some m := by
  have hne : p.text ≠ [] := List.cons_ne_nil _ _
  simp only [readDir, p.toStringLossy, if_neg hne, List.mem_filterMap, List.mem_filter,
    Bool.and_eq_true, bne_iff_ne, ne_eq, List.isPrefixOf_iff_prefix, Option.ite_none_right_eq_some,
    Option.some.injEq]
  constructor
  · rintro ⟨⟨k, m'⟩, ⟨hmem, -⟩, hlen, rfl⟩
    obtain ⟨q, rfl⟩ := hkeys k (List.mem_map_of_mem (f := Prod.fst) hmem)
    exact ⟨q, length_relative_iff.1 hlen, AssocMap.get?_of_mem hmem⟩
  · rintro ⟨q, hchild, hm⟩
    obtain ⟨k, hmem, hk⟩ := AssocMap.mem_of_get? hm
    obtain ⟨q', rfl⟩ := hkeys k (List.mem_map_of_mem (f := Prod.fst) hmem)
    obtain rfl : q' = q := by simpa using hk
    obtain ⟨n, -, htext⟩ := hchild.text_eq
    refine ⟨(q'.toPath, m), ⟨hmem, ?_, ?_⟩, length_relative_iff.2 hchild, rfl⟩
    · rw [q'.toStringLossy, htext]
      exact List.prefix_append _ _
    · rw [q'.toStringLossy, htext]
      simp

end KvMemory

/-! ### The backend in a database -/

namespace KvSqlite

/-- All paths are normalized absolute paths. -/
def WellKeyed (fs : KvSqlite) : Prop :=
  ∀ k ∈ fs.rows.keys, k = [slash] ∨ ∃ p : EntryPath, k = p.text

/-- The text before the names below a path. -/
lemma trim_text (p : EntryPath) : p.text.rdropWhile (· == slash) = p.text := by
  rw [List.rdropWhile_eq_self_iff]
  intro hne hlast
  refine p.getLast?_text ?_
  rw [List.getLast?_eq_getLast_of_ne_nil hne]
  simpa using hlast

/-- What is left of a key has no separator when the path is directly below. -/
lemma not_mem_rest_iff {p : EntryPath} {k : Bytes}
    (hk : k = [slash] ∨ ∃ q : EntryPath, k = q.text) :
    slash ∉ (if (p.text ++ [slash]).isPrefixOf k then k.drop (p.text ++ [slash]).length else k) ↔
      ∃ q : EntryPath, k = q.text ∧ Child p q := by
  by_cases hpre : p.text ++ [slash] <+: k
  · obtain ⟨r, rfl⟩ := hpre
    rw [if_pos (List.isPrefixOf_iff_prefix.2 ⟨r, rfl⟩), List.drop_left]
    constructor
    · intro hr
      obtain hroot | ⟨q, hq⟩ := hk
      · have hlen := congrArg List.length hroot
        simp [EntryPath.text, AbsPath.text] at hlen
      · refine ⟨q, hq, r, (EntryPath.text_eq_append_iff hr).1 ?_⟩
        rw [← hq, List.append_assoc, List.singleton_append]
    · rintro ⟨q, hq, hchild⟩
      obtain ⟨n, hn, htext⟩ := hchild.text_eq
      rw [htext, List.append_assoc, List.append_cancel_left_eq, List.singleton_append,
        List.cons.injEq] at hq
      rwa [hq.2]
  · -- a key elsewhere begins with a separator
    rw [if_neg fun h => hpre (List.isPrefixOf_iff_prefix.1 h)]
    refine iff_of_false (fun h => h ?_) ?_
    · obtain rfl | ⟨q, rfl⟩ := hk
      · exact List.mem_singleton_self slash
      · exact List.mem_cons_self
    · rintro ⟨q, rfl, hchild⟩
      obtain ⟨n, -, htext⟩ := hchild.text_eq
      exact hpre ⟨n, by rw [htext, List.append_assoc, List.singleton_append]⟩

lemma mem_readDir {fs : KvSqlite} (hkeys : fs.WellKeyed) (p : EntryPath) :
    ∃ ms, fs.readDir p.toPath = .ok ms ∧ ∀ m, m ∈ ms ↔
      ∃ (q : EntryPath) (row : KvRow), Child p q ∧ fs.rows.get? q.text = some row ∧
        row.metadata q.text = m := by
  have hroot : p.text ≠ [slash] := fun h => p.ne_root ((AbsPath.text_eq_iff p.toAbsPath).1 h)
  rw [readDir, pathToStr_toPath, Outcome.map_ok]
  refine ⟨_, rfl, fun m => ?_⟩
  simp only [if_neg hroot, trim_text, List.mem_filterMap, List.mem_filter, Bool.and_eq_true,
    bne_iff_ne, ne_eq, Option.ite_none_left_eq_some, Option.some.injEq]
  constructor
  · rintro ⟨⟨k, row⟩, ⟨hmem, -⟩, hrest, rfl⟩
    have hk := hkeys k (List.mem_map_of_mem (f := Prod.fst) hmem)
    obtain ⟨q, rfl, hchild⟩ := (not_mem_rest_iff hk).1 hrest
    exact ⟨q, row, hchild, AssocMap.get?_of_mem hmem, rfl⟩
  · rintro ⟨q, row, hchild, hrow, rfl⟩
    obtain ⟨k, hmem, hk⟩ := AssocMap.mem_of_get? hrow
    obtain rfl : k = q.text := by simpa using hk
    refine ⟨(q.text, row), ⟨hmem, ?_, ?_⟩, (not_mem_rest_iff (Or.inr ⟨q, rfl⟩)).2 ⟨q, rfl, hchild⟩,
      rfl⟩
    · obtain ⟨n, -, htext⟩ := hchild.text_eq
      rw [htext, List.append_assoc, List.singleton_append]
      exact Sql.like_of_prefix slash_lt p.text n
    · obtain ⟨n, -, htext⟩ := hchild.text_eq
      simp [htext]

end KvSqlite

end Racfs.KvFs
