/-
# Removing a subtree

`remove_all` over a database deletes the row of a path and the rows that match a pattern, which
is the text of the path with `/%` behind it.  In the pattern, a `%` or a `_` of a name is a
wildcard, and the case of letters does not count.  So a removal takes exactly the subtree
(`RemovesSubtree`) if what is stored at or under the path is written as the statement expects
it, and nothing else matches the pattern (`removeAll_iff`).  For normal paths the first is always
true (`removeAll_iff_of_wellKeyed`).  The backend in memory compares components instead.
-/
import Racfs.KvFs.Listing

namespace Racfs.KvFs

open KvSqlite

/-- The path from the root; a relative path is taken as one from there. -/
def rooted (path : PathBuf) : PathBuf :=
  if path.bytes.head? = some slash then path else ⟨slash :: path.bytes⟩

/-- The components of the key begin with those of the path. -/
def AtOrUnder (path : PathBuf) (key : Bytes) : Prop :=
  (PathBuf.mk key).startsWith (rooted path) = true

instance (path : PathBuf) (key : Bytes) : Decidable (AtOrUnder path key) := by
  unfold AtOrUnder
  infer_instance

/-- The pattern for what is below a path. -/
def belowPattern (path : PathBuf) : Bytes :=
  (rooted path).bytes.rdropWhile (· == slash) ++ slash :: Sql.percent

/-- The rows at and under the path are gone, and all others are as before. -/
structure RemovesSubtree (fs fs' : KvSqlite) (path : PathBuf) : Prop where
  gone : ∀ key, AtOrUnder path key → fs'.rows.get? key = none
  others : ∀ key, ¬ AtOrUnder path key → fs'.rows.get? key = fs.rows.get? key

lemma pathToStr_eq (path : PathBuf) : pathToStr path =
    if isUtf8 path.bytes then .ok (rooted path).bytes
    else .err (.InvalidInput "Path contains invalid UTF-8") := by
  rw [pathToStr, rooted]
  split_ifs <;> rfl

lemma selects_iff {path : PathBuf} {key : Bytes} : selects (rooted path).bytes key = true ↔
    key = (rooted path).bytes ∨ Sql.like key (belowPattern path) = true := by
  rw [selects, Bool.or_eq_true, beq_iff_eq]
  rfl

/-- What is stored after a removal. -/
lemma get?_removeAll (fs : KvSqlite) (path : PathBuf) (key : Bytes) :
    (fs.removeAll path).2.rows.get? key =
      if isUtf8 path.bytes = true ∧ (key = (rooted path).bytes ∨
        Sql.like key (belowPattern path) = true) then none else fs.rows.get? key := by
  rw [removeAll, withPath, pathToStr_eq]
  cases hutf8 : isUtf8 path.bytes with
  | false => simp
  | true =>
    simp only [if_true, true_and]
    rw [AssocMap.get?_retain_key (f := fun key => !selects (rooted path).bytes key) _
      fun a ha => by rw [beq_iff_eq.1 ha]]
    simp only [← selects_iff]
    cases selects (rooted path).bytes key <;> rfl

lemma atOrUnder_self (path : PathBuf) : AtOrUnder path (rooted path).bytes :=
  PathBuf.startsWith_iff.2 (List.prefix_refl _)

/-- The removal by what is stored at or under the path and elsewhere. -/
lemma removesSubtree_iff (fs : KvSqlite) (path : PathBuf) :
    RemovesSubtree fs (fs.removeAll path).2 path ↔
      (∀ key ∈ fs.rows.keys, AtOrUnder path key → isUtf8 path.bytes = true ∧
        (key = (rooted path).bytes ∨ Sql.like key (belowPattern path) = true)) ∧
      ∀ key ∈ fs.rows.keys, ¬ AtOrUnder path key → isUtf8 path.bytes = true →
        Sql.like key (belowPattern path) = false := by
  constructor
  · intro h
    refine ⟨fun key hkey hunder => ?_, fun key hkey hother hutf8 => ?_⟩
    · obtain ⟨row, hrow⟩ := AssocMap.mem_keys.1 hkey
      by_contra hnot
      have hgone := h.gone key hunder
      rw [get?_removeAll, if_neg hnot, hrow] at hgone
      cases hgone
    · obtain ⟨row, hrow⟩ := AssocMap.mem_keys.1 hkey
      by_contra hlike
      have hsame := h.others key hother
      rw [get?_removeAll, if_pos ⟨hutf8, Or.inr (by simpa using hlike)⟩, hrow] at hsame
      cases hsame
  · rintro ⟨hunder, hother⟩
    refine ⟨fun key hkey => ?_, fun key hkey => ?_⟩
    · rw [get?_removeAll]
      split_ifs with hsel
      · rfl
      · cases hrow : fs.rows.get? key with
        | none => rfl
        | some row => exact absurd (hunder key (AssocMap.mem_keys.2 ⟨row, hrow⟩) hkey) hsel
    · rw [get?_removeAll]
      split_ifs with hsel
      · obtain ⟨hutf8, rfl | hlike⟩ := hsel
        · exact absurd (atOrUnder_self path) hkey
        · cases hrow : fs.rows.get? key with
          | none => rfl
          | some row =>
            rw [hother key (AssocMap.mem_keys.2 ⟨row, hrow⟩) hkey hutf8] at hlike
            cases hlike
      · rfl

/-- In every table, for every path, the removal takes exactly the subtree if and only if what is
stored at or under the path, whose text is UTF-8, is the text of the path or matches the pattern,
and nothing else that is stored matches it. -/
theorem removeAll_iff (fs : KvSqlite) (path : PathBuf) :
    RemovesSubtree fs (fs.removeAll path).2 path ↔
      (∀ key ∈ fs.rows.keys, AtOrUnder path key → isUtf8 path.bytes = true ∧
        (key = (rooted path).bytes ∨ Sql.like key (belowPattern path) = true)) ∧
      ∀ key ∈ fs.rows.keys, ¬ AtOrUnder path key → isUtf8 path.bytes = true →
        Sql.like key (belowPattern path) = false :=
  removesSubtree_iff fs path

/-- A table with the root and two files, `/a_` and `/ab/x`. -/
def underscoreFs : KvSqlite :=
  let fs := (KvSqlite.new.create ⟨ascii "/a_"⟩).2
  (fs.create ⟨ascii "/ab/x"⟩).2

/-- The removal of `/a_` takes `/ab/x` with it. -/
theorem removeAll_takes_other :
    (underscoreFs.removeAll ⟨ascii "/a_"⟩).1 = .ok .unit ∧
      underscoreFs.rows.get? (ascii "/ab/x") = some ⟨[], false, S_IFREG ||| 0o644⟩ ∧
      (underscoreFs.removeAll ⟨ascii "/a_"⟩).2.rows.get? (ascii "/ab/x") = none ∧
      ¬ RemovesSubtree underscoreFs (underscoreFs.removeAll ⟨ascii "/a_"⟩).2 ⟨ascii "/a_"⟩ := by
  have hgone : (underscoreFs.removeAll ⟨ascii "/a_"⟩).2.rows.get? (ascii "/ab/x") = none := by
    decide
  refine ⟨rfl, rfl, hgone, fun h => ?_⟩
  have hsame := h.others (ascii "/ab/x") (by decide)
  rw [hgone] at hsame
  exact absurd hsame (by decide)

/-! ### Normal paths -/

lemma rooted_toPath (p : EntryPath) : rooted p.toPath = p.toPath := if_pos rfl

lemma belowPattern_toPath (p : EntryPath) :
    belowPattern p.toPath = p.text ++ slash :: Sql.percent := by
  rw [belowPattern, rooted_toPath]
  exact congrArg (· ++ slash :: Sql.percent) (trim_text p)

lemma atOrUnder_text {p q : EntryPath} : AtOrUnder p.toPath q.text ↔ p.names <+: q.names := by
  rw [AtOrUnder, rooted_toPath]
  exact @AbsPath.startsWith_iff q.toAbsPath p.toAbsPath

lemma not_atOrUnder_root (p : EntryPath) : ¬ AtOrUnder p.toPath [slash] := by
  rw [AtOrUnder, rooted_toPath]
  intro h
  exact p.ne_root (List.prefix_nil.1 ((@AbsPath.startsWith_iff .root p.toAbsPath).1 h))

/-- What is at or under a normal path is selected. -/
lemma text_or_like_of_prefix {p q : EntryPath} (h : p.names <+: q.names) :
    q.text = p.text ∨ Sql.like q.text (p.text ++ slash :: Sql.percent) = true := by
  obtain ⟨rest, hrest⟩ := h
  by_cases hnil : rest = []
  · rw [hnil, List.append_nil] at hrest
    exact Or.inl (EntryPath.text_inj.2 (EntryPath.ext hrest.symm))
  · have htext : q.text = p.text ++ AbsPath.text rest := by
      rw [EntryPath.text, ← hrest]
      exact AbsPath.text_append p.ne_root hnil
    rw [htext]
    exact Or.inr (Sql.like_of_prefix (by decide) _ _)

/-- The root is not below a path by the pattern. -/
lemma not_like_root (p : EntryPath) :
    Sql.like [slash] (p.text ++ slash :: Sql.percent) = false := by
  rw [← Bool.not_eq_true]
  intro hlike
  have hlt := Sql.count_slash_lt_of_like hlike
  have hroot : (Utf8.chars [slash]).count [slash] = 1 := by decide
  have htext : Utf8.chars p.text = [slash] :: Utf8.chars ([slash].intercalate p.names) :=
    Utf8.chars_cons _ (by decide)
  rw [hroot, htext, List.count_cons_self] at hlt
  omega

/-- With normal paths the removal takes exactly the subtree if and only if no other stored path
matches the pattern. -/
theorem removeAll_iff_of_wellKeyed {fs : KvSqlite} (hkeys : fs.WellKeyed) (p : EntryPath) :
    RemovesSubtree fs (fs.removeAll p.toPath).2 p.toPath ↔
      ∀ q : EntryPath, q.text ∈ fs.rows.keys →
        Sql.like q.text (p.text ++ slash :: Sql.percent) = true → p.names <+: q.names := by
  have htext : (rooted p.toPath).bytes = p.text := by
    rw [rooted_toPath]
    rfl
  have hutf8 : isUtf8 p.toPath.bytes = true := p.utf8
  rw [removesSubtree_iff, belowPattern_toPath, htext]
  constructor
  · rintro ⟨-, hother⟩ q hq hlike
    by_contra hnot
    rw [hother q.text hq (mt atOrUnder_text.1 hnot) hutf8] at hlike
    cases hlike
  · intro h
    refine ⟨fun key hkey hunder => ?_, fun key hkey hother _ => ?_⟩
    · obtain rfl | ⟨q, rfl⟩ := hkeys key hkey
      · exact absurd hunder (not_atOrUnder_root p)
      · exact ⟨hutf8, text_or_like_of_prefix (atOrUnder_text.1 hunder)⟩
    · obtain rfl | ⟨q, rfl⟩ := hkeys key hkey
      · exact not_like_root p
      · by_contra hlike
        exact hother (atOrUnder_text.2 (h q hkey (by simpa using hlike)))

/-- If moreover the path has no wildcards, only paths in another case are taken as well. -/
theorem removeAll_iff_of_plain {fs : KvSqlite} (hkeys : fs.WellKeyed) {p : EntryPath}
    (hplain : Sql.Plain p.text) :
    RemovesSubtree fs (fs.removeAll p.toPath).2 p.toPath ↔
      ∀ q : EntryPath, q.text ∈ fs.rows.keys →
        (Utf8.chars p.text ++ [[slash]]).map Sql.foldCase <+:
          (Utf8.chars q.text).map Sql.foldCase → p.names <+: q.names := by
  rw [removeAll_iff_of_wellKeyed hkeys]
  simp only [Sql.like_below_iff hplain]

end Racfs.KvFs
