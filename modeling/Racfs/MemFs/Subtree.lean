/-
# Renaming a directory

The table of `MemFS` is flat, so a rename of a directory should give a new path to everything
that is stored below it (`MovesSubtree`).  `rename` moves the one entry of the old path.  It does
what it should exactly if nothing is stored below the old path, and if the new path has no
extended attributes left over that the old one, which has none, would inherit
(`rename_moves_iff`).  Such attributes are left over by a removal of a directory that fails.
-/
import Racfs.MemFs.Frame
import Racfs.MemFs.Tree

namespace Racfs.MemFs

open MemFS

/-- The path of something at or below `o`, when `o` has become `n`. -/
def movedPath (o n p : PathBuf) : PathBuf :=
  match p.stripPrefix o with
  | some rest => n.push rest
  | none => p

/-- The value of an extended attribute. -/
def attr (fs : MemFS) (p : PathBuf) (name : Bytes) : Option Bytes :=
  (fs.xattrs.get? p).bind fun attrs => attrs.get? name

/-- Everything at or below `o` has moved to `n`, with its data, its metadata but for the path, and
its extended attributes.  Nothing else has changed. -/
structure MovesSubtree (fs fs' : MemFS) (o n : PathBuf) : Prop where
  moved : ∀ p e, fs.files.get? p = some e → p.startsWith o = true →
    ∃ q, (q == movedPath o n p) = true ∧
      fs'.files.get? (movedPath o n p) = some { e with metadata := { e.metadata with path := q } }
  attrs : ∀ p, Stored fs p → p.startsWith o = true →
    ∀ name, attr fs' (movedPath o n p) name = attr fs p name
  gone : ∀ p, p.startsWith o = true → ¬ Stored fs' p
  others : ∀ p, p.startsWith o = false →
    (∀ q, Stored fs q → q.startsWith o = true → (movedPath o n q == p) = false) →
    fs'.files.get? p = fs.files.get? p ∧ ∀ name, attr fs' p name = attr fs p name

/-! ### The moved path of the directory itself -/

lemma movedPath_self {o n p : PathBuf} (h : (p == o) = true) : (movedPath o n p == n) = true := by
  have hcomps := PathBuf.beq_iff.1 h
  have hstrip : p.stripPrefix o = some ⟨[]⟩ := by
    rw [PathBuf.stripPrefix, if_pos (PathBuf.startsWith_iff.2 (by rw [hcomps])), hcomps,
      List.drop_length]
    rfl
  rw [PathBuf.beq_iff, movedPath, hstrip]
  exact PathBuf.components_push_nil n

lemma startsWith_of_beq {o p : PathBuf} (h : (p == o) = true) : p.startsWith o = true :=
  PathBuf.startsWith_iff.2 (by rw [PathBuf.beq_iff.1 h])

lemma ne_of_startsWith {o n p : PathBuf} (hnot : n.startsWith o = false)
    (h : p.startsWith o = true) : (n == p) = false := by
  rw [← Bool.not_eq_true]
  intro heq
  rw [PathBuf.startsWith, PathBuf.beq_iff.1 heq, ← PathBuf.startsWith, h] at hnot
  cases hnot

/-! ### What `rename` does -/

variable {fs : MemFS} {o n : PathBuf} {e : FileEntry}

/-- The attributes go from the one path to the other, if there are any. -/
def movedXattrs (fs : MemFS) (o n : PathBuf) : AssocMap PathBuf (AssocMap Bytes Bytes) :=
  match fs.xattrs.get? o with
  | none => fs.xattrs
  | some attrs => (fs.xattrs.erase o).insert n attrs

lemma rename_of_free (ho : fs.files.get? o = some e) (hn : fs.files.get? n = none) :
    fs.rename o n = (.ok .unit,
      ⟨(fs.files.erase o).insert n { e with metadata := { e.metadata with path := n } },
        movedXattrs fs o n⟩) := by
  have hfree : (fs.files.erase o).contains n = false := by
    rw [AssocMap.contains_eq_false_iff, AssocMap.get?_erase, hn, ite_self]
  rw [rename, ho]
  simp only [hfree, Bool.false_eq_true, if_false]
  rfl

lemma get?_rename_new (ho : fs.files.get? o = some e) (hn : fs.files.get? n = none)
    {p : PathBuf} (hp : (n == p) = true) :
    (fs.rename o n).2.files.get? p =
      some { e with metadata := { e.metadata with path := n } } := by
  rw [rename_of_free ho hn, AssocMap.get?_insert, if_pos hp]

lemma get?_rename_old (ho : fs.files.get? o = some e) (hn : fs.files.get? n = none)
    {p : PathBuf} (hnp : (n == p) = false) (hop : (o == p) = true) :
    (fs.rename o n).2.files.get? p = none := by
  rw [rename_of_free ho hn, AssocMap.get?_insert, if_neg (by simp [hnp]), AssocMap.get?_erase,
    if_pos hop]

/-- The new path has the attributes of the old one, or keeps its own if the old one has none. -/
lemma attr_rename_new (ho : fs.files.get? o = some e) (hn : fs.files.get? n = none)
    {p : PathBuf} (hp : (n == p) = true) (name : Bytes) :
    attr (fs.rename o n).2 p name =
      if (fs.xattrs.get? o).isSome then attr fs o name else attr fs n name := by
  rw [attr, rename_of_free ho hn]
  simp only [movedXattrs, attr]
  cases hattrs : fs.xattrs.get? o with
  | none => simp [AssocMap.get?_congr _ hp]
  | some attrs => simp [AssocMap.get?_insert, hp]

/-- Something below the old path would stay where it is. -/
lemma beq_of_moves (hnot : n.startsWith o = false) (h : MovesSubtree fs (fs.rename o n).2 o n)
    {p : PathBuf} (hp : Stored fs p) (hpo : p.startsWith o = true) : (p == o) = true := by
  by_contra hne
  have hop : (o == p) = false := by
    rw [Bool.not_eq_true] at hne
    exact BEq.symm_false hne
  refine h.gone p hpo ?_
  rw [Stored, AssocMap.contains, get?_rename hop (ne_of_startsWith hnot hpo)]
  exact hp

/-- Attributes that are left over for the new path would be those of the moved entry. -/
lemma attr_eq_none_of_moves (ho : fs.files.get? o = some e) (hn : fs.files.get? n = none)
    (h : MovesSubtree fs (fs.rename o n).2 o n) (hnone : fs.xattrs.get? o = none) (name : Bytes) :
    attr fs n name = none := by
  have hstored : Stored fs o := AssocMap.contains_iff.2 ⟨e, ho⟩
  have hattr := h.attrs o hstored (startsWith_of_beq BEq.rfl) name
  rw [attr_rename_new ho hn (BEq.symm (movedPath_self BEq.rfl)), hnone] at hattr
  simpa [attr, hnone] using hattr

/-- The one entry is the whole subtree, and its attributes go with it. -/
lemma movesSubtree_of_alone (ho : fs.files.get? o = some e) (hn : fs.files.get? n = none)
    (hnot : n.startsWith o = false)
    (hbelow : ∀ p, Stored fs p → p.startsWith o = true → (p == o) = true)
    (hleft : fs.xattrs.get? o = none → ∀ name, attr fs n name = none) :
    MovesSubtree fs (fs.rename o n).2 o n where
  moved := by
    intro p e' hp hpo
    have heq := hbelow p (AssocMap.contains_iff.2 ⟨e', hp⟩) hpo
    have hnew := BEq.symm (@movedPath_self o n p heq)
    rw [AssocMap.get?_congr _ heq, ho, Option.some.injEq] at hp
    subst hp
    exact ⟨n, hnew, get?_rename_new ho hn hnew⟩
  attrs := by
    intro p hp hpo name
    have heq := hbelow p hp hpo
    rw [attr_rename_new ho hn (BEq.symm (movedPath_self heq))]
    have hattr : attr fs p name = attr fs o name := by
      rw [attr, attr, AssocMap.get?_congr _ heq]
    split_ifs with hsome
    · exact hattr.symm
    · have hnone : fs.xattrs.get? o = none := by simpa using hsome
      rw [hleft hnone name, hattr, attr, hnone]
      rfl
  gone := by
    -- nothing is left at the old path, and nothing was below it
    intro p hpo hp
    have hnp := ne_of_startsWith hnot hpo
    by_cases hop : (o == p) = true
    · rw [Stored, AssocMap.contains, get?_rename_old ho hn hnp hop] at hp
      cases hp
    · rw [Bool.not_eq_true] at hop
      rw [Stored, AssocMap.contains, get?_rename hop hnp] at hp
      rw [BEq.comm, hbelow p hp hpo] at hop
      cases hop
  others := by
    intro p hpo hmoved
    have hop : (o == p) = false := by
      rw [← Bool.not_eq_true]
      intro heq
      rw [startsWith_of_beq (BEq.symm heq)] at hpo
      cases hpo
    have hstored : Stored fs o := AssocMap.contains_iff.2 ⟨e, ho⟩
    have hnp : (n == p) = false := by
      have hself := hmoved o hstored (startsWith_of_beq BEq.rfl)
      rwa [BEq.congr_left (@movedPath_self o n o BEq.rfl)] at hself
    have hsame := @sameAt_rename fs p o n hop hnp
    exact ⟨hsame.entry, fun name => by rw [attr, attr, hsame.xattrs]⟩

/-- A rename of a stored path to one that is not stored and not below it moves the whole subtree
exactly if nothing is stored below the old path, and the old path has attributes or none are left
over for the new one. -/
theorem rename_moves_iff (fs : MemFS) {o n : PathBuf} {e : FileEntry}
    (ho : fs.files.get? o = some e) (hn : fs.files.get? n = none)
    (hnot : n.startsWith o = false) :
    (fs.rename o n).1 = .ok .unit ∧
    (MovesSubtree fs (fs.rename o n).2 o n ↔
      (∀ p, Stored fs p → p.startsWith o = true → (p == o) = true) ∧
        (fs.xattrs.get? o = none → ∀ name, attr fs n name = none)) := by
  refine ⟨by rw [rename_of_free ho hn], fun h => ⟨?_, ?_⟩, fun ⟨hbelow, hleft⟩ => ?_⟩
  · exact fun p hp hpo => beq_of_moves hnot h hp hpo
  · exact fun hnone name => attr_eq_none_of_moves ho hn h hnone name
  · exact movesSubtree_of_alone ho hn hnot hbelow hleft

/-- A filesystem with the directory `/d`, which contains a file if this is asked for. -/
def dirFs (withFile : Bool) : MemFS :=
  let fs := ((MemFS.new 0).mkdir ⟨ascii "/d"⟩ 0o755 0).2
  if withFile then (fs.create ⟨ascii "/d/x"⟩ 0).2 else fs

/-- An empty directory. -/
theorem rename_moves_empty :
    MovesSubtree (dirFs false) ((dirFs false).rename ⟨ascii "/d"⟩ ⟨ascii "/e"⟩).2
      ⟨ascii "/d"⟩ ⟨ascii "/e"⟩ := by
  refine (rename_moves_iff (dirFs false) (o := ⟨ascii "/d"⟩) (n := ⟨ascii "/e"⟩) rfl rfl
    (by decide)).2.2 ⟨fun p hp hpo => ?_, fun _ _ => rfl⟩
  obtain ⟨e, he⟩ := AssocMap.contains_iff.1 hp
  obtain ⟨k, hk, hkp⟩ := AssocMap.mem_of_get? he
  have hcases : (k == ⟨ascii "/"⟩) = true ∨ (k == ⟨ascii "/d"⟩) = true := by
    have hkeys : k ∈ (dirFs false).files.keys := List.mem_map_of_mem (f := Prod.fst) hk
    have hlist : (dirFs false).files.keys = [⟨ascii "/"⟩, ⟨ascii "/d"⟩] := rfl
    rw [hlist, List.mem_cons, List.mem_singleton] at hkeys
    rcases hkeys with rfl | rfl
    · exact Or.inl BEq.rfl
    · exact Or.inr BEq.rfl
  rcases hcases with hroot | hdir
  · -- the root is not below the directory
    rw [PathBuf.startsWith, PathBuf.beq_iff.1 (BEq.trans (BEq.symm hkp) hroot)] at hpo
    exact absurd hpo (by decide)
  · exact BEq.trans (BEq.symm hkp) hdir

/-- A directory with a file: the file keeps its old path. -/
theorem rename_leaves_child :
    ((dirFs true).rename ⟨ascii "/d"⟩ ⟨ascii "/e"⟩).1 = .ok .unit ∧
      Stored (dirFs true) ⟨ascii "/d/x"⟩ ∧
      Stored ((dirFs true).rename ⟨ascii "/d"⟩ ⟨ascii "/e"⟩).2 ⟨ascii "/d/x"⟩ ∧
      ¬ Stored ((dirFs true).rename ⟨ascii "/d"⟩ ⟨ascii "/e"⟩).2 ⟨ascii "/e/x"⟩ ∧
      ¬ MovesSubtree (dirFs true) ((dirFs true).rename ⟨ascii "/d"⟩ ⟨ascii "/e"⟩).2
        ⟨ascii "/d"⟩ ⟨ascii "/e"⟩ := by
  have hstays : Stored ((dirFs true).rename ⟨ascii "/d"⟩ ⟨ascii "/e"⟩).2 ⟨ascii "/d/x"⟩ := by decide
  refine ⟨rfl, by decide, hstays, by decide, fun h => h.gone ⟨ascii "/d/x"⟩ (by decide) hstays⟩

end Racfs.MemFs
