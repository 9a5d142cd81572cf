/-
# Failed operations of the in-memory filesystem

An operation that fails should leave the tables as they were.  The operations that check
before they change anything do; two take an entry out of the table first.  `remove` does not
put it back when it finds that the directory is not empty.  `rename` does put it back when the
new path is in use, but under the path it was called with: the table keeps the text of a path,
so a path that was stored in another spelling comes back respelled.  These are the only
exceptions (`failed_same_iff`).
-/
import Racfs.MemFs.Tree

namespace Racfs.MemFs

open MemFS

/-- Two states with the same entries in both tables, the texts of the paths included. -/
def SameTables (fs fs' : MemFS) : Prop :=
  fs.files.entries.Perm fs'.files.entries ∧ fs.xattrs.entries.Perm fs'.xattrs.entries

@[refl] lemma SameTables.refl (fs : MemFS) : SameTables fs fs :=
  ⟨List.Perm.refl _, List.Perm.refl _⟩

/-- The failures that change the file table: the removal of a directory that is not empty, and
the rename of a path that is stored in another spelling to a path in use. -/
def FailsDirty (fs : MemFS) : Op PathBuf → Prop
  | .remove p =>
    IsDir fs p ∧ ∃ q, Stored fs q ∧ (q == p) = false ∧ q.startsWith p = true
  | .rename o n =>
    (∃ k ∈ fs.files.keys, (k == o) = true ∧ k ≠ o) ∧ Stored fs n ∧ (o == n) = false
  | _ => False

variable {fs : MemFS}

/-- A call that fails only in the ways that leave the tables alone. -/
def FailsClean (fs : MemFS) (r : Outcome Reply × MemFS) : Prop := r.1.isErr = true → r.2 = fs

lemma FailsClean.same {r : Outcome Reply × MemFS} (h : FailsClean fs r) (herr : r.1.isErr = true) :
    SameTables fs r.2 := by
  rw [h herr]

lemma FailsClean.of_ok (a : Reply) (fs' : MemFS) : FailsClean fs (.ok a, fs') := by
  intro h
  cases h

lemma FailsClean.of_unchanged (x : Outcome Reply) : FailsClean fs (x, fs) := fun _ => rfl

lemma FailsClean.check {α : Type*} (x : Outcome α) {f : α → Outcome Reply × MemFS}
    (hf : ∀ a, FailsClean fs (f a)) : FailsClean fs (fs.check x f) := by
  cases x with
  | ok a => exact hf a
  | err e => exact .of_unchanged _
  | panic => exact .of_unchanged _

lemma failsClean_addEntry (p : PathBuf) (e : FileEntry) : FailsClean fs (fs.addEntry p e) := by
  unfold addEntry
  split
  · exact .of_unchanged _
  · exact .of_ok _ _

lemma failsClean_updateEntry (p : PathBuf) (f : FileEntry → Outcome (Reply × FileEntry)) :
    FailsClean fs (fs.updateEntry p f) :=
  .check _ fun _ => .check _ fun _ => .of_ok _ _

/-! ### The two exceptions -/

lemma startsWith_congr {p q base : PathBuf} (h : (p == q) = true) :
    p.startsWith base = q.startsWith base := by
  rw [PathBuf.startsWith, PathBuf.startsWith, PathBuf.beq_iff.1 h]

/-- The test of `remove` for an empty directory. -/
lemma hasChildren_iff {p : PathBuf} :
    ((fs.files.erase p).keys.any fun q => q != p && q.startsWith p) = true ↔
      ∃ q, Stored fs q ∧ (q == p) = false ∧ q.startsWith p = true := by
  simp only [List.any_eq_true, Bool.and_eq_true, bne, Bool.not_eq_true', AssocMap.keys,
    List.mem_map]
  constructor
  · rintro ⟨q, ⟨⟨k, e⟩, hmem, rfl⟩, hne, hstarts⟩
    refine ⟨k, AssocMap.contains_iff.2 ⟨e, ?_⟩, hne, hstarts⟩
    exact AssocMap.get?_of_mem (List.mem_of_mem_filter hmem)
  · rintro ⟨q, hq, hne, hstarts⟩
    obtain ⟨e, he⟩ := AssocMap.contains_iff.1 hq
    obtain ⟨k, hk, hkq⟩ := AssocMap.mem_of_get? he
    have hkp : (k == p) = false := by rw [BEq.congr_left hkq, hne]
    refine ⟨k, ⟨(k, e), ?_, rfl⟩, hkp, by rw [startsWith_congr hkq, hstarts]⟩
    simp [AssocMap.erase, AssocMap.retain, hk, hkp]

lemma remove_same_iff (p : PathBuf) :
    ((fs.remove p).1.isErr = true → SameTables fs (fs.remove p).2) ↔
      ¬ FailsDirty fs (.remove p) := by
  rw [FailsDirty, ← hasChildren_iff]
  cases hget : fs.files.get? p with
  | none => simp [remove, IsDir, hget, SameTables.refl]
  | some e =>
    by_cases hfull : e.metadata.isDirectory = true ∧
        ((fs.files.erase p).keys.any fun q => q != p && q.startsWith p) = true
    · have hdirty : IsDir fs p := ⟨e, hget, hfull.1⟩
      have hrem : fs.remove p =
          (.err .DirectoryNotEmpty, { fs with files := fs.files.erase p }) := by
        simp only [remove, hget, if_pos hfull]
      simp only [hrem, hdirty, hfull.2, and_self, not_true_eq_false, iff_false]
      intro hsame
      obtain ⟨k, hk, hkp⟩ := AssocMap.mem_of_get? hget
      exact AssocMap.not_mem_erase hkp ((hsame rfl).1.mem_iff.1 hk)
    · have hclean : ¬ (IsDir fs p ∧
          ((fs.files.erase p).keys.any fun q => q != p && q.startsWith p) = true) := by
        rintro ⟨⟨e', he', hdir⟩, hany⟩
        rw [hget, Option.some.injEq] at he'
        exact hfull ⟨he' ▸ hdir, hany⟩
      have hok : (fs.remove p).1 = .ok .unit := by
        simp only [remove, hget, if_neg hfull]
      simp only [hok, hclean, not_false_eq_true, iff_true]
      intro herr
      cases herr

lemma contains_erase_iff {o n : PathBuf} :
    (fs.files.erase o).contains n = true ↔ Stored fs n ∧ (o == n) = false := by
  rw [AssocMap.contains, AssocMap.get?_erase, Stored, AssocMap.contains]
  by_cases h : (o == n) = true <;> simp [h]

lemma rename_same_iff (o n : PathBuf) :
    ((fs.rename o n).1.isErr = true → SameTables fs (fs.rename o n).2) ↔
      ¬ FailsDirty fs (.rename o n) := by
  rw [FailsDirty, ← contains_erase_iff]
  cases hget : fs.files.get? o with
  | none =>
    have hno : ¬ ∃ k ∈ fs.files.keys, (k == o) = true ∧ k ≠ o := by
      rintro ⟨k, hk, hko, -⟩
      obtain ⟨⟨k', e⟩, hmem, rfl⟩ := List.mem_map.1 hk
      have hsome := AssocMap.get?_of_mem hmem
      rw [AssocMap.get?_congr _ hko, hget] at hsome
      cases hsome
    simp [rename, hget, hno, SameTables.refl]
  | some e =>
    obtain ⟨k, hk, hko⟩ := AssocMap.mem_of_get? hget
    -- the spelling in the table is that of this entry
    have hspelling : (∃ k' ∈ fs.files.keys, (k' == o) = true ∧ k' ≠ o) ↔ k ≠ o := by
      constructor
      · rintro ⟨k', hk', hko', hne⟩
        obtain ⟨⟨k'', e'⟩, hmem, rfl⟩ := List.mem_map.1 hk'
        have h1 := AssocMap.filter_beq_of_mem fs.files.distinct hk hko
        have h2 := AssocMap.filter_beq_of_mem fs.files.distinct hmem hko'
        rw [h1, List.cons.injEq, Prod.mk.injEq] at h2
        rw [h2.1.1]
        exact hne
      · exact fun hne => ⟨k, List.mem_map.2 ⟨(k, e), hk, rfl⟩, hko, hne⟩
    by_cases hc : (fs.files.erase o).contains n = true
    · have hren : fs.rename o n = (.err (.AlreadyExists n),
          { fs with files := (fs.files.erase o).insert o e }) := by
        simp only [rename, hget, if_pos hc]
      simp only [hren, hc, and_true, hspelling, not_not, SameTables,
        AssocMap.perm_insert_erase_iff hk hko]
      exact ⟨fun h => (h rfl).1, fun h _ => ⟨h, List.Perm.refl _⟩⟩
    · have hok : (fs.rename o n).1 = .ok .unit := by
        simp only [rename, hget, if_neg hc]
      simp only [hok, hc, Bool.false_eq_true, and_false, not_false_eq_true, iff_true]
      intro herr
      cases herr

/-! ### All operations -/

lemma failsClean_xattr (p : PathBuf) (name value : Bytes) :
    FailsClean fs (fs.setXattr p name value) ∧ FailsClean fs (fs.removeXattr p name) := by
  refine ⟨.check _ fun _ => .of_ok _ _, .check _ fun _ => ?_⟩
  split
  · exact .of_unchanged _
  · split
    · exact .of_ok _ _
    · exact .of_unchanged _

lemma failsClean_touch (p : PathBuf) (now : DateTime) : FailsClean fs (fs.touch p now) := by
  rw [touch]
  split <;> exact .of_ok _ _

lemma failsClean_removeAll (p : PathBuf) : FailsClean fs (fs.removeAll p) := by
  rw [removeAll]
  split
  · exact .of_ok _ _
  · exact .of_unchanged _

/-- For every state and every operation: that an error leaves both tables as they were is true
except for the removal of a directory that is not empty, and the rename of a respelled path to
a path in use. -/
theorem failed_same_iff (fs : MemFS) (now : DateTime) (op : Op PathBuf) :
    ((fs.apply now op).1.isErr = true → SameTables fs (fs.apply now op).2) ↔
      ¬ FailsDirty fs op := by
  cases op with
  | remove p => exact remove_same_iff p
  | rename o n => exact rename_same_iff o n
  | create p => exact iff_of_true (FailsClean.check _ fun _ => failsClean_addEntry _ _).same id
  | symlink target p =>
    exact iff_of_true (FailsClean.check _ fun _ => failsClean_addEntry _ _).same id
  | mkdir p perm => exact iff_of_true (FailsClean.check _ fun _ => failsClean_addEntry _ _).same id
  | write p data offset flags => exact iff_of_true (failsClean_updateEntry _ _).same id
  | truncate p size => exact iff_of_true (failsClean_updateEntry _ _).same id
  | chmod p mode => exact iff_of_true (failsClean_updateEntry _ _).same id
  | touch p => exact iff_of_true (failsClean_touch p now).same id
  | removeAll p => exact iff_of_true (failsClean_removeAll p).same id
  | setXattr p name value => exact iff_of_true (failsClean_xattr p name value).1.same id
  | removeXattr p name => exact iff_of_true (failsClean_xattr p name []).2.same id
  | read p offset size => exact iff_of_true (FailsClean.of_unchanged _).same id
  | stat p => exact iff_of_true (FailsClean.of_unchanged _).same id
  | readDir p => exact iff_of_true (FailsClean.of_unchanged _).same id
  | readlink p => exact iff_of_true (FailsClean.of_unchanged _).same id
  | getXattr p name => exact iff_of_true (FailsClean.of_unchanged _).same id
  | listXattr p => exact iff_of_true (FailsClean.of_unchanged _).same id

/-- A directory with a file in it: its removal fails and takes it out of the table. -/
theorem not_failed_same_remove :
    ∃ fs, run step (MemFS.new 0)
        [(1, .mkdir ⟨[ascii "d"], by decide⟩ 0o755),
          (2, .create ⟨[ascii "d", ascii "f"], by decide⟩)] = some fs ∧
      (fs.apply 3 (.remove ⟨ascii "/d"⟩)).1.isErr = true ∧
      ¬ SameTables fs (fs.apply 3 (.remove ⟨ascii "/d"⟩)).2 := by
  refine ⟨_, rfl, rfl, fun hsame => ?_⟩
  have hlen := hsame.1.length_eq
  revert hlen
  decide

end Racfs.MemFs
