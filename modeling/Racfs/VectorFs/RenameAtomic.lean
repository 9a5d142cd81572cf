/-
# Renames that fail

A rename of a document reads its row, deletes the row of the target if there is one, deletes its
own row and then inserts it under the new path.  Each of these calls to the database can fail, and
the rename returns at the first one that does, without undoing the ones before.  So a failed rename
has changed nothing exactly if the call that failed does not come after a successful delete
(`allOrNothing_iff`).
-/
import Racfs.VectorFs.Model

namespace Racfs.VectorFs

open VectorFS

variable {V : Type*}

/-- The row that is read for a path. -/
def VectorFS.row (fs : VectorFS V) (path : PathBuf) : Option (Document V) :=
  fs.table.get? (rowKey path.toStringLossy)

/-- The row of a path, its metadata and its attributes are the same. -/
structure SameDocument (fs fs' : VectorFS V) (path : PathBuf) : Prop where
  row : fs'.row path = fs.row path
  metadata : fs'.metadata.get? path = fs.metadata.get? path
  xattrs : fs'.xattrs.get? path = fs.xattrs.get? path

/-- A rename that returns an error has changed neither of the two documents. -/
def AllOrNothing (faults : Faults) (fs : VectorFS V) (oldPath newPath : PathBuf)
    (now : DateTime) : Prop :=
  ∀ e, (fs.rename faults oldPath newPath now).1 = some (.err e) →
    SameDocument fs (fs.rename faults oldPath newPath now).2 oldPath ∧
    SameDocument fs (fs.rename faults oldPath newPath now).2 newPath

/-- A rename that gets to the first delete. -/
structure GetsToDelete (faults : Faults) (fs : VectorFS V) (oldPath newPath : PathBuf) : Prop where
  documents : isDocument oldPath = true ∧ isDocument newPath = true
  differ : (oldPath == newPath) = false
  reads : faults .get = none ∧ faults .getNew = none
  found : (fs.row oldPath).isSome

/-- A call fails after a delete has succeeded: the second delete, or the insertion. -/
def FailsAfterDelete (faults : Faults) (fs : VectorFS V) (oldPath newPath : PathBuf) : Prop :=
  GetsToDelete faults fs oldPath newPath ∧
    ((fs.row newPath).isSome → faults .deleteNew = none) ∧
    ((fs.row newPath).isSome ∧ faults (.delete 0) ≠ none ∨
      faults (.delete 0) = none ∧ faults .persist ≠ none)

section Calls

variable {faults : Faults} {call : DbCall} (fs : VectorFS V) (path : PathBuf)

lemma getDocument_of_none (h : faults call = none) :
    fs.getDocument faults call path = .ok (fs.row path) := by
  rw [getDocument, db, h]
  rfl

lemma getDocument_of_ne_none (h : faults call ≠ none) :
    ∃ e, fs.getDocument faults call path = .err e := by
  obtain ⟨message, hmessage⟩ := Option.ne_none_iff_exists'.mp h
  rw [getDocument, db, hmessage]
  exact ⟨_, rfl⟩

lemma deleteFromDb_of_none (h : faults call = none) :
    fs.deleteFromDb faults call path =
      (.ok (), { fs with table := fs.table.erase (rowKey path.toStringLossy) }) := by
  rw [deleteFromDb, db, h]

lemma deleteFromDb_of_ne_none (h : faults call ≠ none) :
    ∃ e, fs.deleteFromDb faults call path = (.err e, fs) := by
  obtain ⟨message, hmessage⟩ := Option.ne_none_iff_exists'.mp h
  rw [deleteFromDb, db, hmessage]
  exact ⟨_, rfl⟩

lemma persistDocument_of_none (h : faults .persist = none) (d : Document V) :
    fs.persistDocument faults path d =
      (.ok (), { fs with table := fs.table.insert path.toStringLossy d }) := by
  rw [persistDocument, db, h]

lemma persistDocument_of_ne_none (h : faults .persist ≠ none) (d : Document V) :
    ∃ e, fs.persistDocument faults path d = (.err e, fs) := by
  obtain ⟨message, hmessage⟩ := Option.ne_none_iff_exists'.mp h
  rw [persistDocument, db, hmessage]
  exact ⟨_, rfl⟩

end Calls

/-! ### The row -/

section Row

variable {fs : VectorFS V} {faults : Faults} {oldPath newPath : PathBuf}

/-- The delete of the target's row, if there is one. -/
def deleteTarget (faults : Faults) (fs : VectorFS V) (newPath : PathBuf) :
    Outcome Unit × VectorFS V :=
  if (fs.row newPath).isSome then fs.deleteFromDb faults .deleteNew newPath else (.ok (), fs)

/-- What comes after the last call to the database. -/
def moveMetadata (d : Document V) (oldPath newPath : PathBuf) (now : DateTime)
    (fs : VectorFS V) : VectorFS V :=
  let time := some (fromTimestampMillis (timestampMillis now))
  let m : FileMetadata :=
    { FileMetadata.file newPath d.data.length.toUInt64 now with
      mode := d.mode
      created := some (fromTimestampMillis d.createdAt)
      modified := time
      accessed := time }
  { fs with metadata := (fs.metadata.erase oldPath).insert newPath m }

/-- What is left to do after both reads. -/
lemma renameRow_eq {d : Document V} (hreads : faults .get = none ∧ faults .getNew = none)
    (hfound : fs.row oldPath = some d) (now : DateTime) :
    fs.renameRow faults oldPath newPath now =
      andThen (deleteTarget faults fs newPath) fun _ fs =>
        andThen (fs.deleteFromDb faults (.delete 0) oldPath) fun _ fs =>
          andThen (fs.persistDocument faults newPath
            ⟨d.data, d.vector, d.mode, d.createdAt, timestampMillis now⟩) fun _ fs =>
              (.ok (), moveMetadata d oldPath newPath now fs) := by
  rw [renameRow, getDocument_of_none _ _ hreads.1, hfound]
  simp only [andThen, getDocument_of_none _ _ hreads.2]
  rfl

/-- The row of a path is gone once it has been deleted. -/
lemma row_erase_self (fs : VectorFS V) (path : PathBuf) :
    ({ fs with table := fs.table.erase (rowKey path.toStringLossy) } : VectorFS V).row path =
      none := by
  rw [row, AssocMap.get?_erase, if_pos (beq_self_eq_true _)]

/-- The delete of the target has failed, or its row is not there any more. -/
lemma deleteTarget_cases (faults : Faults) (fs : VectorFS V) (newPath : PathBuf) :
    ((fs.row newPath).isSome ∧ faults .deleteNew ≠ none ∧
      ∃ e, deleteTarget faults fs newPath = (.err e, fs)) ∨
    (((fs.row newPath).isSome → faults .deleteNew = none) ∧
      ∃ fs', deleteTarget faults fs newPath = (.ok (), fs') ∧ fs'.row newPath = none ∧
        (fs.row newPath = none → fs' = fs)) := by
  rw [deleteTarget]
  cases hrow : fs.row newPath with
  | none => exact Or.inr ⟨nofun, fs, rfl, hrow, fun _ => rfl⟩
  | some d =>
    by_cases hfault : faults .deleteNew = none
    · refine Or.inr ⟨fun _ => hfault, _, ?_, row_erase_self fs newPath, nofun⟩
      exact deleteFromDb_of_none fs newPath hfault
    · exact Or.inl ⟨rfl, hfault, deleteFromDb_of_ne_none fs newPath hfault⟩

/-- If a call fails after a delete, a row that was there is gone. -/
lemma renameRow_of_failsAfterDelete (h : FailsAfterDelete faults fs oldPath newPath)
    (now : DateTime) :
    ∃ e fs', fs.renameRow faults oldPath newPath now = (.err e, fs') ∧
      (fs'.row oldPath ≠ fs.row oldPath ∨ fs'.row newPath ≠ fs.row newPath) := by
  obtain ⟨hgets, htarget, hfails⟩ := h
  obtain ⟨d, hd⟩ := Option.isSome_iff_exists.mp hgets.found
  have heq := @renameRow_eq _ fs faults oldPath newPath d hgets.reads hd now
  rcases deleteTarget_cases faults fs newPath with ⟨hsome, hne, -⟩ | ⟨-, fs', hdelete, hgone, hsame⟩
  · exact absurd (htarget hsome) hne
  · rw [heq, hdelete]
    simp only [andThen]
    rcases hfails with ⟨hsome, hfault⟩ | ⟨hnone, hfault⟩
    · obtain ⟨e, he⟩ := deleteFromDb_of_ne_none fs' oldPath hfault
      refine ⟨e, fs', by rw [he], Or.inr fun hrow => ?_⟩
      rw [← hrow, hgone] at hsome
      exact absurd hsome nofun
    · rw [deleteFromDb_of_none _ _ hnone]
      simp only
      obtain ⟨e, he⟩ := persistDocument_of_ne_none
        { fs' with table := fs'.table.erase (rowKey oldPath.toStringLossy) } newPath hfault
        ⟨d.data, d.vector, d.mode, d.createdAt, timestampMillis now⟩
      refine ⟨e, _, by rw [he], Or.inl ?_⟩
      rw [row_erase_self, hd]
      exact nofun

/-- Otherwise a rename that fails has not changed anything. -/
lemma renameRow_of_not_failsAfterDelete
    (hdocuments : isDocument oldPath = true ∧ isDocument newPath = true)
    (hdiffer : (oldPath == newPath) = false)
    (h : ¬ FailsAfterDelete faults fs oldPath newPath) (now : DateTime) {e : FSError}
    (herr : (fs.renameRow faults oldPath newPath now).1 = .err e) :
    (fs.renameRow faults oldPath newPath now).2 = fs := by
  by_cases hget : faults .get = none
  swap
  · obtain ⟨e', he⟩ := getDocument_of_ne_none fs oldPath hget
    rw [renameRow, he]
    rfl
  cases hfound : fs.row oldPath with
  | none =>
    rw [renameRow, getDocument_of_none _ _ hget, hfound]
    rfl
  | some d =>
    by_cases hgetNew : faults .getNew = none
    swap
    · obtain ⟨e', he⟩ := getDocument_of_ne_none fs newPath hgetNew
      rw [renameRow, getDocument_of_none _ _ hget, hfound]
      simp only [andThen, he]
    have hgets : GetsToDelete faults fs oldPath newPath :=
      ⟨hdocuments, hdiffer, ⟨hget, hgetNew⟩, by rw [hfound]; rfl⟩
    rw [renameRow_eq hgets.reads hfound] at herr ⊢
    rcases deleteTarget_cases faults fs newPath with
      ⟨-, -, e', he⟩ | ⟨htarget, fs', hdelete, -, hsame⟩
    · rw [he]
      rfl
    · rw [hdelete] at herr ⊢
      simp only [andThen] at herr ⊢
      by_cases hfault : faults (.delete 0) = none
      · -- the insertion does not fail
        have hpersist : faults .persist = none := by
          by_contra hne
          exact h ⟨hgets, htarget, Or.inr ⟨hfault, hne⟩⟩
        rw [deleteFromDb_of_none _ _ hfault] at herr
        simp only [persistDocument_of_none _ _ hpersist] at herr
        cases herr
      · -- there was no row to be deleted before
        have hnone : fs.row newPath = none := by
          by_contra hne
          exact h ⟨hgets, htarget, Or.inl ⟨Option.isSome_iff_ne_none.mpr hne, hfault⟩⟩
        obtain ⟨e', he⟩ := deleteFromDb_of_ne_none fs' oldPath hfault
        rw [he, hsame hnone]

end Row

/-! ### The rename -/

variable {fs : VectorFS V} {faults : Faults} {oldPath newPath : PathBuf}

/-- A text begins with one of two texts at most, if neither of these begins with the other. -/
lemma startsWith_eq_false {s : Bytes} {a b : String} (h : startsWith s a = true)
    (hab : ¬ ascii b <+: ascii a ∧ ¬ ascii a <+: ascii b) : startsWith s b = false := by
  rw [startsWith, List.isPrefixOf_iff_prefix] at h
  rw [Bool.eq_false_iff, startsWith, Ne, List.isPrefixOf_iff_prefix]
  intro h'
  rcases List.prefix_or_prefix_of_prefix h h' with hle | hle
  · exact hab.2 hle
  · exact hab.1 hle

/-- The path of a document is none of the index. -/
lemma startsWith_index_of_isDocument {path : PathBuf} (h : isDocument path = true) :
    startsWith path.toStringLossy "/index/" = false :=
  startsWith_eq_false h (by decide)

lemma renameSearch_cases (fs : VectorFS V) (oldPath newPath : PathBuf) :
    (∃ e, fs.renameSearch oldPath newPath = (.err e, fs)) ∨
      ∃ fs', fs.renameSearch oldPath newPath = (.ok .unit, fs') := by
  rw [renameSearch]
  split
  · exact Or.inl ⟨_, rfl⟩
  · simp only
    -- the separator at the end of the prefix does not matter
    split_ifs
    · exact Or.inl ⟨_, rfl⟩
    · exact Or.inr ⟨_, rfl⟩
    · exact Or.inl ⟨_, rfl⟩
    · exact Or.inr ⟨_, rfl⟩

/-- A rename that fails, other than after a delete, leaves everything as it was. -/
lemma rename_of_not_failsAfterDelete (h : ¬ FailsAfterDelete faults fs oldPath newPath)
    {now : DateTime} {e : FSError}
    (herr : (fs.rename faults oldPath newPath now).1 = some (.err e)) :
    (fs.rename faults oldPath newPath now).2 = fs := by
  rw [VectorFS.rename] at herr ⊢
  simp only at herr ⊢
  split_ifs at herr ⊢ with hindex hdocuments hsame hsearch hsame
  · rfl
  · rfl
  · have hrow := @renameRow_of_not_failsAfterDelete _ fs faults oldPath newPath hdocuments
      (Bool.eq_false_iff.mpr hsame) h now
    rcases hresult : fs.renameRow faults oldPath newPath now with ⟨_ | e' | _, fs'⟩
    · simp only [hresult] at herr
      split_ifs at herr
      nomatch herr
    · rw [hresult] at hrow
      exact hrow rfl
    · simp only [hresult] at herr
      nomatch herr
  · rfl
  · rcases renameSearch_cases fs oldPath newPath with ⟨e', he⟩ | ⟨fs', he⟩
    · rw [he]
    · rw [he] at herr
      nomatch herr
  · rfl

lemma rename_of_failsAfterDelete (h : FailsAfterDelete faults fs oldPath newPath)
    (now : DateTime) :
    ∃ e fs', fs.rename faults oldPath newPath now = (some (.err e), fs') ∧
      (fs'.row oldPath ≠ fs.row oldPath ∨ fs'.row newPath ≠ fs.row newPath) := by
  obtain ⟨e, fs', hrow, hlost⟩ := renameRow_of_failsAfterDelete h now
  obtain ⟨hold, hnew⟩ := h.1.documents
  refine ⟨e, fs', ?_, hlost⟩
  rw [VectorFS.rename]
  simp only
  rw [startsWith_index_of_isDocument hold, startsWith_index_of_isDocument hnew,
    if_neg (by simp), if_pos ⟨hold, hnew⟩, if_neg (Bool.eq_false_iff.mp h.1.differ), hrow]

lemma not_allOrNothing (h : FailsAfterDelete faults fs oldPath newPath) (now : DateTime) :
    ¬ AllOrNothing faults fs oldPath newPath now := by
  intro hall
  obtain ⟨e, fs', hrename, hlost⟩ := rename_of_failsAfterDelete h now
  obtain ⟨hold, hnew⟩ := hall e (by rw [hrename])
  rw [hrename] at hold hnew
  exact hlost.elim (fun hne => hne hold.row) fun hne => hne hnew.row

/-- **Renames.**  A rename that returns an error leaves the rows of both documents, their metadata
and their attributes as they were, if and only if it is not so that a call to the database fails
after a delete has succeeded. -/
theorem allOrNothing_iff (faults : Faults) (fs : VectorFS V) (oldPath newPath : PathBuf)
    (now : DateTime) :
    AllOrNothing faults fs oldPath newPath now ↔ ¬ FailsAfterDelete faults fs oldPath newPath := by
  constructor
  · exact fun hall h => not_allOrNothing h now hall
  · intro h e herr
    rw [rename_of_not_failsAfterDelete h herr]
    exact ⟨⟨rfl, rfl, rfl⟩, ⟨rfl, rfl, rfl⟩⟩

/-- A database that fails to insert. -/
def full : Faults
  | .persist => some "full"
  | _ => none

/-- One document. -/
def oneDocument : VectorFS Bytes :=
  { (new 1 0 : VectorFS Bytes) with
    table := (∅ : AssocMap Bytes (Document Bytes)).insert (ascii "/documents/a")
      ⟨ascii "x", [], 0o644, 0, 0⟩ }

/-- The insertion fails, and the document is gone. -/
theorem allOrNothing_full :
    (oneDocument.row ⟨ascii "/documents/a"⟩).isSome ∧
    (oneDocument.rename full ⟨ascii "/documents/a"⟩ ⟨ascii "/documents/b"⟩ 0).1 =
      some (.err (.Io "LanceDB merge_insert: full")) ∧
    (oneDocument.rename full ⟨ascii "/documents/a"⟩ ⟨ascii "/documents/b"⟩ 0).2.row
      ⟨ascii "/documents/a"⟩ = none ∧
    ¬ AllOrNothing full oneDocument ⟨ascii "/documents/a"⟩ ⟨ascii "/documents/b"⟩ 0 := by
  have hold : rowKey (PathBuf.mk (ascii "/documents/a")).toStringLossy = ascii "/documents/a" := by
    decide
  have hnew : rowKey (PathBuf.mk (ascii "/documents/b")).toStringLossy = ascii "/documents/b" := by
    decide
  have hfound : oneDocument.row ⟨ascii "/documents/a"⟩ = some ⟨ascii "x", [], 0o644, 0, 0⟩ := by
    rw [row, hold]
    exact AssocMap.get?_insert_self _ _ _
  have hnone : oneDocument.row ⟨ascii "/documents/b"⟩ = none := by
    rw [row, hnew]
    simp only [oneDocument]
    rw [AssocMap.get?_insert, if_neg (by decide), AssocMap.get?_empty]
  have hgets : GetsToDelete full oneDocument ⟨ascii "/documents/a"⟩ ⟨ascii "/documents/b"⟩ :=
    ⟨by decide, by decide, ⟨rfl, rfl⟩, by rw [hfound]; rfl⟩
  have hfails : FailsAfterDelete full oneDocument ⟨ascii "/documents/a"⟩
      ⟨ascii "/documents/b"⟩ := by
    refine ⟨hgets, fun _ => rfl, Or.inr ⟨rfl, ?_⟩⟩
    rw [full]
    exact Option.some_ne_none _
  have hdelete : full (.delete 0) = none := rfl
  have hrename : oneDocument.rename full ⟨ascii "/documents/a"⟩ ⟨ascii "/documents/b"⟩ 0 =
      (some (.err (.Io "LanceDB merge_insert: full")),
        { oneDocument with
          table := oneDocument.table.erase
            (rowKey (PathBuf.mk (ascii "/documents/a")).toStringLossy) }) := by
    rw [VectorFS.rename]
    simp only
    rw [if_neg (by decide), if_pos (by decide), if_neg (by decide),
      renameRow_eq ⟨rfl, rfl⟩ hfound, deleteTarget, hnone, if_neg (by simp)]
    simp only [andThen, deleteFromDb_of_none _ _ hdelete]
    rfl
  rw [hrename]
  exact ⟨by rw [hfound]; rfl, rfl, row_erase_self _ _, not_allOrNothing hfails 0⟩

end Racfs.VectorFs
