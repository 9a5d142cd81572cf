/-
# Renames one row at a time

A rename of a directory moves the rows below it by one statement each and returns at the first
that fails, without moving the earlier ones back.  So whatever the database does, an error leaves
the table alone exactly if none of these rows can be moved at all (`Stuck`).

If no statement fails, the rows that match the pattern for what is below the directory have the
first occurrence of its path replaced, wherever it is.  This moves exactly the subtree
(`MovesSubtree`) if it gives the rows of the subtree their new paths, and the other rows that
match do not contain the path (`MovesRight`).
-/
import Racfs.PgsFs.Model
import Racfs.SqlFs.Subtree

namespace Racfs.PgsFs

open PgsFS
open Like (below)
open SqlFs (AtOrUnder)

variable {db : Database} {fs : PgsFS} {oldText newText : Bytes}

/-! ### Statements -/

/-- A statement that moves a row fails and leaves the table alone, or it does what it says. -/
lemma movePath_cases (db : Database) (n : ℕ) (what : String) (fs : PgsFS) (text newText : Bytes) :
    (∃ e, fs.movePath db n what text newText = (.err e, fs)) ∨
      ∃ files, Sql.moveRow fs.fits fs.files text newText = .ok files ∧
        fs.movePath db n what text newText = (.ok (), { fs with files }) := by
  rw [movePath]
  cases db.fails n with
  | true => exact Or.inl ⟨_, rfl⟩
  | false =>
    rw [if_neg Bool.false_ne_true]
    cases hmove : Sql.moveRow fs.fits fs.files text newText with
    | error e => exact Or.inl ⟨_, rfl⟩
    | ok files => exact Or.inr ⟨files, rfl, rfl⟩

lemma movePath_of_fails {n : ℕ} (h : db.fails n = true) (what : String) (fs : PgsFS)
    (text newText : Bytes) : ∃ e, fs.movePath db n what text newText = (.err e, fs) :=
  ⟨_, if_pos h⟩

lemma movePath_of_moveRow {n : ℕ} (h : db.fails n = false) {text newText : Bytes}
    {files : AssocMap Bytes FileRow} (hmove : Sql.moveRow fs.fits fs.files text newText = .ok files)
    (what : String) : fs.movePath db n what text newText = (.ok (), { fs with files }) := by
  rw [movePath, h, if_neg Bool.false_ne_true, hmove]

/-- If all rows have been moved, the table is the one after these statements. -/
lemma moveRows_of_moveChildren {rows : List Bytes} : ∀ {n : ℕ} {fs fs' : PgsFS},
    moveChildren db oldText newText n rows fs = (.ok (), fs') →
      fs'.fits = fs.fits ∧
        Sql.moveRows fs.fits fs.files rows (replaceFirst oldText newText) = .ok fs'.files := by
  induction rows with
  | nil =>
    intro n fs fs' h
    obtain rfl := (Prod.mk.inj h).2
    exact ⟨rfl, rfl⟩
  | cons childPath rows ih =>
    intro n fs fs' h
    rw [moveChildren] at h
    rcases movePath_cases db n "move child" fs childPath (replaceFirst oldText newText childPath)
      with ⟨e, herr⟩ | ⟨files, hmove, hok⟩
    · simp [herr] at h
    · simp only [hok] at h
      obtain ⟨hfits, hrest⟩ := ih h
      refine ⟨hfits, ?_⟩
      rw [Sql.moveRows, List.foldlM_cons, hmove]
      exact hrest

/-- If each of the statements does nothing or fails, nothing happens. -/
lemma moveChildren_snd {rows : List Bytes} (h : ∀ childPath ∈ rows, ∀ files,
      Sql.moveRow fs.fits fs.files childPath (replaceFirst oldText newText childPath) = .ok files →
        files = fs.files) (n : ℕ) :
    (moveChildren db oldText newText n rows fs).2 = fs := by
  induction rows generalizing n with
  | nil => rfl
  | cons childPath rows ih =>
    rw [moveChildren]
    rcases movePath_cases db n "move child" fs childPath (replaceFirst oldText newText childPath)
      with ⟨e, herr⟩ | ⟨files, hmove, hok⟩
    · simp only [herr]
    · obtain rfl := h childPath List.mem_cons_self files hmove
      simp only [hok]
      exact ih (fun c hc => h c (List.mem_cons_of_mem _ hc)) (n + 1)

/-! ### The call -/

/-- The statements that move a directory. -/
def moveDirectory (db : Database) (fs : PgsFS) (oldText newText : Bytes) :
    Outcome Unit × PgsFS :=
  let rows := db.order (fs.files.keys.filter (below oldText))
  match moveChildren db oldText newText 4 rows fs with
  | (.ok (), fs) => fs.movePath db (4 + rows.length) "move directory" oldText newText
  | r => r

section Call

variable {o n : PathBuf} {row : FileRow}

lemma check_query {A : Type*} (fs : PgsFS) (db : Database) (n : ℕ) (what : String) (answer : A)
    (f : A → Outcome Unit × PgsFS) : fs.check (query db n what answer) f =
      if db.fails n then (failed db n what, fs) else f answer := by
  rw [query]
  split_ifs <;> rfl

lemma isDir_eq (hrow : fs.files.get? oldText = some row) (db : Database) (n : ℕ) :
    fs.isDir db n oldText = query db n "query is_dir" row.isDir := by
  rw [isDir, query, query, hrow]
  split_ifs <;> rfl

lemma children_eq (db : Database) (n : ℕ) (fs : PgsFS) (text : Bytes) :
    fs.children db n text =
      query db n "query children" (db.order (fs.files.keys.filter (below text))) := by
  obtain ⟨ps, hps⟩ := Like.exists_parts_below (Utf8.chars text)
  rw [children, Like.chars_below, hps]

/-- The statements of a call for a directory. -/
lemma rename_eq (hold : pathToStr o = .ok oldText) (hrow : fs.files.get? oldText = some row)
    (hdir : row.isDir = true) (hnew : pathToStr n = .ok newText) (db : Database) :
    fs.rename db o n =
      if db.fails 0 then (failed db 0 "query exists", fs)
      else if db.fails 1 then (failed db 1 "query exists", fs)
      else if fs.files.contains newText then (.err (.AlreadyExists n), fs)
      else if db.fails 2 then (failed db 2 "query is_dir", fs)
      else if db.fails 3 then (failed db 3 "query children", fs)
      else moveDirectory db fs oldText newText := by
  have hstored : fs.files.contains oldText = true := AssocMap.contains_iff.2 ⟨row, hrow⟩
  rw [rename, hold, hnew, check, check, exists?, check_query, hstored]
  simp only [exists?, check_query, isDir_eq hrow, children_eq, hdir, Bool.not_true,
    Bool.false_eq_true, if_false, if_true]
  rfl

/-- The call returns an error before it has changed anything, or it comes down to moving the
directory. -/
lemma rename_cases (hold : pathToStr o = .ok oldText) (hrow : fs.files.get? oldText = some row)
    (hdir : row.isDir = true) (db : Database) :
    (∃ e, fs.rename db o n = (.err e, fs)) ∨
      ∃ newText, pathToStr n = .ok newText ∧ fs.files.contains newText = false ∧
        fs.rename db o n = moveDirectory db fs oldText newText := by
  cases hnew : pathToStr n with
  | err e => exact Or.inl ⟨e, by rw [rename, hold, hnew]; rfl⟩
  | panic =>
    rw [pathToStr] at hnew
    split_ifs at hnew
  | ok newText =>
    rw [rename_eq hold hrow hdir hnew]
    split_ifs with h₀ h₁ hused h₂ h₃
    · exact Or.inl ⟨_, rfl⟩
    · exact Or.inl ⟨_, rfl⟩
    · exact Or.inl ⟨_, rfl⟩
    · exact Or.inl ⟨_, rfl⟩
    · exact Or.inl ⟨_, rfl⟩
    · exact Or.inr ⟨newText, rfl, by simpa using hused, rfl⟩

/-! ### Errors -/

/-- No row that would get another path can be moved: its new path is in use, or the database does
not take it. -/
def Stuck (fs : PgsFS) (oldText newText : Bytes) : Prop :=
  ∀ key row, fs.files.get? key = some row → below oldText key = true → oldText <:+: key →
    fs.files.contains (replaceFirst oldText newText key) = true ∨
      fs.fits (replaceFirst oldText newText key) row = false

/-- A database that returns one row first, and fails after it has been moved. -/
def failsAfter (key : Bytes) : Database where
  fails n := decide (5 ≤ n)
  message _ := ""
  order paths := if key ∈ paths then key :: paths.erase key else paths
  order_perm paths := by
    split_ifs with h
    · exact (List.perm_cons_erase h).symm
    · exact List.Perm.refl paths

lemma moveRow_of_stuck (hstuck : Stuck fs oldText newText) {key : Bytes}
    (hbelow : below oldText key = true) {files : AssocMap Bytes FileRow}
    (h : Sql.moveRow fs.fits fs.files key (replaceFirst oldText newText key) = .ok files) :
    files = fs.files := by
  rw [Sql.moveRow] at h
  split at h
  · exact (Except.ok.inj h).symm
  · next row hrow =>
    split_ifs at h with heq hfits hfree
    · exact (Except.ok.inj h).symm
    · -- the path would change, but it cannot
      have hoccurs : oldText <:+: key := by
        by_contra hnot
        exact heq (beq_iff_eq.2 (replaceFirst_eq_self hnot).symm)
      rcases hstuck key row hrow hbelow hoccurs with hused | htoo
      · rw [AssocMap.contains, hfree] at hused
        cases hused
      · exact absurd htoo hfits

lemma mem_order {db : Database} {fs : PgsFS} {key : Bytes} :
    key ∈ db.order (fs.files.keys.filter (below oldText)) ↔
      key ∈ fs.files.keys ∧ below oldText key = true := by
  rw [(db.order_perm _).mem_iff, List.mem_filter]

/-- If no row can be moved, an error means that nothing has happened. -/
lemma moveDirectory_of_stuck (hstuck : Stuck fs oldText newText)
    (herr : (moveDirectory db fs oldText newText).1.isErr = true) :
    (moveDirectory db fs oldText newText).2 = fs := by
  have hsame : (moveChildren db oldText newText 4
      (db.order (fs.files.keys.filter (below oldText))) fs).2 = fs :=
    moveChildren_snd (fun _ hkey _ hmove => moveRow_of_stuck hstuck (mem_order.1 hkey).2 hmove) 4
  rw [moveDirectory] at herr ⊢
  generalize db.order (fs.files.keys.filter (below oldText)) = rows at herr hsame ⊢
  cases hrun : moveChildren db oldText newText 4 rows fs with
  | mk r fs' =>
    rw [hrun] at hsame
    obtain rfl : fs' = fs := hsame
    cases r with
    | err e => rfl
    | panic => rfl
    | ok _ =>
      simp only [hrun] at herr ⊢
      rcases movePath_cases db (4 + rows.length) "move directory" fs' oldText newText
        with ⟨e, hfailed⟩ | ⟨files, -, hok⟩
      · rw [hfailed]
      · rw [hok] at herr
        cases herr

/-- A row that can be moved is moved by some database before the call fails. -/
lemma exists_moved_of_not_stuck (hnot : ¬ Stuck fs oldText newText) (hne : oldText ≠ newText) :
    ∃ key, (moveDirectory (failsAfter key) fs oldText newText).1.isErr = true ∧
      (moveDirectory (failsAfter key) fs oldText newText).2 ≠ fs := by
  simp only [Stuck, not_forall, not_or, Bool.not_eq_true, Bool.not_eq_false] at hnot
  obtain ⟨key, row, hrow, hbelow, hoccurs, hfree, hfits⟩ := hnot
  have hchanges : key ≠ replaceFirst oldText newText key :=
    fun heq => (replaceFirst_eq_self_iff hne).1 heq.symm hoccurs
  obtain ⟨files, hmove, hget, -⟩ := Sql.exists_moveRow fs.fits hfits hchanges hrow
    (AssocMap.contains_eq_false_iff.1 hfree)
  have hkey : key ∈ fs.files.keys.filter (below oldText) :=
    List.mem_filter.2 ⟨AssocMap.mem_keys.2 ⟨row, hrow⟩, hbelow⟩
  obtain ⟨rest, hrest⟩ : ∃ rest,
      (failsAfter key).order (fs.files.keys.filter (below oldText)) = key :: rest :=
    ⟨_, if_pos hkey⟩
  have hfirst : fs.movePath (failsAfter key) 4 "move child" key
      (replaceFirst oldText newText key) = (.ok (), { fs with files }) :=
    movePath_of_moveRow rfl hmove "move child"
  have hfails : (failsAfter key).fails 5 = true := rfl
  have hresult : ∃ e, moveDirectory (failsAfter key) fs oldText newText =
      (.err e, { fs with files }) := by
    rw [moveDirectory, hrest]
    -- the statement after the first one fails, whichever it is
    cases rest with
    | nil =>
      obtain ⟨e, hfailed⟩ := movePath_of_fails hfails "move directory" { fs with files } oldText
        newText
      exact ⟨e, by simp only [moveChildren, hfirst]; exact hfailed⟩
    | cons next rest =>
      obtain ⟨e, hfailed⟩ := movePath_of_fails hfails "move child" { fs with files } next
        (replaceFirst oldText newText next)
      exact ⟨e, by simp only [moveChildren, hfirst, hfailed]⟩
  obtain ⟨e, he⟩ := hresult
  refine ⟨key, by rw [he]; rfl, fun heq => ?_⟩
  rw [he] at heq
  -- the row is at its new path, where there was none
  have hthere := hget (replaceFirst oldText newText key)
  rw [if_pos BEq.rfl, ← show fs.files = files from (congrArg PgsFS.files heq).symm,
    AssocMap.contains_eq_false_iff.1 hfree] at hthere
  cases hthere

/-! ### What a rename has moved -/

/-- The old path at the beginning of the key is replaced by the new one: the names behind it are as
they were. -/
def Replaced (oldText newText key key' : Bytes) : Prop :=
  (PathBuf.mk key').components =
    (PathBuf.mk newText).components ++
      (PathBuf.mk key).components.drop (PathBuf.mk oldText).components.length

instance (oldText newText key key' : Bytes) : Decidable (Replaced oldText newText key key') := by
  unfold Replaced
  infer_instance

/-- The rows at and under the old path have the new path in its place, and the others have the
paths that they had.  No row has changed otherwise. -/
def MovesSubtree (files files' : AssocMap Bytes FileRow) (oldText newText : Bytes) : Prop :=
  ∃ path : Bytes → Bytes, files'.entries = files.entries.map (fun e => (path e.1, e.2)) ∧
    ∀ key ∈ files.keys, (AtOrUnder oldText key → Replaced oldText newText key (path key)) ∧
      (¬ AtOrUnder oldText key → path key = key)

/-- The path that a row below the directory is given. -/
def movedText (oldText newText key : Bytes) : Bytes :=
  if below oldText key then replaceFirst oldText newText key else key

/-- What is under the directory is given the new path in place of the old one, and what is
elsewhere either does not match the pattern or does not contain the old path. -/
structure MovesRight (keys : List Bytes) (oldText newText : Bytes) : Prop where
  under : ∀ key ∈ keys, AtOrUnder oldText key → key ≠ oldText →
    Replaced oldText newText key (movedText oldText newText key)
  other : ∀ key ∈ keys, ¬ AtOrUnder oldText key → below oldText key = true → ¬ oldText <:+: key

/-- A rename that succeeds has moved every row that matches, and the directory. -/
lemma entries_rename (hold : pathToStr o = .ok oldText) (hrow : fs.files.get? oldText = some row)
    (hdir : row.isDir = true) (hnew : pathToStr n = .ok newText)
    (hok : (fs.rename db o n).1.isOk = true) :
    oldText ≠ newText ∧ (fs.rename db o n).2.files.entries = fs.files.entries.map fun e =>
      (if e.1 = oldText then newText else movedText oldText newText e.1, e.2) := by
  have hmem : oldText ∈ fs.files.keys := AssocMap.mem_keys.2 ⟨row, hrow⟩
  rcases rename_cases hold hrow hdir db with ⟨e, herr⟩ | ⟨text, htext, hfree, heq⟩
  · rw [herr] at hok
    cases hok
  · obtain rfl : text = newText := Outcome.ok.inj (htext.symm.trans hnew)
    have hne : oldText ≠ text := by
      rintro rfl
      rw [AssocMap.contains, hrow] at hfree
      cases hfree
    refine ⟨hne, ?_⟩
    rw [heq, moveDirectory] at hok ⊢
    have hrows := fun key => @mem_order oldText db fs key
    have hnodup : (db.order (fs.files.keys.filter (below oldText))).Nodup :=
      (db.order_perm _).nodup_iff.2 (fs.files.nodup_keys.filter _)
    generalize db.order (fs.files.keys.filter (below oldText)) = rows at hok hrows hnodup ⊢
    cases hrun : moveChildren db oldText text 4 rows fs with
    | mk r fs' =>
      cases r with
      | err e => simp [hrun, Outcome.isOk] at hok
      | panic => simp [hrun, Outcome.isOk] at hok
      | ok _ =>
        simp only [hrun] at hok ⊢
        obtain ⟨hfits, hmoved⟩ := moveRows_of_moveChildren hrun
        rcases movePath_cases db (4 + rows.length) "move directory" fs' oldText text
          with ⟨e, herr⟩ | ⟨files, hself, hdone⟩
        · rw [herr] at hok
          cases hok
        · rw [hfits] at hself
          rw [hdone, Sql.entries_moveRows_moveRow hmoved hself hnodup
            (fun key hkey => ((hrows key).1 hkey).1) hmem
            fun hself => by simpa [Like.not_below_self] using ((hrows oldText).1 hself).2]
          refine List.map_congr_left fun e he => ?_
          have hbelow : e.1 ∈ rows ↔ below oldText e.1 = true :=
            (hrows e.1).trans (and_iff_right (List.mem_map_of_mem he))
          simp only [movedText, beq_iff_eq, hbelow]

lemma atOrUnder_self (text : Bytes) : AtOrUnder text text := SqlFs.atOrUnder_of_beq BEq.rfl

/-- A rename that succeeds moves the subtree if and only if it moves each row right. -/
lemma movesSubtree_iff (hold : pathToStr o = .ok oldText)
    (hrow : fs.files.get? oldText = some row) (hdir : row.isDir = true)
    (hnew : pathToStr n = .ok newText) (hok : (fs.rename db o n).1.isOk = true) :
    MovesSubtree fs.files (fs.rename db o n).2.files oldText newText ↔
      MovesRight fs.files.keys oldText newText := by
  obtain ⟨hne, hentries⟩ := entries_rename hold hrow hdir hnew hok
  have hpaths := Sql.exists_path_iff (P := fun key key' =>
    (AtOrUnder oldText key → Replaced oldText newText key key') ∧
      (¬ AtOrUnder oldText key → key' = key))
    (g := fun key => if key = oldText then newText else movedText oldText newText key) hentries
  refine hpaths.trans ⟨fun h => ?_, fun h key hkey => ⟨fun hat => ?_, fun hother => ?_⟩⟩
  · refine ⟨fun key hkey hat hself => ?_, fun key hkey hother hbelow => ?_⟩
    · have hreplaced := (h key hkey).1 hat
      rwa [if_neg hself] at hreplaced
    · have hstays := (h key hkey).2 hother
      have hself : key ≠ oldText := by
        rintro rfl
        exact hother (atOrUnder_self key)
      rw [if_neg hself, movedText, if_pos hbelow] at hstays
      exact (replaceFirst_eq_self_iff hne).1 hstays
  · split_ifs with hself
    · rw [hself, Replaced, List.drop_length, List.append_nil]
    · exact h.under key hkey hat hself
  · have hself : key ≠ oldText := by
      rintro rfl
      exact hother (atOrUnder_self key)
    rw [if_neg hself, movedText]
    split_ifs with hbelow
    · exact replaceFirst_eq_self (h.other key hkey hother hbelow)
    · rfl

/-- For every table and every directory in it: whatever the database does, an error leaves the
table as it was, exactly if the new path is no text, or in use, or no row that matches the pattern
and contains the old path can be moved; and a rename that succeeds moves the subtree and nothing
else exactly if each row under the directory is given the new path in place of the old one, and no
other row that matches contains the old path. -/
theorem rename_atomic_and_exact_iff (fs : PgsFS) {o n : PathBuf} {oldText : Bytes} {row : FileRow}
    (hold : pathToStr o = .ok oldText) (hrow : fs.files.get? oldText = some row)
    (hdir : row.isDir = true) :
    ((∀ db, (fs.rename db o n).1.isErr = true → (fs.rename db o n).2 = fs) ↔
      ∀ newText, pathToStr n = .ok newText → fs.files.contains newText = false →
        Stuck fs oldText newText) ∧
    ∀ db newText, pathToStr n = .ok newText → (fs.rename db o n).1.isOk = true →
      (MovesSubtree fs.files (fs.rename db o n).2.files oldText newText ↔
        MovesRight fs.files.keys oldText newText) := by
  refine ⟨⟨fun h newText hnew hfree => ?_, fun h db herr => ?_⟩, fun db newText hnew hok =>
    movesSubtree_iff hold hrow hdir hnew hok⟩
  · by_contra hnot
    have hne : oldText ≠ newText := by
      rintro rfl
      rw [AssocMap.contains, hrow] at hfree
      cases hfree
    obtain ⟨key, herr, hmoved⟩ := exists_moved_of_not_stuck hnot hne
    have heq : fs.rename (failsAfter key) o n =
        moveDirectory (failsAfter key) fs oldText newText := by
      rw [rename_eq hold hrow hdir hnew, hfree]
      rfl
    rw [← heq] at herr hmoved
    exact hmoved (h (failsAfter key) herr)
  · rcases rename_cases hold hrow hdir db with ⟨e, hfailed⟩ | ⟨newText, hnew, hfree, heq⟩
    · rw [hfailed]
    · rw [heq] at herr ⊢
      exact moveDirectory_of_stuck (h newText hnew hfree) herr

end Call

/-! ### Directories -/

/-- A directory, and some files. -/
def dirFs (dir : String) (files : List String) : PgsFS where
  fits _ _ := true
  files := files.foldl (fun t key => t.insert (ascii key) ⟨some [], false, 0, none, none, none⟩)
    ((∅ : AssocMap Bytes FileRow).insert (ascii dir) ⟨some [], true, 0, none, none, none⟩)

/-- A database that does what it is asked to do. -/
def working : Database := ⟨fun _ => false, fun _ => "", id, fun paths => List.Perm.refl paths⟩

/-- A directory that is empty is moved at once. -/
theorem rename_atomic_and_exact_iff_dirFs :
    (∀ db, ((dirFs "/a" []).rename db ⟨ascii "/a"⟩ ⟨ascii "/b"⟩).1.isErr = true →
      ((dirFs "/a" []).rename db ⟨ascii "/a"⟩ ⟨ascii "/b"⟩).2 = dirFs "/a" []) ∧
    MovesSubtree (dirFs "/a" []).files
      ((dirFs "/a" []).rename working ⟨ascii "/a"⟩ ⟨ascii "/b"⟩).2.files (ascii "/a")
      (ascii "/b") := by
  obtain ⟨hatomic, hexact⟩ := @rename_atomic_and_exact_iff (dirFs "/a" []) ⟨ascii "/a"⟩
    ⟨ascii "/b"⟩ (ascii "/a") _ rfl rfl rfl
  have hkeys : ∀ key ∈ (dirFs "/a" []).files.keys, below (ascii "/a") key = false := by decide
  refine ⟨hatomic.2 fun newText _ _ key row hrow hbelow => ?_,
    (hexact working (ascii "/b") rfl rfl).2 ⟨by decide, fun key hkey _ hbelow => ?_⟩⟩
  · rw [hkeys key (AssocMap.mem_keys.2 ⟨row, hrow⟩)] at hbelow
    cases hbelow
  · rw [hkeys key hkey] at hbelow
    cases hbelow

/-- The statement for the second file fails, and the directory is split.  And the name `_` is a
wildcard, so a file elsewhere is moved, if it has this name above it. -/
theorem rename_splits_directory :
    (let fs := dirFs "/a" ["/a/x", "/a/y"]
      let r := fs.rename (failsAfter (ascii "/a/x")) ⟨ascii "/a"⟩ ⟨ascii "/b"⟩
      r.1.isErr = true ∧ r.2.files.keys = [ascii "/a", ascii "/b/x", ascii "/a/y"]) ∧
    (let fs := dirFs "/_" ["/a/_/x"]
      let r := fs.rename working ⟨ascii "/_"⟩ ⟨ascii "/b"⟩
      r.1.isOk = true ∧ r.2.files.keys = [ascii "/b", ascii "/a/b/x"] ∧
        ¬ MovesSubtree fs.files r.2.files (ascii "/_") (ascii "/b")) := by
  refine ⟨by decide +kernel, by decide +kernel, by decide +kernel, fun h => ?_⟩
  have hright := (movesSubtree_iff rfl rfl rfl rfl (by decide +kernel)).1 h
  exact hright.other (ascii "/a/_/x") (by decide +kernel) (by decide) (by decide) (by decide)

/-! ### Normal paths -/

section NormalPaths

variable {o n : AbsPath} {keys : List Bytes}

lemma components_text (p : AbsPath) :
    (PathBuf.mk (AbsPath.text p.names)).components = .rootDir :: p.names.map .normal :=
  AbsPath.components_toPath p

/-- The text of a path with the text of names behind it. -/
lemma components_text_append (n : AbsPath) {rest : List Bytes} (hrest : rest ≠ [])
    (hvalid : ∀ m ∈ rest, IsName m) :
    (PathBuf.mk (AbsPath.text n.names ++ AbsPath.text rest)).components =
      .rootDir :: (n.names ++ rest).map .normal := by
  by_cases hn : n.names = []
  · have htail : (AbsPath.text rest).splitOn slash = [] :: rest := by
      rw [AbsPath.text, ← List.nil_append (slash :: _), List.splitOn_append_cons_self,
        List.splitOn_intercalate slash (fun m hm => (hvalid m hm).2.1) hrest]
      rfl
    rw [hn, AbsPath.text_nil, List.singleton_append, PathBuf.components_cons_slash, htail,
      List.filterMap_cons, AbsPath.filterMap_parse_names hvalid]
    rfl
  · rw [← AbsPath.text_append hn hrest]
    exact components_text ⟨n.names ++ rest, fun m hm =>
      (List.mem_append.1 hm).elim (n.valid m) (hvalid m)⟩

/-- With normal paths, what is under the directory has to match the pattern. -/
lemma movesRight_iff_of_normal
    (hkeys : ∀ key ∈ keys, ∃ p : AbsPath, key = AbsPath.text p.names) (ho : o.names ≠ [])
    (hn : n ≠ o) : MovesRight keys (AbsPath.text o.names) (AbsPath.text n.names) ↔
      (∀ p : AbsPath, AbsPath.text p.names ∈ keys → o.names <+: p.names → p ≠ o →
        below (AbsPath.text o.names) (AbsPath.text p.names) = true) ∧
      ∀ p : AbsPath, AbsPath.text p.names ∈ keys → ¬ o.names <+: p.names →
        below (AbsPath.text o.names) (AbsPath.text p.names) = true →
          ¬ AbsPath.text o.names <:+: AbsPath.text p.names := by
  constructor
  · intro h
    refine ⟨fun p hp hpre hne => ?_, fun p hp hother =>
      h.other _ hp (mt SqlFs.atOrUnder_text.1 hother)⟩
    by_contra hbelow
    have hreplaced := h.under _ hp (SqlFs.atOrUnder_text.2 hpre) (mt AbsPath.text_inj.1 hne)
    obtain ⟨rest, -, hrest, -⟩ := AbsPath.exists_text_append ho hpre (mt AbsPath.ext hne)
    -- the row stays, so the new path would have to be the old one
    rw [Replaced, movedText, if_neg hbelow, components_text, components_text, components_text,
      hrest, List.map_append, ← List.cons_append, List.drop_left] at hreplaced
    have hsame := List.append_cancel_right hreplaced
    rw [List.cons.injEq] at hsame
    exact hn (AbsPath.ext (AbsPath.map_normal_injective hsame.2.symm))
  · rintro ⟨hunder, hother⟩
    refine ⟨fun key hkey hat hne => ?_, fun key hkey hnot => ?_⟩
    · obtain ⟨p, rfl⟩ := hkeys key hkey
      have hpre := SqlFs.atOrUnder_text.1 hat
      have hpo : p ≠ o := fun heq => hne (by rw [heq])
      obtain ⟨rest, hrestne, hrest, htext⟩ :=
        AbsPath.exists_text_append ho hpre (mt AbsPath.ext hpo)
      have hvalid : ∀ m ∈ rest, IsName m := fun m hm => p.valid m (by simp [hrest, hm])
      rw [Replaced, movedText, if_pos (hunder p hkey hpre hpo), components_text,
        components_text, components_text, htext, replaceFirst_append,
        components_text_append n hrestne hvalid, hrest, List.map_append, List.map_append,
        ← List.cons_append, ← List.cons_append, List.drop_left]
    · obtain ⟨p, rfl⟩ := hkeys key hkey
      exact hother p hkey (mt SqlFs.atOrUnder_text.2 hnot)

/-- With normal paths and a name without wildcards and backslashes, a rename that succeeds always
moves the subtree and nothing else. -/
theorem rename_moves_subtree_of_plain (fs : PgsFS)
    (hkeys : ∀ key ∈ fs.files.keys, ∃ p : AbsPath, key = AbsPath.text p.names)
    {oldPath newPath : PathBuf} {row : FileRow} (ho : o.names ≠ []) (hn : n ≠ o)
    (hplain : Like.Plain (AbsPath.text o.names))
    (hold : pathToStr oldPath = .ok (AbsPath.text o.names))
    (hrow : fs.files.get? (AbsPath.text o.names) = some row) (hdir : row.isDir = true)
    (hnew : pathToStr newPath = .ok (AbsPath.text n.names)) (db : Database)
    (hok : (fs.rename db oldPath newPath).1.isOk = true) :
    MovesSubtree fs.files (fs.rename db oldPath newPath).2.files (AbsPath.text o.names)
      (AbsPath.text n.names) := by
  rw [movesSubtree_iff hold hrow hdir hnew hok, movesRight_iff_of_normal hkeys ho hn]
  refine ⟨fun p _ hpre hne => ?_, fun p _ hother hbelow => ?_⟩
  · obtain ⟨rest, -, -, htext⟩ := AbsPath.exists_text_append ho hpre (mt AbsPath.ext hne)
    rw [Like.below_iff_of_plain hplain, htext]
    exact ⟨[slash].intercalate rest, by rw [List.append_assoc]; rfl⟩
  · -- a text that continues the old one behind a separator is that of a path under it
    obtain ⟨rest, hrest⟩ := (Like.below_iff_of_plain hplain _).1 hbelow
    rw [List.append_assoc, List.singleton_append] at hrest
    obtain ⟨ms, ns, hnames, -, -, hms, -⟩ :=
      AbsPath.exists_names_of_append (List.cons_ne_nil _ _) hrest.symm
    have hvalid : ∀ m ∈ ms, IsName m := fun m hm => p.valid m (by simp [hnames, hm])
    have heq : AbsPath.mk ms hvalid = o := AbsPath.text_inj.1 hms
    exact absurd ⟨ns, by rw [hnames, ← heq]⟩ hother

end NormalPaths

end Racfs.PgsFs
