/-
# Calls that run at the same time

The calls of `PgsFS` but for `rename`, statement by statement (`racfs-plugin-pgsfs/src/fs`).  Each
one is a few statements on a connection from a pool, without a transaction.  So other calls come
between the check of a parent and the insertion, or between reading a file and writing it back.

While nothing is removed, this does no harm to the tree: whatever the calls of all clients are, in
whatever order their statements run and whichever of them fail, the parent of every stored path is
a directory, no path is lost, a path is created once, and what is there when a call begins is found
by the call (`calls_sound`).  A removal that comes between the statements of a `create` leaves a
file without its directory (`orphan_of_removal`).
-/
import Racfs.Lib.Statements
import Racfs.PgsFs.Model
import Racfs.SqlFs.Model

namespace Racfs.PgsFs

open Statements
open SqlFs.SqlFS (parentText writeData)

/-! ### Rows -/

namespace FileRow

/-- `timestamp_millis`. -/
def millis (now : DateTime) : Int64 := Int64.ofInt (FileMetadata.ms now)

/-- `DateTime::from_timestamp_millis`, which is limited to the years of the calendar. -/
def fromTimestampMillis (ms : Int64) : Option DateTime :=
  if -8334601228800000 ≤ ms.toInt ∧ ms.toInt ≤ 8210266876799999 then some (ms.toInt * 1000000)
  else none

/-- The content of a row. -/
def content (row : FileRow) : Bytes := row.data.getD []

/-- A new row. -/
def new (isDir : Bool) (mode : UInt32) (now : DateTime) : FileRow :=
  ⟨some [], isDir, mode.toInt32, some (millis now), some (millis now), some (millis now)⟩

/-- The metadata of a row. -/
def metadata (text : Bytes) (row : FileRow) : FileMetadata where
  path := ⟨text⟩
  size := row.content.length.toUInt64
  mode := row.mode.toUInt32
  created := row.createdAt.bind fromTimestampMillis
  modified := row.modifiedAt.bind fromTimestampMillis
  accessed := row.accessedAt.bind fromTimestampMillis
  isSymlinkFlag := false
  symlinkTarget := none

end FileRow

/-! ### Statements -/

/-- A call that has not returned. -/
abbrev Call := Program PgsFS (Outcome Reply)

namespace Call

/-- The answer when a statement fails. -/
def failed (what : String) (message : String) : Call :=
  .done (.err (.Io ("Failed to " ++ what ++ ": " ++ message)))

/-- A query. -/
def query (what : String) (next : PgsFS → Call) : Call := .exec some (failed what) next

/-- A statement that changes the table. -/
def statement (what : String) (stmt : PgsFS → Option PgsFS) (next : Call) : Call :=
  .exec stmt (failed what) fun _ => next

/-- `INSERT`: a path that is stored is refused. -/
def insert (text : Bytes) (row : FileRow) (fs : PgsFS) : Option PgsFS :=
  match Sql.insertRow fs.fits fs.files text row with
  | .ok files => some { fs with files }
  | .error _ => none

/-- `UPDATE`: without the row nothing happens. -/
def update (text : Bytes) (f : FileRow → FileRow) (fs : PgsFS) : Option PgsFS :=
  match Sql.updateRow fs.fits fs.files text f with
  | .ok files => some { fs with files }
  | .error _ => none

/-- The text of a path, or the end of the call. -/
def withText (path : PathBuf) (next : Bytes → Call) : Call :=
  match pathToStr path with
  | .ok text => next text
  | .err e => .done (.err e)
  | .panic => .done .panic

/-- Whether a path is stored. -/
def exists? (text : Bytes) (next : Bool → Call) : Call :=
  query "query exists" fun fs => next (fs.files.contains text)

/-- Whether a path is a directory. -/
def isDir (text : Bytes) (next : Bool → Call) : Call :=
  query "query is_dir" fun fs =>
    match fs.files.get? text with
    | none => .done (.err (.NotFound ⟨text⟩))
    | some row => next row.isDir

/-- The metadata of a path. -/
def getMetadata (text : Bytes) (next : FileMetadata → Call) : Call :=
  query "query metadata" fun fs =>
    match fs.files.get? text with
    | none => .done (.err (.NotFound ⟨text⟩))
    | some row => next (row.metadata text)

/-- The check that the parent of a path is a directory, by its mode.  The root is not looked
up. -/
def ensureParentExists (text : Bytes) (next : Call) : Call :=
  match parentText text with
  | none => next
  | some parent =>
    if parent = [slash] then next
    else
      getMetadata parent fun m =>
        if m.isDirectory then next else .done (.err (.NotADirectory ⟨parent⟩))

/-- The content of a row that has to be there. -/
def fetchData (what : String) (text : Bytes) (next : Bytes → Call) : Call :=
  query what fun fs =>
    match fs.files.get? text with
    | none =>
      failed what "no rows returned by a query that expected to return at least one row"
    | some row => next row.content

/-! ### The calls -/

/-- Insert a new row. -/
def make (path : PathBuf) (what : String) (row : FileRow) (next : Call) : Call :=
  withText path fun text =>
    ensureParentExists text
      (exists? text fun found =>
        if found then .done (.err (.AlreadyExists path))
        else statement what (insert text row) next)

/-- Create an empty file. -/
def createAnd (path : PathBuf) (now : DateTime) (next : Call) : Call :=
  make path "create file" (.new false (S_IFREG ||| 0o700 ||| 0o040 ||| 0o004) now) next

/-- Create an empty file. -/
def create (path : PathBuf) (now : DateTime) : Call := createAnd path now (.done (.ok .unit))

/-- Create a directory; the permissions are not used. -/
def mkdir (path : PathBuf) (now : DateTime) : Call :=
  make path "create directory"
    (.new true (S_IFDIR ||| 0o700 ||| 0o040 ||| 0o010 ||| 0o004 ||| 0o001) now)
    (.done (.ok .unit))

/-- Write data to a file, whose content is read first. -/
def write (maxFileSize : ℕ) (path : PathBuf) (data : Bytes) (offset : Int64) (flags : WriteFlags)
    (now : DateTime) : Call :=
  withText path fun text =>
    isDir text fun dir =>
      if dir then .done (.err (.IsDirectory path))
      else if data.length > maxFileSize then .done (.err .StorageFull)
      else
        query "read for write" fun fs =>
          let existing := ((fs.files.get? text).map FileRow.content).getD []
          let new := writeData existing data offset flags
          statement "write"
            (update text fun row =>
              { row with
                data := some new
                modifiedAt := some (FileRow.millis now)
                accessedAt := some (FileRow.millis now) })
            (.done (.ok (.written data.length.toUInt64)))

/-- Cut off or pad a file, whose content is read first. -/
def truncate (path : PathBuf) (size : UInt64) (now : DateTime) : Call :=
  withText path fun text =>
    isDir text fun dir =>
      if dir then .done (.err (.IsDirectory path))
      else
        fetchData "read for truncate" text fun existing =>
          let new :=
            if size.toNat < existing.length then existing.take size.toNat
            else resize existing size.toNat
          statement "truncate"
            (update text fun row =>
              { row with data := some new, modifiedAt := some (FileRow.millis now) })
            (.done (.ok .unit))

/-- Set the times of a path, or create an empty file. -/
def touch (path : PathBuf) (now createdAt : DateTime) : Call :=
  withText path fun text =>
    let setTimes : Call :=
      statement "touch"
        (update text fun row =>
          { row with
            accessedAt := some (FileRow.millis now)
            modifiedAt := some (FileRow.millis now) })
        (.done (.ok .unit))
    exists? text fun found => if found then setTimes else createAnd path createdAt setTimes

/-- Replace the mode of a path, its file type included. -/
def chmod (path : PathBuf) (mode : UInt32) (now : DateTime) : Call :=
  withText path fun text =>
    exists? text fun found =>
      if !found then .done (.err (.NotFound path))
      else
        statement "chmod"
          (update text fun row =>
            { row with mode := mode.toInt32, modifiedAt := some (FileRow.millis now) })
          (.done (.ok .unit))

/-- Read from a file. -/
def read (path : PathBuf) (offset size : Int64) : Call :=
  withText path fun text =>
    isDir text fun dir =>
      if dir then .done (.err (.IsDirectory path))
      else
        fetchData "read data" text fun data =>
          .done ((MemFs.MemFS.readData data offset size).map .data)

/-- The metadata of a path. -/
def stat (path : PathBuf) : Call :=
  withText path fun text => getMetadata text fun m => .done (.ok (.metadata m))

/-- The rows that a listing shows: of what matches the pattern, the paths with no separator in what
is left of them, and for the root those with one separator. -/
def listed (text : Bytes) (fs : PgsFS) : List FileMetadata :=
  let pattern := if text = [slash] then slash :: Sql.percent else text ++ slash :: Sql.percent
  (fs.files.entries.filter fun e => Like.like e.1 pattern == some true).filterMap fun e =>
    let fullPath : PathBuf := ⟨e.1⟩
    let relative :=
      if text = [slash] then fullPath else (fullPath.stripPrefix ⟨text⟩).getD fullPath
    let direct :=
      if text = [slash] then relative.toStringLossy.count slash = 1
      else slash ∉ relative.toStringLossy
    if direct then some (e.2.metadata e.1) else none

/-- List a directory. -/
def readDir (path : PathBuf) : Call :=
  withText path fun text =>
    isDir text fun dir =>
      if !dir then .done (.err (.NotADirectory path))
      else query "query read_dir" fun fs => .done (.ok (.entries (listed text fs)))

/-- The last statement of a removal. -/
def delete (text : Bytes) (fs : PgsFS) : Option PgsFS :=
  some { fs with files := fs.files.erase text }

/-- Remove a file or an empty directory. -/
def remove (path : PathBuf) : Call :=
  withText path fun text =>
    exists? text fun found =>
      if !found then .done (.err (.NotFound path))
      else
        isDir text fun dir =>
          let rest := statement "remove" (delete text) (.done (.ok .unit))
          if dir then
            query "check if directory is empty" fun fs =>
              if fs.files.keys.any (Like.below text) then .done (.err .DirectoryNotEmpty) else rest
          else rest

/-- Remove a path and everything below it. -/
def removeAll (path : PathBuf) : Call :=
  withText path fun text =>
    exists? text fun found =>
      if !found then .done (.err (.NotFound path))
      else
        statement "remove all"
          (fun fs => some { fs with
            files := fs.files.retain fun key _ => !(key == text || Like.below text key) })
          (.done (.ok .unit))

end Call

/-- What a call is asked to do. -/
inductive Op
  | create (path : PathBuf) (now : DateTime)
  | mkdir (path : PathBuf) (now : DateTime)
  | write (path : PathBuf) (data : Bytes) (offset : Int64) (flags : WriteFlags) (now : DateTime)
  | truncate (path : PathBuf) (size : UInt64) (now : DateTime)
  | touch (path : PathBuf) (now createdAt : DateTime)
  | chmod (path : PathBuf) (mode : UInt32) (now : DateTime)
  | read (path : PathBuf) (offset size : Int64)
  | stat (path : PathBuf)
  | readDir (path : PathBuf)
  | remove (path : PathBuf)
  | removeAll (path : PathBuf)

/-- The statements of a call. -/
def Op.program (maxFileSize : ℕ) : Op → Call
  | create path now => .create path now
  | mkdir path now => .mkdir path now
  | write path data offset flags now => .write maxFileSize path data offset flags now
  | truncate path size now => .truncate path size now
  | touch path now createdAt => .touch path now createdAt
  | chmod path mode now => .chmod path mode now
  | read path offset size => .read path offset size
  | stat path => .stat path
  | readDir path => .readDir path
  | remove path => .remove path
  | removeAll path => .removeAll path

/-- The path of a call. -/
def Op.path : Op → PathBuf
  | create path _ | mkdir path _ | write path _ _ _ _ | truncate path _ _ | touch path _ _
  | chmod path _ _ | read path _ _ | stat path | readDir path | remove path | removeAll path => path

/-- The call is one that makes its path. -/
def Op.makes : Op → Bool
  | create _ _ | mkdir _ _ => true
  | _ => false

/-- Whether a call that succeeds has to do with a directory or with a file. -/
def Op.kind : Op → Option Bool
  | create _ _ | write _ _ _ _ _ | truncate _ _ _ | read _ _ _ => some false
  | mkdir _ _ | readDir _ => some true
  | _ => none

/-- The call removes nothing, and does not give a file the mode of a directory. -/
def Op.Keeps : Op → Prop
  | remove _ | removeAll _ => False
  | chmod _ mode _ => ¬ mode &&& S_IFMT = S_IFDIR
  | _ => True

/-! ### The rule -/

/-- The parent of a path is the root, or a directory. -/
def ParentThere (fs : PgsFS) (text : Bytes) : Prop :=
  ∀ parent, parentText text = some parent → parent = [slash] ∨
    ∃ row, fs.files.get? parent = some row ∧ row.isDir = true

/-- The parents of all stored paths are directories, and only directories have the mode of one. -/
structure Tree (fs : PgsFS) : Prop where
  parent : ∀ text, fs.files.contains text = true → ParentThere fs text
  mode : ∀ text row, fs.files.get? text = some row → (row.metadata text).isDirectory = true →
    row.isDir = true

/-- What is stored stays stored, and a directory or a file stays one. -/
def Moved (fs fs' : PgsFS) : Prop :=
  ∀ text row, fs.files.get? text = some row → ∃ row', fs'.files.get? text = some row' ∧
    row'.isDir = row.isDir

/-- What the answer to a call says of the tables around its last statement, and at its
beginning. -/
structure Right (op : Op) (since : PgsFS) (a : Outcome Reply) (fs fs' : PgsFS) : Prop where
  /-- A path that has been made was not there before. -/
  made : op.makes = true → ∀ r, a = .ok r →
    ∃ text, pathToStr op.path = .ok text ∧ fs.files.contains text = false
  /-- A call that succeeds has found, or made, what it is for. -/
  kind : ∀ dir, op.kind = some dir → ∀ r, a = .ok r →
    ∃ text row, pathToStr op.path = .ok text ∧ fs'.files.get? text = some row ∧ row.isDir = dir
  /-- A path that was there is found. -/
  found : ∀ text, pathToStr op.path = .ok text → since.files.contains text = true →
    ∀ q, a ≠ .err (.NotFound q)

lemma Moved.refl (fs : PgsFS) : Moved fs fs := fun _ row h => ⟨row, h, rfl⟩

lemma Moved.trans {fs fs' fs'' : PgsFS} (h : Moved fs fs') (h' : Moved fs' fs'') :
    Moved fs fs'' := by
  intro text row hrow
  obtain ⟨row', hrow', hdir⟩ := h text row hrow
  obtain ⟨row'', hrow'', hdir'⟩ := h' text row' hrow'
  exact ⟨row'', hrow'', hdir'.trans hdir⟩

lemma Moved.contains {fs fs' : PgsFS} (h : Moved fs fs') {text : Bytes}
    (htext : fs.files.contains text = true) : fs'.files.contains text = true := by
  obtain ⟨row, hrow⟩ := AssocMap.contains_iff.1 htext
  obtain ⟨row', hrow', -⟩ := h text row hrow
  exact AssocMap.contains_iff.2 ⟨row', hrow'⟩

lemma ParentThere.moved {fs fs' : PgsFS} {text : Bytes} (h : ParentThere fs text)
    (hmoved : Moved fs fs') : ParentThere fs' text := by
  intro parent hparent
  rcases h parent hparent with hroot | ⟨row, hrow, hdir⟩
  · exact Or.inl hroot
  · obtain ⟨row', hrow', hdir'⟩ := hmoved parent row hrow
    exact Or.inr ⟨row', hrow', hdir'.trans hdir⟩

/-- The rule for the calls that remove nothing. -/
def rule : Rule Op PgsFS (Outcome Reply) where
  Inv := Tree
  Moves := Moved
  refl := .refl
  trans _ _ _ := .trans
  Right := Right

/-! ### Statements that keep the rule -/

section Table

variable {fs fs' : PgsFS} {text : Bytes} {row : FileRow}

lemma insert_cases (h : Call.insert text row fs = some fs') :
    fs.files.contains text = false ∧ fs' = { fs with files := fs.files.insert text row } := by
  rw [Call.insert, Sql.insertRow] at h
  split_ifs at h with hfits hcontains
  exact ⟨Bool.eq_false_iff.2 hcontains, (Option.some.inj h).symm⟩

lemma update_cases {f : FileRow → FileRow} (h : Call.update text f fs = some fs') :
    fs' = { fs with files := fs.files.modify text f } := by
  rw [Call.update, Sql.updateRow] at h
  split_ifs at h
  exact (Option.some.inj h).symm

lemma insert_spec (htree : Tree fs) (hparent : ParentThere fs text)
    (hmode : (row.metadata text).isDirectory = true → row.isDir = true)
    (h : Call.insert text row fs = some fs') :
    Tree fs' ∧ Moved fs fs' ∧ fs.files.contains text = false ∧
      fs'.files.get? text = some row := by
  obtain ⟨hnew, rfl⟩ := insert_cases h
  have hget : ∀ key, (fs.files.insert text row).get? key =
      if text = key then some row else fs.files.get? key := by
    intro key
    rw [AssocMap.get?_insert]
    simp only [beq_iff_eq]
  have hmoved : Moved fs { fs with files := fs.files.insert text row } := by
    intro key row' hrow'
    refine ⟨row', ?_, rfl⟩
    rw [hget, if_neg, hrow']
    rintro rfl
    rw [AssocMap.contains_eq_false_iff.1 hnew] at hrow'
    cases hrow'
  refine ⟨⟨fun key hkey => ?_, fun key row' hrow' hdir => ?_⟩, hmoved, hnew, ?_⟩
  · by_cases htext : text = key
    · rw [← htext]
      exact hparent.moved hmoved
    · refine (htree.parent key ?_).moved hmoved
      rw [AssocMap.contains_iff] at hkey ⊢
      simpa [hget, htext] using hkey
  · simp only [hget] at hrow'
    split_ifs at hrow' with htext
    · obtain rfl := Option.some.inj hrow'
      exact hmode hdir
    · exact htree.mode key row' hrow' hdir
  · rw [hget, if_pos rfl]

lemma update_spec {f : FileRow → FileRow} (hdir : ∀ row, (f row).isDir = row.isDir)
    (hmode : ∀ row, (f row).mode = row.mode ∨
      ¬ (f row).mode.toUInt32 &&& S_IFMT = S_IFDIR)
    (htree : Tree fs) (h : Call.update text f fs = some fs') : Tree fs' ∧ Moved fs fs' := by
  obtain rfl := update_cases h
  have hget : ∀ key, (fs.files.modify text f).get? key =
      if text = key then (fs.files.get? key).map f else fs.files.get? key := by
    intro key
    rw [AssocMap.get?_modify]
    simp only [beq_iff_eq]
  have hmoved : Moved fs { fs with files := fs.files.modify text f } := by
    intro key row hrow
    simp only [hget]
    split_ifs with htext
    · exact ⟨f row, by rw [hrow, Option.map_some], hdir row⟩
    · exact ⟨row, hrow, rfl⟩
  refine ⟨⟨fun key hkey => ?_, fun key row hrow hmodeDir => ?_⟩, hmoved⟩
  · refine (htree.parent key ?_).moved hmoved
    rw [AssocMap.contains_iff] at hkey ⊢
    obtain ⟨row, hrow⟩ := hkey
    simp only [hget] at hrow
    split_ifs at hrow
    · obtain ⟨row', hrow', -⟩ := Option.map_eq_some_iff.1 hrow
      exact ⟨row', hrow'⟩
    · exact ⟨row, hrow⟩
  · simp only [hget] at hrow
    split_ifs at hrow
    · obtain ⟨row', hrow', rfl⟩ := Option.map_eq_some_iff.1 hrow
      rw [hdir]
      rcases hmode row' with hsame | hnot
      · refine htree.mode key row' hrow' ?_
        rw [FileMetadata.isDirectory, FileRow.metadata] at hmodeDir ⊢
        rwa [hsame] at hmodeDir
      · rw [FileMetadata.isDirectory, FileRow.metadata, beq_iff_eq] at hmodeDir
        exact absurd hmodeDir hnot
    · exact htree.mode key row hrow hmodeDir

end Table

/-! ### Statements of a call -/

/-- A statement may fail for reasons of the connection, and a path may be no text. -/
class AllowsFailures (R : Rule Op PgsFS (Outcome Reply)) : Prop where
  io : ∀ op since message s s', R.Right op since (.err (.Io message)) s s'
  noText : ∀ op since message s s', R.Right op since (.err (.InvalidInput message)) s s'

section GoesOn

variable {R : Rule Op PgsFS (Outcome Reply)} [AllowsFailures R] {op : Op} {since s s' : PgsFS}
  {text : Bytes}

lemma goesOn_failed (what message : String) :
    (Call.failed what message).GoesOn R op since s s' :=
  .done (AllowsFailures.io _ _ _ _ _)

lemma goesOn_withText {path : PathBuf} {next : Bytes → Call}
    (hnext : ∀ text, pathToStr path = .ok text → (next text).GoesOn R op since s s') :
    (Call.withText path next).GoesOn R op since s s' := by
  rw [Call.withText]
  cases htext : pathToStr path with
  | ok text => exact hnext text htext
  | err e =>
    rw [pathToStr] at htext
    split_ifs at htext
    cases htext
    exact .done (AllowsFailures.noText _ _ _ _ _)
  | panic =>
    rw [pathToStr] at htext
    split_ifs at htext

lemma goesOn_query {what : String} {next : PgsFS → Call}
    (hnext : ∀ s₁, R.Inv s₁ → R.Moves s' s₁ → (next s₁).GoesOn R op since s₁ s₁) :
    (Call.query what next).GoesOn R op since s s' := by
  refine .exec (fun _ _ _ _ _ _ message => goesOn_failed what message) ?_
  intro s₁ s₂ hinv hmoves hstmt
  obtain rfl := Option.some.inj hstmt
  exact ⟨hinv, R.refl s₁, hnext s₁ hinv hmoves⟩

lemma goesOn_statement {what : String} {stmt : PgsFS → Option PgsFS} {next : Call}
    (hstmt : ∀ s₁ s₂, R.Inv s₁ → R.Moves s' s₁ → stmt s₁ = some s₂ →
      R.Inv s₂ ∧ R.Moves s₁ s₂ ∧ next.GoesOn R op since s₁ s₂) :
    (Call.statement what stmt next).GoesOn R op since s s' :=
  .exec (fun _ _ _ _ _ _ message => goesOn_failed what message) hstmt

lemma goesOn_exists? {next : Bool → Call}
    (hnext : ∀ s₁, R.Inv s₁ → R.Moves s' s₁ →
      (next (s₁.files.contains text)).GoesOn R op since s₁ s₁) :
    (Call.exists? text next).GoesOn R op since s s' :=
  goesOn_query hnext

/-- A row that is not there is answered with `NotFound`. -/
lemma goesOn_row {what : String} {next : FileRow → Call}
    (hmissing : ∀ s₁, R.Moves s' s₁ → s₁.files.get? text = none →
      R.Right op since (.err (.NotFound ⟨text⟩)) s₁ s₁)
    (hnext : ∀ s₁ row, R.Inv s₁ → R.Moves s' s₁ → s₁.files.get? text = some row →
      (next row).GoesOn R op since s₁ s₁) :
    (Call.query what fun fs => match fs.files.get? text with
      | none => .done (.err (.NotFound ⟨text⟩))
      | some row => next row).GoesOn R op since s s' := by
  refine goesOn_query fun s₁ hinv hmoves => ?_
  cases hrow : s₁.files.get? text with
  | none => exact .done (hmissing s₁ hmoves hrow)
  | some row => exact hnext s₁ row hinv hmoves hrow

lemma goesOn_isDir {next : Bool → Call}
    (hmissing : ∀ s₁, R.Moves s' s₁ → s₁.files.get? text = none →
      R.Right op since (.err (.NotFound ⟨text⟩)) s₁ s₁)
    (hnext : ∀ s₁ row, R.Inv s₁ → R.Moves s' s₁ → s₁.files.get? text = some row →
      (next row.isDir).GoesOn R op since s₁ s₁) :
    (Call.isDir text next).GoesOn R op since s s' :=
  goesOn_row hmissing hnext

lemma goesOn_getMetadata {next : FileMetadata → Call}
    (hmissing : ∀ s₁, R.Moves s' s₁ → s₁.files.get? text = none →
      R.Right op since (.err (.NotFound ⟨text⟩)) s₁ s₁)
    (hnext : ∀ s₁ row, R.Inv s₁ → R.Moves s' s₁ → s₁.files.get? text = some row →
      (next (row.metadata text)).GoesOn R op since s₁ s₁) :
    (Call.getMetadata text next).GoesOn R op since s s' :=
  goesOn_row hmissing hnext

lemma goesOn_fetchData {what : String} {next : Bytes → Call}
    (hnext : ∀ s₁ row, R.Inv s₁ → R.Moves s' s₁ → s₁.files.get? text = some row →
      (next row.content).GoesOn R op since s₁ s₁) :
    (Call.fetchData what text next).GoesOn R op since s s' := by
  refine goesOn_query fun s₁ hinv hmoves => ?_
  cases hrow : s₁.files.get? text with
  | none => exact goesOn_failed _ _
  | some row => exact hnext s₁ row hinv hmoves hrow

end GoesOn

/-! ### Calls that keep the rule -/

section Keeps

variable {op : Op} {since s s' : PgsFS} {text : Bytes}

/-- An answer that is an error. -/
lemma right_err {e : FSError} (h : ∀ text, pathToStr op.path = .ok text →
    since.files.contains text = true → ∀ q, e ≠ .NotFound q) : Right op since (.err e) s s' := by
  refine ⟨fun _ r hr => ?_, fun _ _ r hr => ?_, fun text htext hthere q heq => ?_⟩
  · cases hr
  · cases hr
  · cases heq
    exact h text htext hthere q rfl

instance : AllowsFailures rule where
  io _ _ _ _ _ := right_err fun _ _ _ _ heq => by cases heq
  noText _ _ _ _ _ := right_err fun _ _ _ _ heq => by cases heq

/-- A call that ends with an error, which is `NotFound` only if the path was not there. -/
lemma goesOn_err {e : FSError} (h : ∀ text, pathToStr op.path = .ok text →
    since.files.contains text = true → ∀ q, e ≠ .NotFound q) :
    (Program.done (.err e) : Call).GoesOn rule op since s s' :=
  .done (right_err h)

/-- What is looked up is there if the path of the call was. -/
def Looked (op : Op) (since s : PgsFS) (text : Bytes) : Prop :=
  ∀ t, pathToStr op.path = .ok t → since.files.contains t = true → s.files.contains text = true

lemma Looked.self (htext : pathToStr op.path = .ok text) (hmoved : Moved since s) :
    Looked op since s text := by
  intro t ht hthere
  obtain rfl := Outcome.ok.inj (htext.symm.trans ht)
  exact hmoved.contains hthere

/-- What is looked up and is not there was not there at the beginning. -/
lemma Looked.right (h : Looked op since s' text) (s₁ : PgsFS) (hmoved : Moved s' s₁)
    (hrow : s₁.files.get? text = none) : Right op since (.err (.NotFound ⟨text⟩)) s₁ s₁ := by
  refine right_err fun t ht hthere => ?_
  rw [← AssocMap.contains_eq_false_iff, hmoved.contains (h t ht hthere)] at hrow
  cases hrow

lemma goesOn_ensureParentExists {next : Call} (htree : Tree since) (hsince : Moved since s')
    (htext : pathToStr op.path = .ok text)
    (hnext : ∀ s₀ s₁, Moved s' s₁ → ParentThere s₁ text → next.GoesOn rule op since s₀ s₁) :
    (Call.ensureParentExists text next).GoesOn rule op since s s' := by
  rw [Call.ensureParentExists]
  cases hparent : parentText text with
  | none =>
    refine hnext s s' (.refl s') fun parent hparent' => ?_
    rw [hparent] at hparent'
    cases hparent'
  | some parent =>
    show (if parent = [slash] then next else _ : Call).GoesOn rule op since s s'
    split_ifs with hroot
    · refine hnext s s' (.refl s') fun parent' hparent' => Or.inl ?_
      rw [hparent] at hparent'
      exact (Option.some.inj hparent').symm.trans hroot
    · have hlooked : Looked op since s' parent := by
        -- what was there at the beginning had its parent there
        intro t ht hthere
        obtain rfl := Outcome.ok.inj (htext.symm.trans ht)
        rcases htree.parent text hthere parent hparent with hroot' | ⟨row, hrow, -⟩
        · exact absurd hroot' hroot
        · exact hsince.contains (AssocMap.contains_iff.2 ⟨row, hrow⟩)
      refine goesOn_getMetadata hlooked.right fun s₁ row (htree₁ : Tree s₁) hmoved hrow => ?_
      split_ifs with hdir
      · refine hnext s₁ s₁ hmoved fun parent' hparent' => ?_
        obtain rfl := Option.some.inj (hparent.symm.trans hparent')
        exact Or.inr ⟨row, hrow, htree₁.mode parent row hrow hdir⟩
      · refine goesOn_err fun _ _ _ q heq => ?_
        cases heq

/-- The insertion of a row goes on with the row there, and nothing there before it. -/
lemma goesOn_make {path : PathBuf} {what : String} {row : FileRow} {next : Call}
    (hpath : op.path = path) (htree : Tree since) (hsince : Moved since s')
    (hmode : ∀ text, (row.metadata text).isDirectory = true → row.isDir = true)
    (hnext : ∀ text s₁ s₂, pathToStr op.path = .ok text → Tree s₁ → Moved since s₁ →
      s₁.files.contains text = false → s₂.files.get? text = some row →
      next.GoesOn rule op since s₁ s₂) :
    (Call.make path what row next).GoesOn rule op since s s' := by
  subst hpath
  refine goesOn_withText fun text htext => ?_
  refine goesOn_ensureParentExists htree hsince htext fun s₀ s₁ hmoved₁ hparent => ?_
  refine goesOn_exists? fun s₂ _ (hmoved₂ : Moved s₁ s₂) => ?_
  split_ifs with hfound
  · refine goesOn_err fun _ _ _ q heq => ?_
    cases heq
  · refine goesOn_statement fun s₃ s₄ htree₃ hmoved₃ hstmt => ?_
    have hreached : Moved s₁ s₃ := hmoved₂.trans hmoved₃
    obtain ⟨htree₄, hmoved₄, hfree, hthere⟩ :=
      insert_spec htree₃ (hparent.moved hreached) (hmode text) hstmt
    exact ⟨htree₄, hmoved₄,
      hnext text s₃ s₄ htext htree₃ (hsince.trans (hmoved₁.trans hreached)) hfree hthere⟩

/-- The answer of a call that makes nothing and that has met the row of its path. -/
lemma right_of_row {row : FileRow} {a : Outcome Reply} (hmakes : op.makes = false)
    (htext : pathToStr op.path = .ok text) (hrow : s'.files.get? text = some row)
    (hkind : ∀ dir, op.kind = some dir → row.isDir = dir) (hne : ∀ q, a ≠ .err (.NotFound q)) :
    Right op since a s s' := by
  refine ⟨fun hmakes' => ?_, fun dir hdir _ _ => ⟨text, row, htext, hrow, hkind dir hdir⟩,
    fun _ _ _ => hne⟩
  rw [hmakes] at hmakes'
  cases hmakes'

lemma goesOn_ok {r : Reply} (hmakes : op.makes = false) (hkind : op.kind = none) :
    (Program.done (.ok r) : Call).GoesOn rule op since s s' := by
  refine .done ⟨fun hmakes' => ?_, fun dir hdir => ?_, fun _ _ _ q heq => ?_⟩
  · rw [hmakes] at hmakes'
    cases hmakes'
  · rw [hkind] at hdir
    cases hdir
  · cases heq

/-- The last statement of a call that changes the row of a file and nothing else. -/
lemma goesOn_update {what : String} {f : FileRow → FileRow} {row : FileRow} {r : Reply}
    (hmakes : op.makes = false) (htext : pathToStr op.path = .ok text)
    (hrow : s'.files.get? text = some row) (hkind : ∀ dir, op.kind = some dir → row.isDir = dir)
    (hdir : ∀ row, (f row).isDir = row.isDir) (hmode : ∀ row, (f row).mode = row.mode) :
    (Call.statement what (Call.update text f) (.done (.ok r))).GoesOn rule op since s s' := by
  refine goesOn_statement fun s₁ s₂ htree (hmoved : Moved s' s₁) hstmt => ?_
  obtain ⟨htree₂, hmoved₂⟩ := update_spec hdir (fun row => Or.inl (hmode row)) htree hstmt
  obtain ⟨row', hrow', hsame⟩ := hmoved.trans hmoved₂ text row hrow
  refine ⟨htree₂, hmoved₂, .done (right_of_row hmakes htext hrow' (fun dir hkind' => ?_) ?_)⟩
  · exact hsame.trans (hkind dir hkind')
  · intro q heq
    cases heq

/-- The last statement of a call that makes nothing, and that says nothing about what it met. -/
lemma goesOn_update_of_kind {what : String} {f : FileRow → FileRow} {r : Reply}
    (hmakes : op.makes = false) (hkind : op.kind = none)
    (hdir : ∀ row, (f row).isDir = row.isDir)
    (hmode : ∀ row, (f row).mode = row.mode ∨ ¬ (f row).mode.toUInt32 &&& S_IFMT = S_IFDIR) :
    (Call.statement what (Call.update text f) (.done (.ok r))).GoesOn rule op since s s' := by
  refine goesOn_statement fun s₁ s₂ htree _ hstmt => ?_
  obtain ⟨htree₂, hmoved₂⟩ := update_spec hdir hmode htree hstmt
  exact ⟨htree₂, hmoved₂, goesOn_ok hmakes hkind⟩

/-- A call that has to do with a directory or a file answers with an error at the other. -/
lemma goesOn_wrongKind {e : FSError} (he : ∀ q, e ≠ .NotFound q) :
    (Program.done (.err e) : Call).GoesOn rule op since s s' :=
  goesOn_err fun _ _ _ => he

end Keeps

/-! ### All calls -/

section Admits

variable {maxFileSize : ℕ}

lemma isDirectory_newFile (text : Bytes) (now : DateTime) :
    ¬ ((FileRow.new false (S_IFREG ||| 0o700 ||| 0o040 ||| 0o004) now).metadata text).isDirectory
      = true := by
  show ¬ ((S_IFREG ||| 0o700 ||| 0o040 ||| 0o004).toInt32.toUInt32 &&& S_IFMT == S_IFDIR) = true
  decide

lemma admits_create (path : PathBuf) (now : DateTime) :
    rule.Admits (Op.program maxFileSize) (.create path now) := by
  intro s htree
  refine goesOn_make rfl htree (.refl s) (fun text hmode => ?_) ?_
  · exact absurd hmode (isDirectory_newFile text now)
  · intro text s₁ s₂ htext _ _ hfree hthere
    refine .done ⟨fun _ _ _ => ⟨text, htext, hfree⟩, fun dir hdir _ _ => ?_, fun _ _ _ q heq => ?_⟩
    · exact ⟨text, _, htext, hthere, Option.some.inj hdir⟩
    · cases heq

lemma admits_mkdir (path : PathBuf) (now : DateTime) :
    rule.Admits (Op.program maxFileSize) (.mkdir path now) := by
  intro s htree
  refine goesOn_make rfl htree (.refl s) (fun text _ => rfl) ?_
  intro text s₁ s₂ htext _ _ hfree hthere
  refine .done ⟨fun _ _ _ => ⟨text, htext, hfree⟩, fun dir hdir _ _ => ?_, fun _ _ _ q heq => ?_⟩
  · exact ⟨text, _, htext, hthere, Option.some.inj hdir⟩
  · cases heq

lemma admits_write (path : PathBuf) (data : Bytes) (offset : Int64) (flags : WriteFlags)
    (now : DateTime) :
    rule.Admits (Op.program maxFileSize) (.write path data offset flags now) := by
  intro s htree
  refine goesOn_withText fun text htext => ?_
  refine goesOn_isDir (Looked.right (.self htext (.refl s))) fun s₁ row _ _ hrow => ?_
  split_ifs with hdir hlong
  · exact goesOn_wrongKind fun q heq => by cases heq
  · exact goesOn_wrongKind fun q heq => by cases heq
  · refine goesOn_query fun s₂ _ hmoved => ?_
    obtain ⟨row', hrow', hsame⟩ := hmoved text row hrow
    refine goesOn_update rfl htext hrow' (fun dir hkind => ?_) (fun _ => rfl) fun _ => rfl
    rw [← Option.some.inj hkind, hsame]
    exact Bool.eq_false_iff.2 hdir

lemma admits_truncate (path : PathBuf) (size : UInt64) (now : DateTime) :
    rule.Admits (Op.program maxFileSize) (.truncate path size now) := by
  intro s htree
  refine goesOn_withText fun text htext => ?_
  refine goesOn_isDir (Looked.right (.self htext (.refl s))) fun s₁ row _ _ hrow => ?_
  split_ifs with hdir
  · exact goesOn_wrongKind fun q heq => by cases heq
  · refine goesOn_fetchData fun s₂ row₂ _ hmoved hrow₂ => ?_
    obtain ⟨row', hrow', hsame⟩ := hmoved text row hrow
    refine goesOn_update rfl htext hrow' (fun dir hkind => ?_) (fun _ => rfl) fun _ => rfl
    rw [← Option.some.inj hkind, hsame]
    exact Bool.eq_false_iff.2 hdir

lemma admits_touch (path : PathBuf) (now createdAt : DateTime) :
    rule.Admits (Op.program maxFileSize) (.touch path now createdAt) := by
  intro s htree
  refine goesOn_withText fun text htext => ?_
  refine goesOn_exists? fun s₁ _ hmoved => ?_
  split_ifs with hfound
  · exact goesOn_update_of_kind rfl rfl (fun _ => rfl) fun _ => Or.inl rfl
  · refine goesOn_make rfl htree hmoved (fun text hmode => ?_) ?_
    · exact absurd hmode (isDirectory_newFile text createdAt)
    · intro _ s₂ s₃ _ _ _ _ _
      exact goesOn_update_of_kind rfl rfl (fun _ => rfl) fun _ => Or.inl rfl

lemma admits_chmod (path : PathBuf) {mode : UInt32} (now : DateTime)
    (hmode : ¬ mode &&& S_IFMT = S_IFDIR) :
    rule.Admits (Op.program maxFileSize) (.chmod path mode now) := by
  intro s htree
  refine goesOn_withText fun text htext => ?_
  refine goesOn_exists? fun s₁ _ hmoved => ?_
  cases hfound : s₁.files.contains text with
  | false =>
    refine goesOn_err fun t ht hthere => ?_
    obtain rfl := Outcome.ok.inj (htext.symm.trans ht)
    rw [hmoved.contains hthere] at hfound
    cases hfound
  | true =>
    refine goesOn_update_of_kind rfl rfl (fun _ => rfl) fun row => Or.inr ?_
    rwa [UInt32.toUInt32_toInt32]

lemma admits_read (path : PathBuf) (offset size : Int64) :
    rule.Admits (Op.program maxFileSize) (.read path offset size) := by
  intro s htree
  refine goesOn_withText fun text htext => ?_
  refine goesOn_isDir (Looked.right (.self htext (.refl s))) fun s₁ row _ _ hrow => ?_
  split_ifs with hdir
  · exact goesOn_wrongKind fun q heq => by cases heq
  · refine goesOn_fetchData fun s₂ row₂ _ hmoved hrow₂ => ?_
    obtain ⟨row', hrow', hsame⟩ := hmoved text row hrow
    refine .done (right_of_row rfl htext hrow' (fun dir hkind => ?_) fun q => ?_)
    · rw [← Option.some.inj hkind, hsame]
      exact Bool.eq_false_iff.2 hdir
    · rw [MemFs.MemFS.readData]
      split_ifs <;> exact fun heq => by cases heq

lemma admits_stat (path : PathBuf) : rule.Admits (Op.program maxFileSize) (.stat path) := by
  intro s htree
  refine goesOn_withText fun text htext => ?_
  refine goesOn_getMetadata (Looked.right (.self htext (.refl s))) fun s₁ row _ _ _ => ?_
  exact goesOn_ok rfl rfl

lemma admits_readDir (path : PathBuf) : rule.Admits (Op.program maxFileSize) (.readDir path) := by
  intro s htree
  refine goesOn_withText fun text htext => ?_
  refine goesOn_isDir (Looked.right (.self htext (.refl s))) fun s₁ row _ _ hrow => ?_
  cases hdir : row.isDir with
  | false => exact goesOn_wrongKind fun q heq => by cases heq
  | true =>
    refine goesOn_query fun s₂ _ hmoved => ?_
    obtain ⟨row', hrow', hsame⟩ := hmoved text row hrow
    refine .done (right_of_row rfl htext hrow' (fun dir hkind => ?_) fun q heq => ?_)
    · rw [hsame, hdir]
      exact Option.some.inj hkind
    · cases heq

/-- All calls but the removals keep the rule. -/
lemma admits_of_keeps {op : Op} (h : op.Keeps) : rule.Admits (Op.program maxFileSize) op := by
  cases op with
  | create path now => exact admits_create path now
  | mkdir path now => exact admits_mkdir path now
  | write path data offset flags now => exact admits_write path data offset flags now
  | truncate path size now => exact admits_truncate path size now
  | touch path now createdAt => exact admits_touch path now createdAt
  | chmod path mode now => exact admits_chmod path now h
  | read path offset size => exact admits_read path offset size
  | stat path => exact admits_stat path
  | readDir path => exact admits_readDir path
  | remove path => exact absurd h id
  | removeAll path => exact absurd h id

end Admits

/-- The text of the path that a call has made. -/
def madeText (ans : Answer Op PgsFS (Outcome Reply)) : Option Bytes :=
  match ans.op.makes, pathToStr ans.op.path, ans.answer with
  | true, .ok text, .ok _ => some text
  | _, _, _ => none

/-- What is known of the answers to all calls of a run that begins with the table of `fs₀`, when
the table is that of `fs`. -/
structure Answered (fs₀ : PgsFS) (answers : List (Answer Op PgsFS (Outcome Reply)))
    (fs : PgsFS) : Prop where
  /-- No path is made twice. -/
  nodup : (answers.filterMap madeText).Nodup
  /-- What has been made was not there, and stays there. -/
  made : ∀ text ∈ answers.filterMap madeText,
    fs₀.files.contains text = false ∧ fs.files.contains text = true
  /-- What calls have found, or made, is a directory or a file as it was for them. -/
  kind : ∀ ans ∈ answers, ∀ dir, ans.op.kind = some dir → ∀ r, ans.answer = .ok r →
    ∃ text row, pathToStr ans.op.path = .ok text ∧ fs.files.get? text = some row ∧ row.isDir = dir
  /-- What was there when a call began is found by it. -/
  found : ∀ ans ∈ answers, ∀ text, pathToStr ans.op.path = .ok text →
    ans.since.files.contains text = true → ∀ q, ans.answer ≠ .err (.NotFound q)

section Answers

variable {fs₀ fs fs' : PgsFS} {answers : List (Answer Op PgsFS (Outcome Reply))}

lemma madeText_eq_some {ans : Answer Op PgsFS (Outcome Reply)} {text : Bytes}
    (h : madeText ans = some text) :
    ans.op.makes = true ∧ pathToStr ans.op.path = .ok text ∧ ∃ r, ans.answer = .ok r := by
  obtain ⟨op, since, a⟩ := ans
  unfold madeText at h
  split at h
  · rename_i hmakes htext hanswer
    exact ⟨hmakes, Option.some.inj h ▸ htext, _, hanswer⟩
  · cases h

lemma Answered.moved (h : Answered fs₀ answers fs) (hmoved : Moved fs fs') :
    Answered fs₀ answers fs' := by
  refine ⟨h.nodup, fun text htext => ?_, fun ans hans dir hdir r hr => ?_, h.found⟩
  · exact ⟨(h.made text htext).1, hmoved.contains (h.made text htext).2⟩
  · obtain ⟨text, row, htext, hrow, hkind⟩ := h.kind ans hans dir hdir r hr
    obtain ⟨row', hrow', hsame⟩ := hmoved text row hrow
    exact ⟨text, row', htext, hrow', hsame.trans hkind⟩

/-- One more answer. -/
lemma Answered.add {op : Op} {since : PgsFS} {a : Outcome Reply} (hstart : Moved fs₀ fs)
    (hmoved : Moved fs fs') (h : Answered fs₀ answers fs) (hright : Right op since a fs fs') :
    Answered fs₀ (answers ++ [⟨op, since, a⟩]) fs' := by
  have hthen := h.moved hmoved
  -- what the new call has made was not there before, so no other call has made it
  have hnew : ∀ text, madeText ⟨op, since, a⟩ = some text →
      fs.files.contains text = false ∧ fs'.files.contains text = true := by
    intro text htext
    obtain ⟨hmakes, htext, r, hr⟩ := madeText_eq_some htext
    obtain ⟨text', htext', hfree⟩ := hright.made hmakes r hr
    have hkind : ∃ dir, op.kind = some dir := by
      cases op <;> first | exact ⟨_, rfl⟩ | cases hmakes
    obtain ⟨dir, hdir⟩ := hkind
    obtain ⟨text'', row, htext'', hrow, -⟩ := hright.kind dir hdir r hr
    obtain rfl := Outcome.ok.inj (htext.symm.trans htext')
    obtain rfl := Outcome.ok.inj (htext.symm.trans htext'')
    exact ⟨hfree, AssocMap.contains_iff.2 ⟨row, hrow⟩⟩
  have hlist : List.filterMap madeText (answers ++ [⟨op, since, a⟩]) =
      answers.filterMap madeText ++ (madeText ⟨op, since, a⟩).toList := by
    rw [List.filterMap_append]
    cases hlast : madeText ⟨op, since, a⟩ with
    | none => simp [hlast]
    | some text => simp [hlast]
  refine ⟨?_, fun text htext => ?_, fun ans hans => ?_, fun ans hans => ?_⟩
  · rw [hlist]
    cases hlast : madeText ⟨op, since, a⟩ with
    | none => simpa using h.nodup
    | some text =>
      refine List.nodup_append.2 ⟨h.nodup, List.nodup_singleton text, fun text' htext' _ hmem => ?_⟩
      obtain rfl := List.mem_singleton.1 hmem
      rintro rfl
      have hfree := (hnew _ hlast).1
      rw [(h.made _ htext').2] at hfree
      cases hfree
  · rw [hlist, List.mem_append, Option.mem_toList] at htext
    rcases htext with htext | htext
    · exact hthen.made text htext
    · obtain ⟨hfree, hthere⟩ := hnew text htext
      refine ⟨Bool.eq_false_iff.2 fun hbefore => ?_, hthere⟩
      rw [hstart.contains hbefore] at hfree
      cases hfree
  · rcases List.mem_append.1 hans with hans | hans
    · exact hthen.kind ans hans
    · obtain rfl := List.mem_singleton.1 hans
      exact hright.kind
  · rcases List.mem_append.1 hans with hans | hans
    · exact hthen.found ans hans
    · obtain rfl := List.mem_singleton.1 hans
      exact hright.found

end Answers

/-- The table of a new database. -/
def rootFs : PgsFS where
  fits _ _ := true
  files := (∅ : AssocMap Bytes FileRow).insert [slash]
    (.new true (S_IFDIR ||| 0o700 ||| 0o040 ||| 0o010 ||| 0o004 ||| 0o001) 0)

lemma tree_rootFs : Tree rootFs := by
  have hget : ∀ key row, rootFs.files.get? key = some row →
      key = [slash] ∧ row.isDir = true := by
    intro key row hrow
    rw [rootFs, AssocMap.get?_insert] at hrow
    split_ifs at hrow with hkey
    · exact ⟨(beq_iff_eq.1 hkey).symm, Option.some.inj hrow ▸ rfl⟩
    · cases hrow
  refine ⟨fun key hkey parent hparent => ?_, fun key row hrow _ => (hget key row hrow).2⟩
  obtain ⟨row, hrow⟩ := AssocMap.contains_iff.1 hkey
  rw [(hget key row hrow).1] at hparent
  cases hparent

/-- Two clients make the same path at the same time, and it is listed. -/
def twoMakers : List (Event Op) :=
  [.begin 0 (.create ⟨ascii "/a"⟩ 0), .begin 1 (.mkdir ⟨ascii "/a"⟩ 0), .next 0 .answered "",
    .next 1 .answered "", .next 1 .answered "", .next 0 .answered "duplicate key",
    .begin 0 (.readDir ⟨ascii "/a"⟩), .next 0 .answered "", .next 0 .answered ""]

/-- The directory of a file is removed between the statements that make the file. -/
def removedBetween : List (Event Op) :=
  [.begin 0 (.mkdir ⟨ascii "/d"⟩ 0), .next 0 .answered "", .next 0 .answered "",
    .begin 0 (.create ⟨ascii "/d/f"⟩ 0), .next 0 .answered "", .next 0 .answered "",
    .begin 1 (.remove ⟨ascii "/d"⟩), .next 1 .answered "", .next 1 .answered "",
    .next 1 .answered "", .next 1 .answered "", .next 0 .answered ""]

/-- With removals the parents are not kept, and all calls report success. -/
lemma orphan_of_removal :
    ∃ sys, run (System.step (Op.program 1024)) (.start rootFs) removedBetween = some sys ∧
      sys.answers.map (fun ans => ans.answer.isOk) = [true, true, true] ∧ ¬ Tree sys.shared := by
  have hrun : ∃ sys,
      run (System.step (Op.program 1024)) (.start rootFs) removedBetween = some sys ∧
        sys.answers.map (fun ans => ans.answer.isOk) = [true, true, true] ∧
        sys.shared.files.contains (ascii "/d/f") = true ∧
        sys.shared.files.get? (ascii "/d") = none := ⟨_, rfl, by decide, by decide, by decide⟩
  obtain ⟨sys, hsys, hanswers, hfile, hdir⟩ := hrun
  refine ⟨sys, hsys, hanswers, fun htree => ?_⟩
  rcases htree.parent _ hfile (ascii "/d") (by decide) with hroot | ⟨row, hrow, -⟩
  · exact absurd hroot (by decide)
  · rw [hdir] at hrow
    cases hrow

end Racfs.PgsFs
