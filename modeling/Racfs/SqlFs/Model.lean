/-
# The filesystem in a SQL database

`SqlFS` (`racfs-plugin-sqlfs`) has one row for every file and directory, with its path as the
primary key.  A directory is a row of its own, but what is in it is found by the texts of the
paths: everything that matches the path, a separator and `%`.  The connection is locked for every
statement; an operation that makes several statements is not a transaction, so an error of
the second one leaves what the first one did.

The time is an argument.  The index on `is_dir` and the connection string are left out, and
what the database says about the size of a row is a parameter.
-/
import Racfs.Lib.Sql
import Racfs.MemFs.Model
import Mathlib.Data.List.DropRight

namespace Racfs.SqlFs

/-- The configuration. -/
structure SqlConfig where
  /-- The maximum size of a file in bytes. -/
  maxFileSize : ℕ

/-- The default configuration: 5 MB. -/
def SqlConfig.default : SqlConfig := ⟨5 * 1024 * 1024⟩

/-- A row of the table `files`. -/
structure FileRow where
  data : Option Bytes
  isDir : Bool
  mode : UInt32
  /-- The times in milliseconds. -/
  createdAt : Option ℤ
  modifiedAt : Option ℤ
  accessedAt : Option ℤ

namespace FileRow

/-- The content of a row. -/
def content (row : FileRow) : Bytes := row.data.getD []

/-- A new row. -/
def new (isDir : Bool) (mode : UInt32) (now : DateTime) : FileRow :=
  let ms := FileMetadata.ms now
  ⟨some [], isDir, mode, some ms, some ms, some ms⟩

/-- The row after its content has been replaced by a write. -/
def written (row : FileRow) (data : Bytes) (now : DateTime) : FileRow :=
  let ms := FileMetadata.ms now
  { row with data := some data, modifiedAt := some ms, accessedAt := some ms }

/-- The row after its content has been cut off or padded. -/
def truncated (row : FileRow) (data : Bytes) (now : DateTime) : FileRow :=
  { row with data := some data, modifiedAt := some (FileMetadata.ms now) }

/-- The row after its times have been set. -/
def touched (row : FileRow) (now : DateTime) : FileRow :=
  let ms := FileMetadata.ms now
  { row with accessedAt := some ms, modifiedAt := some ms }

/-- The row after its mode has been replaced, with the file type in it. -/
def chmodded (row : FileRow) (mode : UInt32) (now : DateTime) : FileRow :=
  { row with mode, modifiedAt := some (FileMetadata.ms now) }

/-- The metadata of a row. -/
def metadata (text : Bytes) (row : FileRow) : FileMetadata :=
  let time := fun t : Option ℤ => t.map fun ms => ms * 1000000
  ⟨⟨text⟩, row.content.length.toUInt64, row.mode, time row.createdAt, time row.modifiedAt,
    time row.accessedAt, false, none⟩

end FileRow

/-- The filesystem: its configuration and the table `files`. -/
structure SqlFS where
  config : SqlConfig
  /-- Whether the database takes a row of this size under this path. -/
  fits : Bytes → FileRow → Bool
  files : AssocMap Bytes FileRow

namespace SqlFS

/-- A new database: only the root directory. -/
def new (config : SqlConfig) (fits : Bytes → FileRow → Bool) (now : DateTime) : SqlFS :=
  ⟨config, fits, (∅ : AssocMap Bytes FileRow).insert [slash]
    (.new true (S_IFDIR ||| 0o700 ||| 0o040 ||| 0o010 ||| 0o004 ||| 0o001) now)⟩

/-! ### Parts of the operations -/

/-- Go on after a check, which leaves the table as it is. -/
def check {α : Type*} (fs : SqlFS) (x : Outcome α) (f : α → Outcome Reply × SqlFS) :
    Outcome Reply × SqlFS :=
  match x with
  | .ok a => f a
  | .err e => (.err e, fs)
  | .panic => (.panic, fs)

/-- Run a statement and go on with the table that it leaves. -/
def execute (fs : SqlFS) (what : String)
    (stmt : Except Sql.SqlError (AssocMap Bytes FileRow)) (f : SqlFS → Outcome Reply × SqlFS) :
    Outcome Reply × SqlFS :=
  match stmt with
  | .ok files => f { fs with files }
  | .error e => (.err (.Io ("Failed to " ++ what ++ ": " ++ e.message "files.path")), fs)

section Parts

variable {fs : SqlFS} {P : SqlFS → Prop}

/-- What holds before a check and after what follows it. -/
lemma of_check {α : Type*} {x : Outcome α} {f : α → Outcome Reply × SqlFS} (h : P fs)
    (hf : ∀ a, x = .ok a → P (f a).2) : P (fs.check x f).2 := by
  cases hx : x with
  | ok a => exact hf a hx
  | err e => exact h
  | panic => exact h

/-- What holds when a statement fails and after what follows it. -/
lemma of_execute {what : String} {stmt : Except Sql.SqlError (AssocMap Bytes FileRow)}
    {f : SqlFS → Outcome Reply × SqlFS} (h : ∀ e, stmt = .error e → P fs)
    (hf : ∀ files, stmt = .ok files → P (f { fs with files }).2) :
    P (fs.execute what stmt f).2 := by
  cases hstmt : stmt with
  | ok files => exact hf files hstmt
  | error e => exact h e hstmt

end Parts

/-- The metadata of a stored path. -/
def getMetadata (fs : SqlFS) (text : Bytes) : Outcome FileMetadata :=
  match fs.files.get? text with
  | none => .err (.NotFound ⟨text⟩)
  | some row => .ok (row.metadata text)

/-- Whether a path is stored. -/
def exists? (fs : SqlFS) (text : Bytes) : Bool := fs.files.contains text

/-- The text of the parent of an absolute path.  It is a part of the text of the path: only at
its end are redundant separators and `.` removed. -/
def parentText (text : Bytes) : Option Bytes :=
  let trim := fun ps : List Bytes => ps.rdropWhile fun piece => Component.parse piece = none
  match trim (text.tail.splitOn slash) with
  | [] => none
  | piece :: pieces => some (slash :: [slash].intercalate (trim (piece :: pieces).dropLast))

/-- The check that the parent of a path is a directory, by its mode; the root is not looked
up. -/
def ensureParentExists (fs : SqlFS) (text : Bytes) : Outcome Unit :=
  match parentText text with
  | none => .ok ()
  | some parent =>
    if parent = [slash] then .ok ()
    else
      (fs.getMetadata parent).bind fun m =>
        if m.isDirectory then .ok () else .err (.NotADirectory ⟨parent⟩)

/-- Whether a path is a directory, by its column. -/
def isDir (fs : SqlFS) (text : Bytes) : Outcome Bool :=
  match fs.files.get? text with
  | none => .err (.NotFound ⟨text⟩)
  | some row => .ok row.isDir

/-- Whether a path matches the pattern for what is below a directory. -/
def below (text key : Bytes) : Bool := Sql.like key (text ++ slash :: Sql.percent)

/-! ### Files -/

/-- Create an empty file. -/
def create (fs : SqlFS) (path : PathBuf) (now : DateTime) : Outcome Reply × SqlFS :=
  fs.check (pathToStr path) fun text =>
    fs.check (fs.ensureParentExists text) fun _ =>
      if fs.exists? text then (.err (.AlreadyExists path), fs)
      else
        let row := FileRow.new false (S_IFREG ||| 0o700 ||| 0o040 ||| 0o004) now
        fs.execute "create file" (Sql.insertRow fs.fits fs.files text row) fun fs =>
          (.ok .unit, fs)

/-- The content of a file after a write.  The flag for a write that replaces the whole content
is not one of the flags of a write: dropped to no bits, every write has it. -/
def writeData (old data : Bytes) (offset : Int64) (flags : WriteFlags) : Bytes :=
  let isTruncate := flags.contains (WriteFlags.fromBitsTruncate 0x0020)
  if flags.containsAppend ∨ offset.toUInt64.toNat ≥ old.length then
    let stop := (max offset 0).toUInt64.toNat
    (if stop > old.length then resize old stop else old) ++ data
  else if isTruncate ∨ offset ≤ 0 then data
  else
    let start := offset.toUInt64.toNat
    let padded := if start > old.length then resize old start else old
    let grown :=
      if start + data.length > padded.length then resize padded (start + data.length) else padded
    copyFromSlice grown start data

/-- Write data to a file. -/
def write (fs : SqlFS) (path : PathBuf) (data : Bytes) (offset : Int64) (flags : WriteFlags)
    (now : DateTime) : Outcome Reply × SqlFS :=
  fs.check (pathToStr path) fun text =>
    fs.check (fs.isDir text) fun dir =>
      if dir then (.err (.IsDirectory path), fs)
      else if data.length > fs.config.maxFileSize then (.err .StorageFull, fs)
      else
        let existing := ((fs.files.get? text).map FileRow.content).getD []
        let new := writeData existing data offset flags
        fs.execute "write" (Sql.updateRow fs.fits fs.files text fun row => row.written new now)
          fun fs => (.ok (.written data.length.toUInt64), fs)

/-- Cut off or pad a file. -/
def truncate (fs : SqlFS) (path : PathBuf) (size : UInt64) (now : DateTime) :
    Outcome Reply × SqlFS :=
  fs.check (pathToStr path) fun text =>
    fs.check (fs.isDir text) fun dir =>
      if dir then (.err (.IsDirectory path), fs)
      else
        let existing := ((fs.files.get? text).map FileRow.content).getD []
        let new :=
          if size.toNat < existing.length then existing.take size.toNat
          else resize existing size.toNat
        fs.execute "truncate"
          (Sql.updateRow fs.fits fs.files text fun row => row.truncated new now)
          fun fs => (.ok .unit, fs)

/-- Set the times of a path, or create an empty file. -/
def touch (fs : SqlFS) (path : PathBuf) (now : DateTime) : Outcome Reply × SqlFS :=
  fs.check (pathToStr path) fun text =>
    let setTimes := fun fs : SqlFS =>
      fs.execute "touch" (Sql.updateRow fs.fits fs.files text fun row => row.touched now)
        fun fs => (.ok .unit, fs)
    if fs.exists? text then setTimes fs
    else
      match fs.create path now with
      | (.ok _, fs) => setTimes fs
      | failed => failed

/-- Replace the mode of a path, its file type included. -/
def chmod (fs : SqlFS) (path : PathBuf) (mode : UInt32) (now : DateTime) :
    Outcome Reply × SqlFS :=
  fs.check (pathToStr path) fun text =>
    if fs.exists? text then
      fs.execute "chmod" (Sql.updateRow fs.fits fs.files text fun row => row.chmodded mode now)
        fun fs => (.ok .unit, fs)
    else (.err (.NotFound path), fs)

/-- Read from a file. -/
def read (fs : SqlFS) (path : PathBuf) (offset size : Int64) : Outcome Bytes :=
  (pathToStr path).bind fun text =>
    (fs.isDir text).bind fun dir =>
      if dir then .err (.IsDirectory path)
      else
        MemFs.MemFS.readData (((fs.files.get? text).map FileRow.content).getD []) offset size

/-- The metadata of a path. -/
def stat (fs : SqlFS) (path : PathBuf) : Outcome FileMetadata :=
  (pathToStr path).bind fs.getMetadata

/-! ### Directories -/

/-- Create a directory; the permissions are not used. -/
def mkdir (fs : SqlFS) (path : PathBuf) (now : DateTime) : Outcome Reply × SqlFS :=
  fs.check (pathToStr path) fun text =>
    fs.check (fs.ensureParentExists text) fun _ =>
      if fs.exists? text then (.err (.AlreadyExists path), fs)
      else
        let mode := S_IFDIR ||| 0o700 ||| 0o040 ||| 0o010 ||| 0o004 ||| 0o001
        fs.execute "create directory"
          (Sql.insertRow fs.fits fs.files text (FileRow.new true mode now)) fun fs =>
          (.ok .unit, fs)

/-- List a directory: of what matches the pattern, the paths with no separator in what is left
of them, and for the root those with one separator. -/
def readDir (fs : SqlFS) (path : PathBuf) : Outcome (List FileMetadata) :=
  (pathToStr path).bind fun text =>
    (fs.isDir text).bind fun dir =>
      if !dir then .err (.NotADirectory path)
      else
        let pattern := if text = [slash] then slash :: Sql.percent else text ++ slash :: Sql.percent
        .ok ((fs.files.entries.filter fun e => Sql.like e.1 pattern).filterMap fun e =>
          let fullPath : PathBuf := ⟨e.1⟩
          let relative :=
            if text = [slash] then fullPath else (fullPath.stripPrefix ⟨text⟩).getD fullPath
          let direct :=
            if text = [slash] then relative.toStringLossy.count slash = 1
            else slash ∉ relative.toStringLossy
          if direct then some (e.2.metadata e.1) else none)

/-- Remove a file or an empty directory. -/
def remove (fs : SqlFS) (path : PathBuf) : Outcome Reply × SqlFS :=
  fs.check (pathToStr path) fun text =>
    if !fs.exists? text then (.err (.NotFound path), fs)
    else
      fs.check (fs.isDir text) fun dir =>
        if dir ∧ fs.files.keys.any (below text) then (.err .DirectoryNotEmpty, fs)
        else (.ok .unit, { fs with files := fs.files.erase text })

/-- Remove a path and everything below it. -/
def removeAll (fs : SqlFS) (path : PathBuf) : Outcome Reply × SqlFS :=
  fs.check (pathToStr path) fun text =>
    if !fs.exists? text then (.err (.NotFound path), fs)
    else
      (.ok .unit,
        { fs with files := fs.files.retain fun key _ => !(key == text || below text key) })

/-- The new path of something below a renamed directory.  The length of the old path is in
bytes, but `SUBSTR` counts characters. -/
def movedText (oldText newText key : Bytes) : Bytes :=
  newText ++ Sql.substr key (oldText.length + 1)

/-- Rename a file, or a directory with what is below it. -/
def rename (fs : SqlFS) (oldPath newPath : PathBuf) : Outcome Reply × SqlFS :=
  fs.check (pathToStr oldPath) fun oldText =>
    fs.check (pathToStr newPath) fun newText =>
      if !fs.exists? oldText then (.err (.NotFound oldPath), fs)
      else if fs.exists? newText then (.err (.AlreadyExists newPath), fs)
      else
        fs.check (fs.isDir oldText) fun dir =>
          if dir then
            fs.execute "move directory children"
              (Sql.moveRows fs.fits fs.files (fs.files.keys.filter (below oldText))
                (movedText oldText newText)) fun fs =>
              fs.execute "move directory" (Sql.moveRow fs.fits fs.files oldText newText) fun fs =>
                (.ok .unit, fs)
          else
            fs.execute "rename" (Sql.moveRow fs.fits fs.files oldText newText) fun fs =>
              (.ok .unit, fs)

end SqlFS

/-! ### The operations -/

/-- A call of an operation. -/
inductive SqlOp
  | create (path : PathBuf)
  | write (path : PathBuf) (data : Bytes) (offset : Int64) (flags : WriteFlags)
  | truncate (path : PathBuf) (size : UInt64)
  | touch (path : PathBuf)
  | chmod (path : PathBuf) (mode : UInt32)
  | mkdir (path : PathBuf) (perm : UInt32)
  | remove (path : PathBuf)
  | removeAll (path : PathBuf)
  | rename (oldPath newPath : PathBuf)
  | read (path : PathBuf) (offset size : Int64)
  | stat (path : PathBuf)
  | readDir (path : PathBuf)

/-- The result and the new table of a call. -/
def SqlFS.exec (fs : SqlFS) (now : DateTime) : SqlOp → Outcome Reply × SqlFS
  | .create path => fs.create path now
  | .write path data offset flags => fs.write path data offset flags now
  | .truncate path size => fs.truncate path size now
  | .touch path => fs.touch path now
  | .chmod path mode => fs.chmod path mode now
  | .mkdir path _ => fs.mkdir path now
  | .remove path => fs.remove path
  | .removeAll path => fs.removeAll path
  | .rename oldPath newPath => fs.rename oldPath newPath
  | .read path offset size => ((fs.read path offset size).map .data, fs)
  | .stat path => ((fs.stat path).map .metadata, fs)
  | .readDir path => ((fs.readDir path).map .entries, fs)

end Racfs.SqlFs
