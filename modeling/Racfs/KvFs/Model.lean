/-
# The key-value filesystem

`KvFS` (`racfs-plugin-kvfs`) stores files under their paths, without regard to directories: a
file can be created where there is no directory, and a directory is only a mark.  There are two
backends, and every operation is written once for each of them.  `KvMemory` has two tables,
one for the contents of the files and one for the metadata of files and directories, which are
keyed by paths.  `KvSqlite` has one table in a database, which is keyed by the texts of
the paths.

The operations that `KvFS` does not define fail and are left out, and so is what SQLite
says about the size of a row: no row is too big.
-/
import Racfs.Lib.Sql
import Racfs.MemFs.Model
import Mathlib.Data.List.DropRight

namespace Racfs.KvFs

/-! ### What both backends do with the content of a file -/

/-- The content of a file after a write.  The offset is compared as an unsigned number.  A write
into the file replaces as many bytes as it has, and panics when they are more than the
file has from there on. -/
def writeData (old data : Bytes) (offset : Int64) (flags : WriteFlags) : Outcome Bytes :=
  let start := offset.toUInt64.toNat
  if flags.containsAppend then .ok (old ++ data)
  else if start ≥ old.length then .ok (resize old start ++ data)
  else if start + data.length ≤ old.length then .ok (copyFromSlice old start data)
  else .panic

/-- The part of a file that a read returns; the same code as that of the filesystem in memory. -/
def readSlice (data : Bytes) (offset size : Int64) : Outcome Bytes :=
  MemFs.MemFS.readData data offset size

/-! ### The backend in memory -/

/-- `KvBackend::Memory`. -/
structure KvMemory where
  /-- The contents of the files. -/
  store : AssocMap PathBuf Bytes
  /-- The metadata of files and directories. -/
  metadata : AssocMap PathBuf FileMetadata

namespace KvMemory

/-- An empty filesystem. -/
def new : KvMemory := ⟨∅, ∅⟩

/-- A filesystem with some files. -/
def withData (data : AssocMap PathBuf Bytes) (now : DateTime) : KvMemory :=
  ⟨data, data.mapWithKey fun path d => FileMetadata.file path d.length.toUInt64 now⟩

/-- Create an empty file. -/
def create (fs : KvMemory) (path : PathBuf) (now : DateTime) : Outcome Reply × KvMemory :=
  if fs.store.contains path then (.err (.AlreadyExists path), fs)
  else (.ok .unit, ⟨fs.store.insert path [], fs.metadata.insert path (.file path 0 now)⟩)

/-- Create a directory; the permissions are not used. -/
def mkdir (fs : KvMemory) (path : PathBuf) (now : DateTime) : Outcome Reply × KvMemory :=
  if fs.metadata.contains path then (.err (.AlreadyExists path), fs)
  else (.ok .unit, { fs with metadata := fs.metadata.insert path (.directory path now) })

/-- Write data to a file. -/
def write (fs : KvMemory) (path : PathBuf) (data : Bytes) (offset : Int64) (flags : WriteFlags) :
    Outcome Reply × KvMemory :=
  match fs.store.get? path with
  | none => (.err (.NotFound path), fs)
  | some entry =>
    match writeData entry data offset flags with
    | .ok new =>
      (.ok (.written data.length.toUInt64),
        ⟨fs.store.modify path fun _ => new,
          fs.metadata.modify path fun m => { m with size := new.length.toUInt64 }⟩)
    | .err e => (.err e, fs)
    | .panic => (.panic, fs)

/-- Remove a path.  The metadata is removed only when there is no content. -/
def remove (fs : KvMemory) (path : PathBuf) : Outcome Reply × KvMemory :=
  if fs.store.contains path then (.ok .unit, { fs with store := fs.store.erase path })
  else if fs.metadata.contains path then
    (.ok .unit, { fs with metadata := fs.metadata.erase path })
  else (.err (.NotFound path), fs)

/-- Remove the files at and below a path. -/
def removeAll (fs : KvMemory) (path : PathBuf) : Outcome Reply × KvMemory :=
  let keys := fs.store.keys.filter fun p => p.startsWith path || p == path
  (.ok .unit,
    ⟨keys.foldl (fun m key => m.erase key) fs.store,
      keys.foldl (fun m key => m.erase key) fs.metadata⟩)

/-- Rename a file.  It is taken out first, and put back when the new path is a file.  The
metadata moves as it is, with its path. -/
def rename (fs : KvMemory) (oldPath newPath : PathBuf) : Outcome Reply × KvMemory :=
  match fs.store.get? oldPath with
  | none => (.err (.NotFound oldPath), fs)
  | some data =>
    let store := fs.store.erase oldPath
    match fs.metadata.get? oldPath with
    | none => (.err (.NotFound oldPath), { fs with store })
    | some m =>
      let metadata := fs.metadata.erase oldPath
      if store.contains newPath then
        (.err (.AlreadyExists newPath), ⟨store.insert oldPath data, metadata.insert oldPath m⟩)
      else (.ok .unit, ⟨store.insert newPath data, metadata.insert newPath m⟩)

/-- Set the permission bits. -/
def chmod (fs : KvMemory) (path : PathBuf) (mode : UInt32) : Outcome Reply × KvMemory :=
  if fs.metadata.contains path then
    (.ok .unit, { fs with metadata := fs.metadata.modify path fun m => m.setPermissions mode })
  else (.err (.NotFound path), fs)

/-- Read from a file. -/
def read (fs : KvMemory) (path : PathBuf) (offset size : Int64) : Outcome Bytes :=
  match fs.store.get? path with
  | none => .err (.NotFound path)
  | some data => readSlice data offset size

/-- The metadata of a path. -/
def stat (fs : KvMemory) (path : PathBuf) : Outcome FileMetadata :=
  match fs.metadata.get? path with
  | none => .err (.NotFound path)
  | some m => .ok m

/-- List what is directly below a path, by the texts of the stored paths. -/
def readDir (fs : KvMemory) (path : PathBuf) : List FileMetadata :=
  let pre := path.toStringLossy
  (fs.metadata.entries.filter fun e =>
    pre.isPrefixOf e.1.toStringLossy && e.1.toStringLossy != pre).filterMap fun e =>
      let relative := if pre = [] then e.1 else (e.1.stripPrefix ⟨pre⟩).getD e.1
      if relative.components.length = 1 then some e.2 else none

/-! The parts of the operations. -/

section Parts

variable {fs : KvMemory} {path : PathBuf}

lemma write_of_none (h : fs.store.get? path = none) (data : Bytes) (offset : Int64)
    (flags : WriteFlags) : fs.write path data offset flags = (.err (.NotFound path), fs) := by
  rw [write, h]

lemma write_of_some {entry : Bytes} (h : fs.store.get? path = some entry) (data : Bytes)
    (offset : Int64) (flags : WriteFlags) :
    fs.write path data offset flags =
      match writeData entry data offset flags with
      | .ok new =>
        (.ok (.written data.length.toUInt64),
          ⟨fs.store.modify path fun _ => new,
            fs.metadata.modify path fun m => { m with size := new.length.toUInt64 }⟩)
      | .err e => (.err e, fs)
      | .panic => (.panic, fs) := by
  rw [write, h]

lemma remove_of_file (h : fs.store.contains path = true) :
    fs.remove path = (.ok .unit, { fs with store := fs.store.erase path }) := by
  rw [remove, if_pos h]

lemma remove_of_not_file (h : fs.store.contains path = false) :
    fs.remove path =
      if fs.metadata.contains path then
        (.ok .unit, { fs with metadata := fs.metadata.erase path })
      else (.err (.NotFound path), fs) := by
  rw [remove, h, if_neg Bool.false_ne_true]

lemma rename_of_none (h : fs.store.get? path = none) (newPath : PathBuf) :
    fs.rename path newPath = (.err (.NotFound path), fs) := by
  rw [rename, h]

lemma rename_of_some {data : Bytes} {m : FileMetadata} (h : fs.store.get? path = some data)
    (hm : fs.metadata.get? path = some m) (newPath : PathBuf) :
    fs.rename path newPath =
      if (fs.store.erase path).contains newPath then
        (.err (.AlreadyExists newPath),
          ⟨(fs.store.erase path).insert path data, (fs.metadata.erase path).insert path m⟩)
      else
        (.ok .unit,
          ⟨(fs.store.erase path).insert newPath data,
            (fs.metadata.erase path).insert newPath m⟩) := by
  rw [rename, h]
  simp only [hm]

end Parts

end KvMemory

/-! ### The backend in a database -/

/-- A row of the table `kvfs`. -/
structure KvRow where
  data : Bytes
  isDir : Bool
  mode : UInt32

/-- `KvBackend::Sqlite`: the table `kvfs`. -/
structure KvSqlite where
  rows : AssocMap Bytes KvRow

/-- The metadata of a row, whose file type is in the mode. -/
def KvRow.metadata (path : Bytes) (row : KvRow) : FileMetadata :=
  ⟨⟨path⟩, if row.isDir then 0 else row.data.length.toUInt64, row.mode, none, none, none, false,
    none⟩

namespace KvSqlite

/-- A new database: only the root directory. -/
def new : KvSqlite := ⟨(∅ : AssocMap Bytes KvRow).insert [slash] ⟨[], true, S_IFDIR ||| 0o755⟩⟩

/-- No row is too big. -/
def fits (_ : Bytes) (_ : KvRow) : Bool := true

/-- Go on with the text of a path. -/
def withPath (fs : KvSqlite) (path : PathBuf) (f : Bytes → Outcome Reply × KvSqlite) :
    Outcome Reply × KvSqlite :=
  match pathToStr path with
  | .ok text => f text
  | .err e => (.err e, fs)
  | .panic => (.panic, fs)

/-- Run a statement that changes the table. -/
def execute (fs : KvSqlite) (what : String) (r : Reply)
    (stmt : Except Sql.SqlError (AssocMap Bytes KvRow)) : Outcome Reply × KvSqlite :=
  match stmt with
  | .ok rows => (.ok r, ⟨rows⟩)
  | .error e => (.err (.Io ("Failed to " ++ what ++ ": " ++ e.message "kvfs.path")), fs)

/-- Create an empty file. -/
def create (fs : KvSqlite) (path : PathBuf) : Outcome Reply × KvSqlite :=
  fs.withPath path fun text =>
    fs.execute "create" .unit (Sql.insertRow fits fs.rows text ⟨[], false, S_IFREG ||| 0o644⟩)

/-- Create a directory; the permissions are not used. -/
def mkdir (fs : KvSqlite) (path : PathBuf) : Outcome Reply × KvSqlite :=
  fs.withPath path fun text =>
    fs.execute "mkdir" .unit (Sql.insertRow fits fs.rows text ⟨[], true, S_IFDIR ||| 0o755⟩)

/-- The row of a file. -/
def fileRow (fs : KvSqlite) (text : Bytes) : Option KvRow :=
  (fs.rows.get? text).filter fun row => !row.isDir

/-- Write data to a file. -/
def write (fs : KvSqlite) (path : PathBuf) (data : Bytes) (offset : Int64) (flags : WriteFlags) :
    Outcome Reply × KvSqlite :=
  fs.withPath path fun text =>
    match fs.fileRow text with
    | none => (.err (.NotFound path), fs)
    | some row =>
      match writeData row.data data offset flags with
      | .ok new =>
        fs.execute "write" (.written data.length.toUInt64)
          (Sql.updateRow fits fs.rows text fun row => { row with data := new })
      | .err e => (.err e, fs)
      | .panic => (.panic, fs)

/-- Remove a path. -/
def remove (fs : KvSqlite) (path : PathBuf) : Outcome Reply × KvSqlite :=
  fs.withPath path fun text =>
    if fs.rows.contains text then (.ok .unit, ⟨fs.rows.erase text⟩)
    else (.err (.NotFound path), fs)

/-- Whether the statement that removes everything at and below a path removes a row. -/
def selects (text key : Bytes) : Bool :=
  key == text || Sql.like key (text.rdropWhile (· == slash) ++ slash :: Sql.percent)

/-- Remove everything at and below a path. -/
def removeAll (fs : KvSqlite) (path : PathBuf) : Outcome Reply × KvSqlite :=
  fs.withPath path fun text => (.ok .unit, ⟨fs.rows.retain fun key _ => !selects text key⟩)

/-- Rename a file or directory. -/
def rename (fs : KvSqlite) (oldPath newPath : PathBuf) : Outcome Reply × KvSqlite :=
  fs.withPath oldPath fun oldText =>
    fs.withPath newPath fun newText =>
      if fs.rows.contains newText then (.err (.AlreadyExists newPath), fs)
      else if fs.rows.contains oldText then
        fs.execute "rename" .unit (Sql.moveRow fits fs.rows oldText newText)
      else (.err (.NotFound oldPath), fs)

/-- Set the permission bits. -/
def chmod (fs : KvSqlite) (path : PathBuf) (mode : UInt32) : Outcome Reply × KvSqlite :=
  fs.withPath path fun text =>
    match fs.rows.get? text with
    | none => (.err (.NotFound path), fs)
    | some row =>
      let newMode := (row.mode &&& 0o170000) ||| (mode &&& 0o777)
      fs.execute "chmod" .unit
        (Sql.updateRow fits fs.rows text fun row => { row with mode := newMode })

/-- Read from a file. -/
def read (fs : KvSqlite) (path : PathBuf) (offset size : Int64) : Outcome Bytes :=
  (pathToStr path).bind fun text =>
    match fs.fileRow text with
    | none => .err (.NotFound path)
    | some row => readSlice row.data offset size

/-- The metadata of a path. -/
def stat (fs : KvSqlite) (path : PathBuf) : Outcome FileMetadata :=
  (pathToStr path).bind fun text =>
    match fs.rows.get? text with
    | none => .err (.NotFound path)
    | some row => .ok (row.metadata text)

/-- List what is directly below a path.  The pattern also selects rows elsewhere; these have a
separator in what is left of their path. -/
def readDir (fs : KvSqlite) (path : PathBuf) : Outcome (List FileMetadata) :=
  (pathToStr path).map fun text =>
    let base := if text = [slash] then [slash] else text.rdropWhile (· == slash) ++ [slash]
    (fs.rows.entries.filter fun e => Sql.like e.1 (base ++ Sql.percent) && e.1 != text).filterMap
      fun e =>
        let rest := if base.isPrefixOf e.1 then e.1.drop base.length else e.1
        if slash ∈ rest then none else some (e.2.metadata e.1)

/-! The statements, for the path of an entry. -/

lemma withPath_toPath (fs : KvSqlite) (p : EntryPath) (f : Bytes → Outcome Reply × KvSqlite) :
    fs.withPath p.toPath f = f p.text := by
  rw [withPath, pathToStr_toPath]

/-- The error of an insertion of a path that is in use. -/
def insertError (what : String) : FSError :=
  .Io ("Failed to " ++ what ++ ": " ++ Sql.SqlError.unique.message "kvfs.path")

lemma execute_insertRow (fs : KvSqlite) (what : String) (r : Reply) (text : Bytes) (row : KvRow) :
    fs.execute what r (Sql.insertRow fits fs.rows text row) =
      if fs.rows.contains text then (.err (insertError what), fs)
      else (.ok r, ⟨fs.rows.insert text row⟩) := by
  rw [Sql.insertRow_of_fits rfl]
  split_ifs <;> rfl

lemma execute_updateRow (fs : KvSqlite) (what : String) (r : Reply) (text : Bytes)
    (f : KvRow → KvRow) :
    fs.execute what r (Sql.updateRow fits fs.rows text f) = (.ok r, ⟨fs.rows.modify text f⟩) := by
  rw [Sql.updateRow_of_fits fun _ => rfl]
  rfl

end KvSqlite

/-! ### The operations -/

/-- A call of an operation, for paths of some kind. -/
inductive KvOp (P : Type*)
  | create (path : P)
  | mkdir (path : P) (perm : UInt32)
  | write (path : P) (data : Bytes) (offset : Int64) (flags : WriteFlags)
  | remove (path : P)
  | removeAll (path : P)
  | rename (oldPath newPath : P)
  | chmod (path : P) (mode : UInt32)
  | read (path : P) (offset size : Int64)
  | stat (path : P)
  | readDir (path : P)

/-- The result and the new tables of a call. -/
def KvMemory.exec (fs : KvMemory) (now : DateTime) : KvOp PathBuf → Outcome Reply × KvMemory
  | .create path => fs.create path now
  | .mkdir path _ => fs.mkdir path now
  | .write path data offset flags => fs.write path data offset flags
  | .remove path => fs.remove path
  | .removeAll path => fs.removeAll path
  | .rename oldPath newPath => fs.rename oldPath newPath
  | .chmod path mode => fs.chmod path mode
  | .read path offset size => ((fs.read path offset size).map .data, fs)
  | .stat path => ((fs.stat path).map .metadata, fs)
  | .readDir path => (.ok (.entries (fs.readDir path)), fs)

/-- The result and the new table of a call. -/
def KvSqlite.exec (fs : KvSqlite) : KvOp PathBuf → Outcome Reply × KvSqlite
  | .create path => fs.create path
  | .mkdir path _ => fs.mkdir path
  | .write path data offset flags => fs.write path data offset flags
  | .remove path => fs.remove path
  | .removeAll path => fs.removeAll path
  | .rename oldPath newPath => fs.rename oldPath newPath
  | .chmod path mode => fs.chmod path mode
  | .read path offset size => ((fs.read path offset size).map .data, fs)
  | .stat path => ((fs.stat path).map .metadata, fs)
  | .readDir path => ((fs.readDir path).map .entries, fs)

end Racfs.KvFs
