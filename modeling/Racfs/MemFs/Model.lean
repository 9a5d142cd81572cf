/-
# The in-memory filesystem

`MemFS` (`racfs-plugin-memfs`) keeps all its files and directories in one table from paths to
entries, and the extended attributes in a second one.  There are no directory nodes: a
directory contains what the table has below its path.  Every operation is one function from
the tables to its result and the new tables; the time is an argument.  Sizes are not bounded
by the memory of a machine.

The counters that the operations feed to the metrics registry are left out.
-/
import Racfs.Core

namespace Racfs.MemFs

/-- A file, directory or link. -/
structure FileEntry where
  data : Bytes
  metadata : FileMetadata
  isSymlink : Bool
  symlinkTarget : Option PathBuf

/-- The two tables. -/
structure MemFS where
  files : AssocMap PathBuf FileEntry
  /-- The extended attributes: from paths to names to values. -/
  xattrs : AssocMap PathBuf (AssocMap Bytes Bytes)

namespace MemFS

/-- The path `/`. -/
def rootPath : PathBuf := ⟨[slash]⟩

/-- The entry of a new directory. -/
def directoryEntry (path : PathBuf) (perm : UInt32) (now : DateTime) : FileEntry :=
  ⟨[], (FileMetadata.directory path now).setPermissions perm, false, none⟩

/-- The entry of a new file. -/
def fileEntry (path : PathBuf) (now : DateTime) : FileEntry :=
  ⟨[], FileMetadata.file path 0 now, false, none⟩

/-- The entry of a new link. -/
def symlinkEntry (target link : PathBuf) (now : DateTime) : FileEntry :=
  ⟨[], FileMetadata.symlink link target now, true, some target⟩

/-- Add an entry for a path that is not in use; the last part of `mkdir`, `create` and
`symlink`. -/
def addEntry (fs : MemFS) (path : PathBuf) (e : FileEntry) : Outcome Reply × MemFS :=
  if fs.files.contains path then (.err (.AlreadyExists path), fs)
  else (.ok .unit, { fs with files := fs.files.insert path e })

/-- A filesystem with only the root directory. -/
def new (now : DateTime) : MemFS :=
  (addEntry ⟨∅, ∅⟩ rootPath (directoryEntry rootPath 0o755 now)).2

/-- The entry of a path. -/
def getEntry (fs : MemFS) (path : PathBuf) : Outcome FileEntry :=
  match fs.files.get? path with
  | none => .err (.NotFound path)
  | some e => .ok e

/-- The check that the parent of a path is a directory; the root is not looked up. -/
def ensureParentExists (fs : MemFS) (path : PathBuf) : Outcome Unit :=
  match path.parent with
  | none => .ok ()
  | some parent =>
    if parent.bytes = [slash] then .ok ()
    else
      match fs.files.get? parent with
      | none => .err (.NotFound parent)
      | some e => if e.metadata.isDirectory then .ok () else .err (.NotADirectory parent)

/-- Go on after a check of the tables, which stay as they are when it fails. -/
def check {α : Type*} (fs : MemFS) (x : Outcome α) (f : α → Outcome Reply × MemFS) :
    Outcome Reply × MemFS :=
  match x with
  | .ok a => f a
  | .err e => (.err e, fs)
  | .panic => (.panic, fs)

/-- Change the entry of a path; the common part of `write`, `truncate` and `chmod`. -/
def updateEntry (fs : MemFS) (path : PathBuf) (f : FileEntry → Outcome (Reply × FileEntry)) :
    Outcome Reply × MemFS :=
  fs.check (fs.getEntry path) fun e =>
    fs.check (f e) fun r => (.ok r.1, { fs with files := fs.files.modify path fun _ => r.2 })

/-! ### Files -/

/-- Create an empty file. -/
def create (fs : MemFS) (path : PathBuf) (now : DateTime) : Outcome Reply × MemFS :=
  fs.check (fs.ensureParentExists path) fun _ => fs.addEntry path (fileEntry path now)

/-- The content of a file after a write.  The offset is compared as an unsigned number, so a
negative one is past the end. -/
def writeData (old data : Bytes) (offset : Int64) (flags : WriteFlags) : Bytes :=
  if flags.containsAppend ∨ offset.toUInt64.toNat ≥ old.length then
    -- in append mode the offset still pads the file
    let stop := (max offset 0).toUInt64.toNat
    (if stop > old.length then resize old stop else old) ++ data
  -- a write at the start replaces the whole content, however short it is
  else if offset ≤ 0 then data
  else
    let start := offset.toUInt64.toNat
    let padded := if start > old.length then resize old start else old
    let grown :=
      if start + data.length > padded.length then resize padded (start + data.length) else padded
    copyFromSlice grown start data

/-- Write data to a file. -/
def write (fs : MemFS) (path : PathBuf) (data : Bytes) (offset : Int64) (flags : WriteFlags)
    (now : DateTime) : Outcome Reply × MemFS :=
  fs.updateEntry path fun e =>
    if e.metadata.isDirectory then .err (.IsDirectory path)
    else
      let new := writeData e.data data offset flags
      .ok (.written data.length.toUInt64,
        { e with
          data := new
          metadata := { e.metadata with size := new.length.toUInt64, modified := some now } })

/-- Cut off or pad a file. -/
def truncate (fs : MemFS) (path : PathBuf) (size : UInt64) (now : DateTime) :
    Outcome Reply × MemFS :=
  fs.updateEntry path fun e =>
    if e.metadata.isDirectory then .err (.IsDirectory path)
    else
      .ok (.unit,
        { e with
          data := resize e.data size.toNat
          metadata := { e.metadata with size := size, modified := some now } })

/-- Set the times of an entry, or create an empty file. -/
def touch (fs : MemFS) (path : PathBuf) (now : DateTime) : Outcome Reply × MemFS :=
  match fs.files.get? path with
  | some e =>
    (.ok .unit,
      { fs with files := fs.files.modify path fun _ =>
          { e with metadata := { e.metadata with accessed := some now, modified := some now } } })
  | none => (.ok .unit, { fs with files := fs.files.insert path (fileEntry path now) })

/-- Set the permission bits. -/
def chmod (fs : MemFS) (path : PathBuf) (mode : UInt32) (now : DateTime) :
    Outcome Reply × MemFS :=
  fs.updateEntry path fun e =>
    .ok (.unit,
      { e with metadata := { e.metadata.setPermissions mode with modified := some now } })

/-- The part of a file that a read returns.  The end is computed in signed arithmetic, and a
slice whose ends are out of order or out of range panics. -/
def readData (data : Bytes) (offset size : Int64) : Outcome Bytes :=
  let start := (max offset 0).toUInt64.toNat
  let stop :=
    if size < 0 then data.length
    else (min (offset + size) (Int64.ofNat data.length)).toUInt64.toNat
  if start ≥ data.length then .ok []
  else if start ≤ stop ∧ stop ≤ data.length then .ok ((data.take stop).drop start)
  else .panic

lemma readData_whole (data : Bytes) : readData data 0 (-1) = .ok data := by
  have hstart : (max (0 : Int64) 0).toUInt64.toNat = 0 := by decide
  cases data with
  | nil => rfl
  | cons b bs => simp [readData, hstart]

/-- Read from a file, through at most `fuel` links. -/
def readAux (fs : MemFS) (offset size : Int64) : ℕ → PathBuf → Outcome Bytes
  | 0, _ => .panic
  | fuel + 1, path =>
    (fs.getEntry path).bind fun e =>
      if e.metadata.isDirectory then .err (.IsDirectory path)
      else
        match e.isSymlink, e.symlinkTarget with
        | true, some target => readAux fs offset size fuel target
        | _, _ => readData e.data offset size

/-- Read from a file.  A chain of more links than there are entries is a cycle; the read then
follows it until the memory is exhausted, which counts as a panic. -/
def read (fs : MemFS) (path : PathBuf) (offset size : Int64) : Outcome Bytes :=
  fs.readAux offset size (fs.files.size + 1) path

/-- The metadata of a path. -/
def stat (fs : MemFS) (path : PathBuf) : Outcome FileMetadata :=
  (fs.getEntry path).map FileEntry.metadata

/-! ### Directories -/

/-- The check that `mkdir` makes: for the parent of the parent. -/
def mkdirCheck (fs : MemFS) (path : PathBuf) : Outcome Unit :=
  match path.parent with
  -- `ensureParentExists` goes to the parent by itself
  | some parent => if parent.bytes = [slash] then .ok () else fs.ensureParentExists parent
  | none => .ok ()

/-- Create a directory. -/
def mkdir (fs : MemFS) (path : PathBuf) (perm : UInt32) (now : DateTime) :
    Outcome Reply × MemFS :=
  fs.check (fs.mkdirCheck path) fun _ => fs.addEntry path (directoryEntry path perm now)

/-- The entry of a listing for a stored path: only direct children have one, and their paths
are given from the listed directory. -/
def childEntry (pre : Bytes) (p : PathBuf) (e : FileEntry) : Option FileMetadata :=
  let relative := if pre = [] then p else (p.stripPrefix ⟨pre⟩).getD p
  let cs := relative.components
  if relative.bytes = [slash] then none
  else if cs.length = 1 ∨ (cs.length = 2 ∧ cs.head? = some .rootDir) then
    some { e.metadata with
      path :=
        if relative.toStringLossy.head? = some slash then relative else rootPath.push relative }
  else none

/-- List a directory, by the texts of the stored paths. -/
def readDir (fs : MemFS) (path : PathBuf) : List FileMetadata :=
  let text := path.toStringLossy
  let pre := if text = [slash] then [] else text
  (fs.files.entries.filter fun e =>
    pre.isPrefixOf e.1.toStringLossy && e.1.toStringLossy != pre).filterMap
      fun e => childEntry pre e.1 e.2

/-- Remove a file or an empty directory.  The entry is taken out first. -/
def remove (fs : MemFS) (path : PathBuf) : Outcome Reply × MemFS :=
  match fs.files.get? path with
  | none => (.err (.NotFound path), fs)
  | some e =>
    let files := fs.files.erase path
    if e.metadata.isDirectory ∧ files.keys.any fun p => p != path && p.startsWith path then
      -- the entry is not put back
      (.err .DirectoryNotEmpty, { fs with files })
    else (.ok .unit, ⟨files, fs.xattrs.erase path⟩)

/-- Remove a path and everything below it. -/
def removeAll (fs : MemFS) (path : PathBuf) : Outcome Reply × MemFS :=
  if fs.files.contains path then
    (.ok .unit,
      ⟨fs.files.retain fun p _ => p != path && !p.startsWith path,
        fs.xattrs.retain fun p _ => p != path && !p.startsWith path⟩)
  else (.err (.NotFound path), fs)

/-- Rename an entry.  It is taken out first, and put back when the new path is in use. -/
def rename (fs : MemFS) (oldPath newPath : PathBuf) : Outcome Reply × MemFS :=
  match fs.files.get? oldPath with
  | none => (.err (.NotFound oldPath), fs)
  | some e =>
    let files := fs.files.erase oldPath
    if files.contains newPath then
      (.err (.AlreadyExists newPath), { fs with files := files.insert oldPath e })
    else
      -- only this entry moves; those below the old path keep their paths
      let moved := { e with metadata := { e.metadata with path := newPath } }
      let xattrs :=
        match fs.xattrs.get? oldPath with
        | none => fs.xattrs
        | some attrs => (fs.xattrs.erase oldPath).insert newPath attrs
      (.ok .unit, ⟨files.insert newPath moved, xattrs⟩)

/-! ### Links and extended attributes -/

/-- Create a link. -/
def symlink (fs : MemFS) (target link : PathBuf) (now : DateTime) : Outcome Reply × MemFS :=
  fs.check (fs.ensureParentExists link) fun _ => fs.addEntry link (symlinkEntry target link now)

/-- The target of a link. -/
def readlink (fs : MemFS) (path : PathBuf) : Outcome PathBuf :=
  (fs.getEntry path).bind fun e =>
    if !e.isSymlink then .err (.InvalidInput "not a symlink")
    else
      match e.symlinkTarget with
      | some target => .ok target
      | none => .err (.InvalidInput "symlink has no target")

/-- The error for an attribute that is not set. -/
def xattrNotFound : FSError := .InvalidInput "extended attribute not found"

/-- The value of an extended attribute. -/
def getXattr (fs : MemFS) (path : PathBuf) (name : Bytes) : Outcome Bytes :=
  (fs.getEntry path).bind fun _ =>
    match (fs.xattrs.get? path).bind fun attrs => attrs.get? name with
    | some v => .ok v
    | none => .err xattrNotFound

/-- Set an extended attribute. -/
def setXattr (fs : MemFS) (path : PathBuf) (name value : Bytes) : Outcome Reply × MemFS :=
  fs.check (fs.getEntry path) fun _ =>
    let attrs := (fs.xattrs.get? path).getD ∅
    (.ok .unit, { fs with xattrs := fs.xattrs.insert path (attrs.insert name value) })

/-- Remove an extended attribute. -/
def removeXattr (fs : MemFS) (path : PathBuf) (name : Bytes) : Outcome Reply × MemFS :=
  fs.check (fs.getEntry path) fun _ =>
    match fs.xattrs.get? path with
    | none => (.err xattrNotFound, fs)
    | some attrs =>
      if attrs.contains name then
        (.ok .unit, { fs with xattrs := fs.xattrs.modify path fun _ => attrs.erase name })
      else (.err xattrNotFound, fs)

/-- The names of the extended attributes. -/
def listXattr (fs : MemFS) (path : PathBuf) : Outcome (List Bytes) :=
  (fs.getEntry path).map fun _ => ((fs.xattrs.get? path).map AssocMap.keys).getD []

/-! ### The parts of the operations -/

section Parts

variable {fs : MemFS}

lemma addEntry_of_contains {path : PathBuf} (h : fs.files.contains path = true) (e : FileEntry) :
    fs.addEntry path e = (.err (.AlreadyExists path), fs) := by
  simp [addEntry, h]

lemma addEntry_of_not_contains {path : PathBuf} (h : fs.files.contains path = false)
    (e : FileEntry) :
    fs.addEntry path e = (.ok .unit, { fs with files := fs.files.insert path e }) := by
  simp [addEntry, h]

lemma check_of_ok {α : Type*} {x : Outcome α} {a : α} (h : x = .ok a)
    (f : α → Outcome Reply × MemFS) : fs.check x f = f a := by
  simp [check, h]

/-- A change of an entry fails and leaves the tables alone, or changes that entry. -/
lemma updateEntry_cases (path : PathBuf) (f : FileEntry → Outcome (Reply × FileEntry)) :
    (fs.updateEntry path f).2 = fs ∨
    ∃ e r, fs.files.get? path = some e ∧ f e = .ok r ∧
      fs.updateEntry path f =
        (.ok r.1, { fs with files := fs.files.modify path fun _ => r.2 }) := by
  unfold updateEntry getEntry
  cases hget : fs.files.get? path with
  | none => exact Or.inl rfl
  | some e =>
    simp only [check]
    cases hf : f e with
    | ok r => exact Or.inr ⟨e, r, rfl, hf, rfl⟩
    | err e => exact Or.inl rfl
    | panic => exact Or.inl rfl

end Parts

end MemFS

/-! ### Operations as data -/

/-- An operation on paths of type `P`. -/
inductive Op (P : Type*)
  | create (path : P)
  | write (path : P) (data : Bytes) (offset : Int64) (flags : WriteFlags)
  | truncate (path : P) (size : UInt64)
  | touch (path : P)
  | chmod (path : P) (mode : UInt32)
  | mkdir (path : P) (perm : UInt32)
  | remove (path : P)
  | removeAll (path : P)
  | rename (oldPath newPath : P)
  | symlink (target : PathBuf) (link : P)
  | setXattr (path : P) (name value : Bytes)
  | removeXattr (path : P) (name : Bytes)
  | read (path : P) (offset size : Int64)
  | stat (path : P)
  | readDir (path : P)
  | readlink (path : P)
  | getXattr (path : P) (name : Bytes)
  | listXattr (path : P)

/-- The result of an operation, and the tables after it. -/
def MemFS.apply (fs : MemFS) (now : DateTime) : Op PathBuf → Outcome Reply × MemFS
  | .create path => fs.create path now
  | .write path data offset flags => fs.write path data offset flags now
  | .truncate path size => fs.truncate path size now
  | .touch path => fs.touch path now
  | .chmod path mode => fs.chmod path mode now
  | .mkdir path perm => fs.mkdir path perm now
  | .remove path => fs.remove path
  | .removeAll path => fs.removeAll path
  | .rename oldPath newPath => fs.rename oldPath newPath
  | .symlink target link => fs.symlink target link now
  | .setXattr path name value => fs.setXattr path name value
  | .removeXattr path name => fs.removeXattr path name
  | .read path offset size => ((fs.read path offset size).map .data, fs)
  | .stat path => ((fs.stat path).map .metadata, fs)
  | .readDir path => (.ok (.entries (fs.readDir path)), fs)
  | .readlink path => ((fs.readlink path).map .path, fs)
  | .getXattr path name => ((fs.getXattr path name).map .data, fs)
  | .listXattr path => ((fs.listXattr path).map .names, fs)

/-- An operation on paths of another type. -/
def Op.map {P Q : Type*} (f : P → Q) : Op P → Op Q
  | .create path => .create (f path)
  | .write path data offset flags => .write (f path) data offset flags
  | .truncate path size => .truncate (f path) size
  | .touch path => .touch (f path)
  | .chmod path mode => .chmod (f path) mode
  | .mkdir path perm => .mkdir (f path) perm
  | .remove path => .remove (f path)
  | .removeAll path => .removeAll (f path)
  | .rename oldPath newPath => .rename (f oldPath) (f newPath)
  | .symlink target link => .symlink target (f link)
  | .setXattr path name value => .setXattr (f path) name value
  | .removeXattr path name => .removeXattr (f path) name
  | .read path offset size => .read (f path) offset size
  | .stat path => .stat (f path)
  | .readDir path => .readDir (f path)
  | .readlink path => .readlink (f path)
  | .getXattr path name => .getXattr (f path) name
  | .listXattr path => .listXattr (f path)

end Racfs.MemFs
