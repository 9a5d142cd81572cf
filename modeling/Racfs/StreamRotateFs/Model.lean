/-
# Rotating log files

`StreamRotateFS` (`racfs-plugin-streamrotatefs`) has one log file, `/current`, that is only
appended to.  When it has reached the maximal size its content is moved to the archive under the
next sequence number, and the oldest archive files are removed while there are too many of them.
Writing `rotate` to `/rotate` does the same by hand.  Every lock-guarded section is a function;
`write` lets go of the lock before it checks the size, and `check_rotate` before it rotates.

The time is an argument.  The sequence numbers are natural numbers: a machine does not get to
the end of a `usize` by counting.  The program logs which archive files it prunes; the model
keeps them.
-/
import Racfs.Lib.Decimal
import Racfs.MemFs.Model

namespace Racfs.StreamRotateFs

/-- The configuration. -/
structure RotateConfig where
  /-- The size from which on the current file is rotated. -/
  maxSize : ℕ
  /-- The number of files to keep in the archive. -/
  maxFiles : ℕ
  compress : Bool
  basePath : PathBuf

/-- The default configuration: 1 MB and ten files. -/
def RotateConfig.default : RotateConfig := ⟨1024 * 1024, 10, false, ⟨[]⟩⟩

/-- A file or directory. -/
structure FileEntry where
  data : Bytes
  metadata : FileMetadata

namespace FileEntry

/-- A file with a content. -/
def file (path : PathBuf) (content : Bytes) (now : DateTime) : FileEntry :=
  ⟨content, .file path content.length.toUInt64 now⟩

/-- A directory. -/
def dir (path : PathBuf) (now : DateTime) : FileEntry := ⟨[], .directory path now⟩

/-- Whether this is a file. -/
def isFile (e : FileEntry) : Bool := e.metadata.isFile

end FileEntry

/-- The state behind the lock. -/
structure RotateState where
  current : FileEntry
  /-- The rotated files, by their sequence numbers. -/
  archive : Std.TreeMap ℕ FileEntry
  nextSeq : ℕ

/-- The filesystem. -/
structure StreamRotateFS where
  config : RotateConfig
  state : RotateState
  /-- The archive files that have been pruned, the oldest first. -/
  pruned : List (ℕ × FileEntry)

namespace StreamRotateFS

/-- An empty filesystem. -/
def withConfig (config : RotateConfig) (now : DateTime) : StreamRotateFS :=
  ⟨config, ⟨.file ⟨ascii "/current"⟩ [] now, ∅, 1⟩, []⟩

/-- The content of `/config`. -/
def configString (fs : StreamRotateFS) : Bytes :=
  ascii "max_size=" ++ decimal fs.config.maxSize ++
    ascii "\nmax_files=" ++ decimal fs.config.maxFiles ++
    ascii "\ncompress=" ++ ascii (if fs.config.compress then "true" else "false") ++
    ascii "\nbase_path=" ++ fs.config.basePath.toStringLossy ++ ascii "\n"

/-! ### Rotation -/

/-- The loop that removes the oldest files while there are more than `maxFiles`, for at most `fuel`
rounds: the removed files and what is left. -/
def pruneLoop (maxFiles : ℕ) :
    ℕ → Std.TreeMap ℕ FileEntry → List (ℕ × FileEntry) × Std.TreeMap ℕ FileEntry
  | 0, archive => ([], archive)
  | fuel + 1, archive =>
    if archive.size > maxFiles then
      match archive.toList.head? with
      | some (seq, e) =>
        let (removed, rest) := pruneLoop maxFiles fuel (archive.erase seq)
        ((seq, e) :: removed, rest)
      | none => ([], archive)
    else ([], archive)

/-- Remove the oldest files; every round takes one away. -/
def prune (maxFiles : ℕ) (archive : Std.TreeMap ℕ FileEntry) :
    List (ℕ × FileEntry) × Std.TreeMap ℕ FileEntry :=
  pruneLoop maxFiles archive.size archive

/-- Move the content of the current file to the archive. -/
def rotate (fs : StreamRotateFS) (now : DateTime) : StreamRotateFS :=
  let archived := FileEntry.file ⟨ascii "/archive/001.log"⟩ fs.state.current.data now
  let (removed, archive) :=
    prune fs.config.maxFiles (fs.state.archive.insert fs.state.nextSeq archived)
  { fs with
    state := ⟨.file ⟨ascii "/current"⟩ [] now, archive, fs.state.nextSeq + 1⟩
    pruned := fs.pruned ++ removed }

/-- The check whether the current file is full. -/
def needsRotation (fs : StreamRotateFS) : Bool :=
  fs.state.current.data.length ≥ fs.config.maxSize

/-- Rotate the current file if it is full. -/
def checkRotate (fs : StreamRotateFS) (now : DateTime) : StreamRotateFS :=
  if fs.needsRotation then fs.rotate now else fs

/-- Append to the current file. -/
def append (fs : StreamRotateFS) (data : Bytes) (now : DateTime) : StreamRotateFS :=
  let new := fs.state.current.data ++ data
  { fs with state.current :=
      ⟨new, { fs.state.current.metadata with
        size := new.length.toUInt64, modified := some now }⟩ }

/-! ### Paths -/

/-- The path as it is looked up. -/
def normalizePath (path : PathBuf) : PathBuf :=
  ⟨slash :: path.toStringLossy.dropWhile (· == slash)⟩

/-- The beginning of the paths in the archive. -/
def archiveDir : Bytes := ascii "/archive/"

/-- The check that a path can be one of this filesystem. -/
def validatePath (path : PathBuf) : Outcome Unit :=
  let normalized := normalizePath path
  let text := normalized.toStringLossy
  if text = ascii "/" ∨ text = ascii "/current" ∨ text = ascii "/rotate" ∨
      text = ascii "/config" ∨ text = ascii "/archive" ∨ archiveDir <+: text then .ok ()
  else .err (.NotFound normalized)

/-- The sequence number in a path of the archive: with or without the suffix. -/
def archiveSeq (text : Bytes) : Option ℕ :=
  let name := (text.dropPrefix? archiveDir).getD []
  (parseU64 ((name.dropSuffix? (ascii ".log")).getD name)).map UInt64.toNat

/-- What there is at a path. -/
def getEntry (fs : StreamRotateFS) (path : PathBuf) (now : DateTime) : Outcome FileEntry :=
  let normalized := normalizePath path
  (validatePath normalized).bind fun _ =>
    let text := normalized.toStringLossy
    if text = ascii "/" then .ok (.dir ⟨ascii "/"⟩ now)
    else if text = ascii "/current" then .ok fs.state.current
    else if text = ascii "/rotate" then .ok (.file ⟨ascii "/rotate"⟩ [] now)
    else if text = ascii "/config" then .ok (.file ⟨ascii "/config"⟩ fs.configString now)
    else if text = ascii "/archive" then .ok (.dir ⟨ascii "/archive"⟩ now)
    else if archiveDir <+: text then
      match (archiveSeq text).bind fun seq => fs.state.archive[seq]? with
      | some e => .ok e
      | none => .err (.NotFound normalized)
    else .err (.NotFound normalized)

/-- Go on with the text of a path that passes the check. -/
def onPath {α : Type*} (path : PathBuf) (f : PathBuf → Bytes → Outcome α) : Outcome α :=
  let normalized := normalizePath path
  (validatePath normalized).bind fun _ => f normalized normalized.toStringLossy

/-- The same for a call that can change the filesystem. -/
def withPath {α : Type*} (fs : StreamRotateFS) (path : PathBuf)
    (f : PathBuf → Bytes → Outcome α × StreamRotateFS) : Outcome α × StreamRotateFS :=
  let normalized := normalizePath path
  match validatePath normalized with
  | .ok _ => f normalized normalized.toStringLossy
  | .err e => (.err e, fs)
  | .panic => (.panic, fs)

/-! ### The operations -/

/-- Create a file: the files that can be created are always there. -/
def create (_fs : StreamRotateFS) (path : PathBuf) : Outcome Unit :=
  onPath path fun normalized text =>
    if text = ascii "/current" ∨ text = ascii "/rotate" ∨ text = ascii "/config" then .ok ()
    else .err (.AlreadyExists normalized)

/-- Write to a file; the offset and the flags are not used. -/
def write (fs : StreamRotateFS) (path : PathBuf) (data : Bytes) (_offset : Int64)
    (_flags : WriteFlags) (now : DateTime) : Outcome UInt64 × StreamRotateFS :=
  fs.withPath path fun normalized text =>
    if text = ascii "/current" then
      (.ok data.length.toUInt64, (fs.append data now).checkRotate now)
    else if text = ascii "/rotate" then
      if trim (fromUtf8Lossy data) = ascii "rotate" then
        (.ok data.length.toUInt64, fs.rotate now)
      else (.ok data.length.toUInt64, fs)
    else if text = ascii "/config" then (.err (.PermissionDenied normalized), fs)
    else (.err (.IsDirectory normalized), fs)

/-- Cut off the current file.  Its size is set to what was asked for. -/
def truncate (fs : StreamRotateFS) (path : PathBuf) (size : UInt64) (now : DateTime) :
    Outcome Unit × StreamRotateFS :=
  fs.withPath path fun _ text =>
    if text = ascii "/current" then
      (.ok (), { fs with state.current :=
        ⟨fs.state.current.data.take size.toNat,
          { fs.state.current.metadata with size, modified := some now }⟩ })
    else (.err (.NotSupported "truncate only supported for /current"), fs)

/-- Set the times of the current file. -/
def touch (fs : StreamRotateFS) (path : PathBuf) (now : DateTime) :
    Outcome Unit × StreamRotateFS :=
  fs.withPath path fun normalized text =>
    if text = ascii "/current" then
      (.ok (), { fs with state.current.metadata :=
        { fs.state.current.metadata with accessed := some now, modified := some now } })
    else if text = ascii "/rotate" ∨ text = ascii "/config" ∨ text = ascii "/" ∨
        text = ascii "/archive" then (.ok (), fs)
    else if archiveDir <+: text ∧ (archiveSeq text).any fs.state.archive.contains then
      (.ok (), fs)
    else (.err (.NotFound normalized), fs)

/-- Read from a file; the arithmetic is that of the in-memory filesystem. -/
def read (fs : StreamRotateFS) (path : PathBuf) (offset size : Int64) (now : DateTime) :
    Outcome Bytes :=
  (fs.getEntry path now).bind fun e =>
    if !e.isFile then .err (.IsDirectory path) else MemFs.MemFS.readData e.data offset size

/-- The metadata of a path. -/
def stat (fs : StreamRotateFS) (path : PathBuf) (now : DateTime) : Outcome FileMetadata :=
  (fs.getEntry path now).map FileEntry.metadata

/-- Set the mode: nothing happens. -/
def chmod (_fs : StreamRotateFS) (path : PathBuf) (_mode : UInt32) : Outcome Unit :=
  validatePath (normalizePath path)

/-- Create a directory: the two directories are always there. -/
def mkdir (_fs : StreamRotateFS) (path : PathBuf) (_perm : UInt32) : Outcome Unit :=
  onPath path fun normalized text =>
    if text = ascii "/" ∨ text = ascii "/archive" then .ok ()
    else .err (.AlreadyExists normalized)

/-- List a directory. -/
def readDir (fs : StreamRotateFS) (path : PathBuf) (now : DateTime) :
    Outcome (List FileMetadata) :=
  onPath path fun normalized text =>
    if text = ascii "/" then
      .ok [.file ⟨ascii "/current"⟩ fs.state.current.data.length.toUInt64 now,
        .directory ⟨ascii "/archive"⟩ now, .file ⟨ascii "/rotate"⟩ 0 now,
        .file ⟨ascii "/config"⟩ fs.configString.length.toUInt64 now]
    else if text = ascii "/archive" then
      .ok (fs.state.archive.toList.map fun e =>
        { e.2.metadata with path := ⟨archiveDir ++ zeroPadded 3 e.1 ++ ascii ".log"⟩ })
    else .err (.NotADirectory normalized)

/-- Remove a file of the archive. -/
def remove (fs : StreamRotateFS) (path : PathBuf) : Outcome Unit × StreamRotateFS :=
  fs.withPath path fun normalized text =>
    if text = ascii "/" ∨ text = ascii "/current" ∨ text = ascii "/rotate" ∨
        text = ascii "/config" ∨ text = ascii "/archive" then
      (.err (.PermissionDenied normalized), fs)
    else if archiveDir <+: text then
      match (archiveSeq text).filter fs.state.archive.contains with
      | some seq => (.ok (), { fs with state.archive := fs.state.archive.erase seq })
      | none => (.err (.NotFound normalized), fs)
    else (.err (.NotFound normalized), fs)

/-- Remove a file of the archive, or all of them. -/
def removeAll (fs : StreamRotateFS) (path : PathBuf) : Outcome Unit × StreamRotateFS :=
  fs.withPath path fun normalized text =>
    if text = ascii "/archive" then (.ok (), { fs with state.archive := ∅ })
    else if text = ascii "/" ∨ text = ascii "/current" ∨ text = ascii "/rotate" ∨
        text = ascii "/config" then (.err (.PermissionDenied normalized), fs)
    else if archiveDir <+: text then fs.remove path
    else (.err (.NotFound normalized), fs)

end StreamRotateFS

end Racfs.StreamRotateFs
