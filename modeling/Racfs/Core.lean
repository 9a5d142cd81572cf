/-
# Errors, flags, handles and metadata

The data types of `racfs-core` that all parts of the system share.  A file mode is a machine
word with the file type in the bits of `S_IFMT`; the flags are bit sets.  A function that can
fail returns an `Outcome`: the standard library panics where an index or a length is out of
range, and a panic is not an error that the caller sees.
-/
import Racfs.Lib.Path

namespace Racfs

/-! ### Errors -/

/-- The errors of a filesystem operation. -/
inductive FSError
  | NotFound (path : PathBuf)
  | PermissionDenied (path : PathBuf)
  | AlreadyExists (path : PathBuf)
  | IsDirectory (path : PathBuf)
  | NotADirectory (path : PathBuf)
  | InvalidInput (message : String)
  | Io (message : String)
  | NotSupported (message : String)
  | AlreadyInUse (handleId : String)
  | InvalidHandle (handleId : String)
  | OutOfMemory
  | PathTooLong
  | FilenameTooLong
  | ReadOnly
  | StorageFull
  | TooManyOpenFiles
  | DirectoryNotEmpty
  | CrossDeviceLink
  | InvalidUtf8 (message : String)
  | Timeout
deriving Repr

/-- The error numbers that the kernel gets. -/
inductive Errno
  | EAGAIN
  | EIO
  | ENOENT
deriving DecidableEq, Repr

/-- The end of a call: a value, an error, or a panic. -/
inductive Outcome (α : Type*)
  | ok (a : α)
  | err (e : FSError)
  | panic
deriving Repr

namespace Outcome

variable {α β : Type*}

/-- Whether the call returns an error. -/
def isErr : Outcome α → Bool
  | err _ => true
  | _ => false

/-- Whether the call returns a value. -/
def isOk : Outcome α → Bool
  | ok _ => true
  | _ => false

/-- Go on with the value of a call. -/
def bind (x : Outcome α) (f : α → Outcome β) : Outcome β :=
  match x with
  | ok a => f a
  | err e => err e
  | panic => panic

/-- Change the value of a call. -/
def map (f : α → β) (x : Outcome α) : Outcome β := x.bind fun a => ok (f a)

@[simp] lemma ok_bind (a : α) (f : α → Outcome β) : (ok a).bind f = f a := rfl

@[simp] lemma map_ok (f : α → β) (a : α) : (ok a).map f = ok (f a) := rfl

@[simp] lemma map_err (f : α → β) (e : FSError) : (err e : Outcome α).map f = err e := rfl

end Outcome

/-! ### Flags -/

/-- The flags of an open file. -/
structure OpenFlags where
  bits : UInt32
deriving DecidableEq, Repr

/-- `OpenFlags::READ`. -/
def OpenFlags.READ : OpenFlags := ⟨0x0001⟩

/-- The flags of a write. -/
structure WriteFlags where
  bits : UInt32
deriving DecidableEq, Repr

namespace WriteFlags

/-- `WriteFlags::NONE`. -/
def NONE : WriteFlags := ⟨0x0000⟩

/-- `WriteFlags::SYNC`. -/
def SYNC : WriteFlags := ⟨0x0001⟩

/-- `WriteFlags::APPEND`. -/
def APPEND : WriteFlags := ⟨0x0002⟩

/-- `WriteFlags::from_bits_truncate`: the bits that no flag has are dropped. -/
def fromBitsTruncate (bits : UInt32) : WriteFlags := ⟨bits &&& 0x0003⟩

/-- Whether all bits of `b` are set. -/
def contains (a b : WriteFlags) : Bool := a.bits &&& b.bits == b.bits

/-- Whether no bit is set. -/
def isEmpty (a : WriteFlags) : Bool := a.bits == 0

/-- Whether the write appends. -/
def containsAppend (a : WriteFlags) : Bool := a.contains APPEND

end WriteFlags

/-! ### Handles -/

/-- The identifier of a file handle: a UUID. -/
structure HandleId where
  uuid : BitVec 128
deriving DecidableEq, Repr

/-- The hexadecimal digits of the low `n` half-bytes of a number. -/
def hexDigits (x : ℕ) : ℕ → List Char
  | 0 => []
  | n + 1 => hexDigits (x / 16) n ++ [Nat.digitChar (x % 16)]

/-- The hyphenated text of the identifier. -/
def HandleId.toString (id : HandleId) : String :=
  let ds := hexDigits id.uuid.toNat 32
  let part (i n : ℕ) := (ds.drop i).take n
  String.ofList (part 0 8 ++ '-' :: part 8 4 ++ '-' :: part 12 4 ++ '-' :: part 16 4 ++
    '-' :: part 20 12)

/-- An open file handle. -/
structure FileHandle where
  id : HandleId
  path : PathBuf
  flags : OpenFlags
  /-- The current offset in the file. -/
  offset : Int64
  /-- Whether the handle is still valid. -/
  valid : Bool

/-- A new handle, with the identifier that was generated for it. -/
def FileHandle.new (path : PathBuf) (flags : OpenFlags) (id : HandleId) : FileHandle :=
  ⟨id, path, flags, 0, true⟩

/-! ### Metadata -/

/-- A point of time, in nanoseconds. -/
abbrev DateTime := ℤ

/-- The file type mask. -/
def S_IFMT : UInt32 := 0o170000

/-- The type of a directory. -/
def S_IFDIR : UInt32 := 0o040000

/-- The type of a regular file. -/
def S_IFREG : UInt32 := 0o100000

/-- The type of a symbolic link. -/
def S_IFLNK : UInt32 := 0o120000

/-- The type of a named pipe. -/
def S_IFIFO : UInt32 := 0o010000

/-- The type of a character device. -/
def S_IFCHR : UInt32 := 0o020000

/-- The type of a block device. -/
def S_IFBLK : UInt32 := 0o060000

/-- The type of a socket. -/
def S_IFSOCK : UInt32 := 0o140000

/-- The metadata of a file or directory. -/
structure FileMetadata where
  path : PathBuf
  size : UInt64
  /-- The permissions and the file type. -/
  mode : UInt32
  created : Option DateTime
  modified : Option DateTime
  accessed : Option DateTime
  isSymlinkFlag : Bool
  symlinkTarget : Option PathBuf
deriving Repr

namespace FileMetadata

/-- The mode of a new directory, `S_IFDIR | 0o755`. -/
def dirMode : UInt32 :=
  S_IFDIR ||| 0o700 ||| 0o040 ||| 0o010 ||| 0o004 ||| 0o001

/-- The mode of a new regular file, `S_IFREG | 0o644`. -/
def fileMode : UInt32 := S_IFREG ||| 0o400 ||| 0o200 ||| 0o040 ||| 0o004

/-- The metadata of a regular file. -/
def file (path : PathBuf) (size : UInt64) (now : DateTime) : FileMetadata :=
  ⟨path, size, fileMode, some now, some now, some now, false, none⟩

/-- The metadata of a directory. -/
def directory (path : PathBuf) (now : DateTime) : FileMetadata :=
  ⟨path, 0, dirMode, some now, some now, some now, false, none⟩

/-- The metadata of a symbolic link. -/
def symlink (path target : PathBuf) (now : DateTime) : FileMetadata :=
  ⟨path, target.bytes.length.toUInt64, S_IFLNK ||| 0o700 ||| 0o040 ||| 0o010 ||| 0o004 ||| 0o001,
    some now, some now, some now, true, some target⟩

/-- Whether the mode is that of a regular file. -/
def isFile (m : FileMetadata) : Bool := m.mode &&& S_IFMT == S_IFREG

/-- Whether the mode is that of a directory. -/
def isDirectory (m : FileMetadata) : Bool := m.mode &&& S_IFMT == S_IFDIR

/-- Whether this is a symbolic link. -/
def isSymlink (m : FileMetadata) : Bool := m.isSymlinkFlag || m.mode &&& S_IFMT == S_IFLNK

/-- The permission bits. -/
def permissions (m : FileMetadata) : UInt32 := m.mode &&& 0o777

/-- The word for the type bits of a mode. -/
def typeWord (t : UInt32) : String :=
  if t = S_IFREG then "file"
  else if t = S_IFDIR then "directory"
  else if t = S_IFLNK then "symlink"
  else if t = S_IFCHR then "character device"
  else if t = S_IFBLK then "block device"
  else if t = S_IFIFO then "FIFO"
  else if t = S_IFSOCK then "socket"
  else "unknown"

/-- The file type as a text. -/
def fileType (m : FileMetadata) : String := typeWord (m.mode &&& S_IFMT)

/-- Set the permission bits; the file type stays. -/
def setPermissions (m : FileMetadata) (mode : UInt32) : FileMetadata :=
  { m with mode := (m.mode &&& S_IFMT) ||| (mode &&& 0o777) }

lemma isDirectory_directory (path : PathBuf) (now : DateTime) :
    (directory path now).isDirectory = true := by
  change (dirMode &&& S_IFMT == S_IFDIR) = true
  decide

lemma isDirectory_file (path : PathBuf) (size : UInt64) (now : DateTime) :
    (file path size now).isDirectory = false := by
  change (fileMode &&& S_IFMT == S_IFDIR) = false
  decide

/-- Permissions do not touch the file type. -/
lemma type_setPermissions (m : FileMetadata) (mode : UInt32) :
    (m.setPermissions mode).mode &&& S_IFMT = m.mode &&& S_IFMT := by
  have hdistrib : (m.mode &&& S_IFMT ||| mode &&& 0o777) &&& S_IFMT =
      m.mode &&& S_IFMT &&& S_IFMT ||| mode &&& 0o777 &&& S_IFMT := by
    rw [← UInt32.toBitVec_inj]
    exact BitVec.and_or_distrib_right
  have hdisj : (0o777 : UInt32) &&& S_IFMT = 0 := by decide
  rw [setPermissions, hdistrib, UInt32.and_assoc, UInt32.and_self, UInt32.and_assoc, hdisj,
    UInt32.and_zero, UInt32.or_zero]

lemma isDirectory_setPermissions (m : FileMetadata) (mode : UInt32) :
    (m.setPermissions mode).isDirectory = m.isDirectory := by
  rw [isDirectory, type_setPermissions, isDirectory]

/-- The milliseconds of a point of time. -/
def ms (t : DateTime) : ℤ := t / 1000000

/-- Equal metadata, the times compared in milliseconds. -/
structure SameMs (m m' : FileMetadata) : Prop where
  path : m.path = m'.path
  size : m.size = m'.size
  mode : m.mode = m'.mode
  created : m.created.map ms = m'.created.map ms
  modified : m.modified.map ms = m'.modified.map ms
  accessed : m.accessed.map ms = m'.accessed.map ms
  isSymlink : m.isSymlinkFlag = m'.isSymlinkFlag
  symlinkTarget : m.symlinkTarget = m'.symlinkTarget

@[refl] lemma SameMs.refl (m : FileMetadata) : m.SameMs m := by
  constructor <;> rfl

end FileMetadata

/-! ### Paths in a database -/

/-- The text that a path is stored under, `path_to_str` of both filesystems over a database. -/
def pathToStr (path : PathBuf) : Outcome Bytes :=
  if isUtf8 path.bytes then
    .ok (if path.bytes.head? = some slash then path.bytes else slash :: path.bytes)
  else .err (.InvalidInput "Path contains invalid UTF-8")

lemma pathToStr_toPath (p : EntryPath) : pathToStr p.toPath = .ok p.text := by
  have hutf8 : isUtf8 p.toPath.bytes = true := p.utf8
  rw [pathToStr, hutf8]
  rfl

/-! ### Results -/

/-- What an operation of a filesystem returns. -/
inductive Reply
  | unit
  | written (n : UInt64)
  | data (bs : Bytes)
  | metadata (m : FileMetadata)
  | entries (ms : List FileMetadata)
  | path (p : PathBuf)
  | names (ns : List Bytes)

end Racfs
