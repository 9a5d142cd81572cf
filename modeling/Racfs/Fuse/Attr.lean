/-
# Attributes of files

The FUSE client turns the metadata that the server sends into the attributes that the kernel
gets (`metadata_to_attr` in `racfs-fuse/src/async_fs.rs`).  It reads the permissions in the
notation of `ls`, nine letters; the server sends them as an octal number, which has at most
three digits.  So the kernel gets the permissions 0 for every file, and the attributes are right
exactly for the files that have no permissions (`attr_matches_iff`).
-/
import Racfs.Server.Metadata

namespace Racfs.Fuse

open Server

/-- The types of files that the kernel is told. -/
inductive FileType
  | Directory
  | Symlink
  | RegularFile
deriving DecidableEq

/-- The attributes of a file. -/
structure FileAttr where
  ino : UInt64
  size : UInt64
  /-- The number of blocks of 512 bytes. -/
  blocks : UInt64
  atime : DateTime
  mtime : DateTime
  ctime : DateTime
  crtime : DateTime
  kind : FileType
  perm : UInt16
  nlink : UInt32
  uid : UInt32
  gid : UInt32
  rdev : UInt32
  blksize : UInt32
  flags : UInt32
deriving DecidableEq

/-- The letters of the notation of permissions, with their positions and bits. -/
def permissionLetters : List (ℕ × Char × UInt32) :=
  [(0, 'r', 0o400), (1, 'w', 0o200), (2, 'x', 0o100), (3, 'r', 0o040), (4, 'w', 0o020),
    (5, 'x', 0o010), (6, 'r', 0o004), (7, 'w', 0o002), (8, 'x', 0o001)]

/-- The permission bits of a text such as `rwxr-xr-x`. -/
def parsePermissions (perms : String) : UInt32 :=
  let chars := perms.toList
  if chars.length ≥ 9 then
    permissionLetters.foldl
      (fun mode l => if chars[l.1]? = some l.2.1 then mode ||| l.2.2 else mode) 0
  else 0

/-- The time of a text; the text is not read. -/
def parseTimestamp (_timestamp : String) : DateTime := 0

/-- The type of a file for the word that the server sends. -/
def kindOfWord (fileType : String) : FileType :=
  if fileType = "directory" then .Directory
  else if fileType = "symlink" then .Symlink
  else .RegularFile

/-- The attributes for the metadata of a file. -/
def metadataToAttr (inode : UInt64) (metadata : MetadataResponse) : FileAttr :=
  let kind := kindOfWord metadata.fileType
  let mtime := (metadata.modified.map parseTimestamp).getD 0
  { ino := inode
    size := metadata.size
    blocks := metadata.size / 512 + (if metadata.size % 512 = 0 then 0 else 1)
    atime := mtime
    mtime := mtime
    ctime := mtime
    crtime := mtime
    kind := kind
    perm := (parsePermissions metadata.permissions).toUInt16
    nlink := if kind = .Directory then 2 else 1
    uid := 1000
    gid := 1000
    rdev := 0
    blksize := 4096
    flags := 0 }

/-- The type of a file that the kernel should be told. -/
def fileTypeOf (m : FileMetadata) : FileType :=
  if m.mode &&& S_IFMT = S_IFDIR then .Directory
  else if m.mode &&& S_IFMT = S_IFLNK then .Symlink
  else .RegularFile

/-- The attributes are those of the metadata. -/
structure AttrMatches (attr : FileAttr) (m : FileMetadata) : Prop where
  perm : attr.perm.toUInt32 = m.permissions
  kind : attr.kind = fileTypeOf m
  size : attr.size = m.size

variable (format : DateTime → String)

lemma parsePermissions_octal (m : FileMetadata) :
    parsePermissions (octal m.permissions.toNat) = 0 := by
  have hlen := length_octal_permissions m
  rw [parsePermissions]
  simp only [String.length_toList]
  rw [if_neg (by omega)]

/-- The words for the file types are read as they are meant. -/
lemma kindOfWord_typeWord (t : UInt32) : kindOfWord (FileMetadata.typeWord t) =
    if t = S_IFDIR then .Directory else if t = S_IFLNK then .Symlink else .RegularFile := by
  by_cases hdir : t = S_IFDIR
  · subst hdir
    rfl
  by_cases hlnk : t = S_IFLNK
  · subst hlnk
    rfl
  · rw [if_neg hdir, if_neg hlnk, FileMetadata.typeWord, if_neg hdir, if_neg hlnk]
    split_ifs <;> rfl

/-- For all metadata, the attributes are right exactly when no permission bit is set. -/
theorem attr_matches_iff (inode : UInt64) (m : FileMetadata) :
    AttrMatches (metadataToAttr inode (.ofMetadata format m)) m ↔ m.mode &&& 0o777 = 0 := by
  have hperm : (metadataToAttr inode (.ofMetadata format m)).perm = 0 := by
    show (parsePermissions (octal m.permissions.toNat)).toUInt16 = 0
    rw [parsePermissions_octal]
    rfl
  constructor
  · intro h
    have hm := h.perm
    rw [hperm] at hm
    exact hm.symm
  · intro h
    refine ⟨?_, kindOfWord_typeWord (m.mode &&& S_IFMT), rfl⟩
    rw [hperm]
    exact h.symm

/-- A new file has the permissions `rw-r--r--`, and the kernel is told that it has none. -/
theorem not_attrMatches_file :
    ∃ m : FileMetadata, m = FileMetadata.file ⟨ascii "/f"⟩ 0 0 ∧ m.permissions = 0o644 ∧
      (metadataToAttr 2 (.ofMetadata (fun _ => "") m)).perm = 0 ∧
      ¬ AttrMatches (metadataToAttr 2 (.ofMetadata (fun _ => "") m)) m := by
  refine ⟨_, rfl, by decide, by decide, fun h => ?_⟩
  have hm := h.perm
  revert hm
  decide

end Racfs.Fuse
