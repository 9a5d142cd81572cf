/-
# Metadata in responses

What the server sends of the metadata of a file: the response of `/api/v1/stat`
(`racfs-server/src/api/metadata.rs`) and the entries of a listing
(`racfs-server/src/api/directories.rs`).  The permissions are sent as an octal number and the
file type as a word.  The text of a time is a parameter.
-/
import Racfs.Core

namespace Racfs.Server

/-- The octal digits of a number. -/
def octal (n : ℕ) : String := String.ofList (Nat.toDigits 8 n)

/-- The metadata of a file. -/
structure MetadataResponse where
  fileType : String
  permissions : String
  size : UInt64
  modified : Option String
  path : Bytes
  /-- The target of a symbolic link. -/
  symlinkTarget : Option Bytes

/-- An entry of a listing. -/
structure DirectoryEntry where
  permissions : String
  size : UInt64
  modified : Option String
  path : Bytes
  fileType : String

section

variable (format : DateTime → String) (m : FileMetadata)

/-- The response for the metadata of a file. -/
def MetadataResponse.ofMetadata : MetadataResponse where
  fileType := m.fileType
  permissions := octal m.permissions.toNat
  size := m.size
  modified := m.modified.map format
  path := m.path.toStringLossy
  symlinkTarget := m.symlinkTarget.map PathBuf.toStringLossy

/-- The entry of a listing for the metadata of a file. -/
def DirectoryEntry.ofMetadata : DirectoryEntry where
  permissions := octal m.permissions.toNat
  size := m.size
  modified := m.modified.map format
  path := m.path.toStringLossy
  fileType := m.fileType

end

/-- The permission bits have at most three octal digits. -/
lemma length_octal_permissions (m : FileMetadata) : (octal m.permissions.toNat).length ≤ 3 := by
  have hle : m.permissions.toNat ≤ 0o777 := by
    rw [FileMetadata.permissions, UInt32.toNat_and]
    exact Nat.and_le_right
  rw [octal, String.length_ofList, Nat.length_toDigits_le_iff (by decide) (by decide)]
  omega

end Racfs.Server
