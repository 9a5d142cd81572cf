/-
# Mounted filesystems

`MountableFS` (`racfs-vfs/src/mountable_fs.rs`) routes a path to the filesystem that is
mounted above it.  It keeps the mounted filesystems twice: in a hash table by mount point, and
in a radix trie by the text of the mount point.  `resolveFs` looks for the filesystem in the
trie, by trying all prefixes of the text of the path, and for the mount point, which decides
the relative path, in the hash table.

The trie is the map from texts to filesystems that it implements.  A slice of a text at an
index inside a character panics.  The filesystems are values of an arbitrary type `F`.
-/
import Racfs.Core

namespace Racfs.Vfs

open Utf8

variable {F : Type*}

/-- The mounted filesystems, by mount point and by text. -/
structure MountableFS (F : Type*) where
  mounts : AssocMap PathBuf F
  trie : AssocMap Bytes F

namespace MountableFS

/-- Nothing is mounted. -/
def new : MountableFS F := ⟨∅, ∅⟩

/-- A mount point with a separator at the end. -/
def normalizeMountPoint (path : PathBuf) : PathBuf :=
  if path.toStringLossy.getLast? ≠ some slash ∧ path.bytes ≠ [slash] then path.push ⟨[]⟩ else path

/-- One component in the loop of `normalize_path`. -/
def normalizeComponent (result : PathBuf) : Component → PathBuf
  | .parentDir => result.pop
  | .curDir => result
  | .rootDir => result.push ⟨[slash]⟩
  | .normal name => result.push ⟨name⟩

/-- A path without `.` and `..`. -/
def normalizePath (path : PathBuf) : PathBuf :=
  let result := path.components.foldl normalizeComponent ⟨[]⟩
  if result.bytes = [] then result.push ⟨[slash]⟩ else result

/-- The key of a path in the trie: its text without a separator at the end. -/
def pathToKey (path : PathBuf) : Bytes :=
  let s := path.toStringLossy
  if s.getLast? = some slash then s.dropLast else s

/-- Mount a filesystem. -/
def mount (s : MountableFS F) (mountPoint : PathBuf) (fs : F) : Outcome Unit × MountableFS F :=
  if mountPoint.bytes = [slash] then (.err (.InvalidInput "cannot mount at root"), s)
  else if mountPoint.components.any fun c => c.asOsStr.isEmpty then
    (.err (.InvalidInput "invalid mount point"), s)
  -- the table has the path with a separator at the end, which is the same path
  else if s.mounts.contains mountPoint then (.err (.AlreadyExists mountPoint), s)
  else
    let normalized := normalizeMountPoint mountPoint
    (.ok (), ⟨s.mounts.insert normalized fs, s.trie.insert (pathToKey normalized) fs⟩)

/-- Unmount a filesystem. -/
def unmount (s : MountableFS F) (mountPoint : PathBuf) : Outcome Unit × MountableFS F :=
  let normalized := normalizeMountPoint mountPoint
  if s.mounts.contains normalized then
    (.ok (), ⟨s.mounts.erase normalized, s.trie.erase (pathToKey normalized)⟩)
  else (.err (.NotFound normalized), s)

/-- The best match after the prefix of length `i` has been tried. -/
def better (trie : AssocMap Bytes F) (key : Bytes) (i : ℕ) (best : Option F) (bestLen : ℕ) :
    Option F × ℕ :=
  match trie.get? (key.take i) with
  | some fs => if i ≥ bestLen then (some fs, i) else (best, bestLen)
  | none => (best, bestLen)

/-- The loop over the prefixes of the key, from the index `i` downwards. -/
def searchTrie (trie : AssocMap Bytes F) (key : Bytes) : ℕ → Option F → ℕ → Outcome (Option F)
  | i, best, bestLen =>
    -- the slice at `i` panics inside of a character
    if !isCharBoundary key i then .panic
    else
      let found := better trie key i best bestLen
      match i with
      | 0 => .ok found.1
      | i + 1 => searchTrie trie key i found.1 found.2

/-- The loop over the mount points. -/
def searchMounts (key : Bytes) : List (PathBuf × F) → Option PathBuf → ℕ → Option PathBuf
  | [], best, _ => best
  | (mount, _) :: rest, best, bestLen =>
    let mountKey := pathToKey mount
    if (mountKey.isPrefixOf key || mountKey.isEmpty) && decide (mountKey.length > bestLen) then
      searchMounts key rest (some mount) mountKey.length
    else searchMounts key rest best bestLen

/-- The path inside of the mounted filesystem. -/
def relativePath (normalized mountPoint : PathBuf) : PathBuf :=
  let relative :=
    if mountPoint.bytes = [slash] then normalized
    else (normalized.stripPrefix mountPoint).getD normalized
  if relative.bytes = [] then ⟨[slash]⟩
  else if !relative.startsWith ⟨[slash]⟩ then (PathBuf.mk [slash]).push relative
  else relative

/-- The filesystem for a path, and the path inside of it. -/
def resolveFs (s : MountableFS F) (path : PathBuf) : Outcome (F × PathBuf) :=
  let normalized := normalizePath path
  let key := pathToKey normalized
  (searchTrie s.trie key key.length none 0).bind fun
    | none => .err (.NotFound normalized)
    | some fs =>
      -- the trie has given the filesystem only; its mount point is searched once more
      let mountPoint := (searchMounts key s.mounts.entries none 0).getD ⟨[slash]⟩
      .ok (fs, relativePath normalized mountPoint)

/-- All mount points, as they are stored. -/
def listMounts (s : MountableFS F) : List PathBuf := s.mounts.entries.map Prod.fst

end MountableFS

end Racfs.Vfs
