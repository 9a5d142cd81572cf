/-
# Removals that fail

`unlink_async` and `rmdir_async` (`racfs-fuse/src/async_fs.rs`) forget the inode number of the
entry and drop what is cached for it, the writes that have not been sent included, and call the
server then.  When the call fails the entry is still there, and the client has lost its number
and its writes.  The operations that make or move an entry call the server first.

A removal that fails leaves the tables as they were exactly if there was nothing to lose
(`failed_removal_keeps_iff`).
-/
import Racfs.Fuse.AsyncFs

namespace Racfs.Fuse

open Errno

variable {σ : Type*} {remote : Remote σ} {fs : RacfsAsyncFs σ}

/-- The table of inodes and the writes that have not been sent are the same. -/
def SameTables (fs fs' : RacfsAsyncFs σ) : Prop :=
  fs'.inodes = fs.inodes ∧ fs'.cache.writeBack = fs.cache.writeBack

/-- A path that the client keeps nothing of: it has no inode number that leads to a path, and no
writes wait for it. -/
def NothingKept (fs : RacfsAsyncFs σ) (path : PathBuf) : Prop :=
  (∀ ino, fs.inodes.getInode path = some ino → fs.inodes.getPath ino = none) ∧
    fs.cache.writeBack.get? path = none

/-- Nothing is forgotten exactly if there is no number that leads to a path. -/
lemma forget_inodes_eq_iff {path : PathBuf} :
    (fs.forget path).inodes = fs.inodes ↔
      ∀ ino, fs.inodes.getInode path = some ino → fs.inodes.getPath ino = none := by
  rw [RacfsAsyncFs.forget]
  cases hget : fs.inodes.getInode path with
  | none => simp
  | some ino => simp [InodeManager.remove_eq_self_iff]

/-- A removal leaves the tables as they were exactly if the path is not known or the client
keeps nothing of it. -/
lemma removeEntry_sameTables_iff {parent : UInt64} {name : Bytes} :
    SameTables fs (fs.removeEntry remote parent name).2 ↔
      ∀ path, fs.childPath parent name = some path → NothingKept fs path := by
  rcases @removeEntry_cases σ remote fs parent name with ⟨hpath, heq⟩ | ⟨path, hpath, heq⟩
  · rw [heq]
    simp [SameTables, hpath]
  · rw [heq]
    simp only [SameTables, FuseCache.invalidate, hpath, Option.some.injEq, forall_eq', NothingKept,
      forget_inodes_eq_iff, AssocMap.erase_eq_self_iff]

/-- A removal of a file or a directory that fails leaves the table of inodes and the writes that
have not been sent as they were exactly if the parent has no path, or the client keeps nothing of
the entry. -/
theorem failed_removal_keeps_iff (remote : Remote σ) (fs : RacfsAsyncFs σ) (parent : UInt64)
    (name : Bytes) :
    (∀ e, (fs.unlinkAsync remote parent name).1 = .error e →
      (SameTables fs (fs.unlinkAsync remote parent name).2 ↔
        ∀ path, fs.childPath parent name = some path → NothingKept fs path)) ∧
    ∀ e, (fs.rmdirAsync remote parent name).1 = .error e →
      (SameTables fs (fs.rmdirAsync remote parent name).2 ↔
        ∀ path, fs.childPath parent name = some path → NothingKept fs path) :=
  ⟨fun _ _ => removeEntry_sameTables_iff, fun _ _ => removeEntry_sameTables_iff⟩

/-- A server that no call reaches. -/
def unreachable : Remote σ where
  stat _ s := (.error .Http, s)
  readDir _ s := (.error .Http, s)
  readFile _ s := (.error .Http, s)
  writeFile _ _ _ s := (.error .Http, s)
  createFile _ s := (.error .Http, s)
  mkdir _ _ s := (.error .Http, s)
  remove _ s := (.error .Http, s)
  rename _ _ s := (.error .Http, s)
  chmod _ _ s := (.error .Http, s)
  truncate _ _ s := (.error .Http, s)
  symlink _ _ s := (.error .Http, s)

/-- A client that has the file `/f` as inode 2, and a write to it that has not been sent. -/
def writer : RacfsAsyncFs Unit :=
  let fs := RacfsAsyncFs.new 1 ()
  { fs with
    inodes := (fs.inodes.allocate ⟨ascii "/f"⟩).2
    cache := (fs.cache.pushWriteBack ⟨ascii "/f"⟩ ⟨0, ascii "x", 0⟩).2 }

/-- An entry that the client has never seen. -/
theorem failed_removal_keeps_unseen :
    (writer.unlinkAsync unreachable 1 (ascii "g")).1 = .error EIO ∧
      (SameTables writer (writer.unlinkAsync unreachable 1 (ascii "g")).2 ↔
        ∀ path, writer.childPath 1 (ascii "g") = some path → NothingKept writer path) :=
  ⟨rfl, (failed_removal_keeps_iff unreachable writer 1 (ascii "g")).1 EIO rfl⟩

/-- The file `/f` is not removed, but its number and its write are gone. -/
theorem failed_removal_loses :
    (writer.unlinkAsync unreachable 1 (ascii "f")).1 = .error EIO ∧
      writer.inodes.getPath 2 = some ⟨ascii "/f"⟩ ∧
      (writer.unlinkAsync unreachable 1 (ascii "f")).2.inodes.getPath 2 = none ∧
      ((writer.cache.writeBack.get? ⟨ascii "/f"⟩).map WriteBackEntry.segments) =
        some [⟨0, ascii "x", 0⟩] ∧
      ((writer.unlinkAsync unreachable 1 (ascii "f")).2.cache.writeBack.get?
        ⟨ascii "/f"⟩).isNone = true :=
  ⟨rfl, rfl, rfl, rfl, rfl⟩

end Racfs.Fuse
