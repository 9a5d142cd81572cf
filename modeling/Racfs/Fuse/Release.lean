/-
# Closing a file drops the locks of its owner

`release` of `BlockingAdapter` (`racfs-fuse/src/blocking_adapter.rs`) is what the kernel calls
when a file is closed: it has `FileLockState::remove_owner` remove the locks of the owner, and
then sends what is buffered for the file.  The locks are removed on all inodes, not only on the
one that is closed (`release_removes_owner`); so a close keeps the locks on the other inodes
exactly if the owner has none there (`release_keeps_others_iff`).
-/
import Racfs.Fuse.AsyncFs
import Racfs.Fuse.FailedRemoval
import Racfs.Fuse.Locks

namespace Racfs.Fuse

/-- What the kernel talks to: the client of the server, and the table of locks. -/
structure BlockingAdapter (σ : Type*) where
  asyncFs : RacfsAsyncFs σ
  lockState : FileLockState

namespace BlockingAdapter

variable {σ : Type*} (remote : Remote σ) (fs : BlockingAdapter σ)

/-- A file is closed. -/
def release (ino : UInt64) (lockOwner : Option UInt64) :
    Except Errno Unit × BlockingAdapter σ :=
  let lockState :=
    match lockOwner with
    | some owner => fs.lockState.removeOwner owner
    | none => fs.lockState
  let r := fs.asyncFs.releaseAsync remote ino
  (r.1, ⟨r.2, lockState⟩)

variable {remote fs}

lemma held_release_some (ino owner ino' : UInt64) :
    (fs.release remote ino (some owner)).2.lockState.held ino' =
      (fs.lockState.held ino').filter fun e => e.owner != owner := by
  rw [release, FileLockState.held_removeOwner]

lemma mem_held_release_some {ino owner ino' : UInt64} {e : LockEntry} :
    e ∈ (fs.release remote ino (some owner)).2.lockState.held ino' ↔
      e ∈ fs.lockState.held ino' ∧ e.owner ≠ owner := by
  rw [held_release_some, List.mem_filter, bne_iff_ne]

/-- A close by an owner removes exactly the locks of this owner, on the inode that is closed and
on all others.  The locks of the other owners stay, on every inode and in their order, and a
close without an owner changes nothing in the table. -/
theorem release_removes_owner (remote : Remote σ) (fs : BlockingAdapter σ) (ino : UInt64) :
    (∀ owner ino' e, e ∈ (fs.release remote ino (some owner)).2.lockState.held ino' ↔
      e ∈ fs.lockState.held ino' ∧ e.owner ≠ owner) ∧
    (∀ owner other ino', other ≠ owner →
      ((fs.release remote ino (some owner)).2.lockState.held ino').filter (·.owner == other) =
        (fs.lockState.held ino').filter (·.owner == other)) ∧
    (fs.release remote ino none).2.lockState = fs.lockState := by
  refine ⟨fun owner ino' e => mem_held_release_some, fun owner other ino' hne => ?_, rfl⟩
  rw [held_release_some, List.filter_filter]
  refine List.filter_congr fun e _ => ?_
  -- a lock of the other owner passes the filter
  by_cases he : e.owner = other
  · simp [he, hne]
  · simp [he]

/-- The locks on the other inodes stay exactly if the owner has none there. -/
theorem release_keeps_others_iff {ino owner : UInt64} :
    (∀ ino', ino' ≠ ino →
      (fs.release remote ino (some owner)).2.lockState.held ino' = fs.lockState.held ino') ↔
      ∀ ino', ino' ≠ ino → ∀ e ∈ fs.lockState.held ino', e.owner ≠ owner := by
  refine forall_congr' fun ino' => forall_congr' fun _ => ?_
  rw [held_release_some, List.filter_eq_self]
  simp only [bne_iff_ne]

/-- An owner that has two files open, with a write lock on each of them. -/
def twoFiles : BlockingAdapter Unit :=
  let locks := (FileLockState.new.setLock 10 1 0 100 fWrlck 1000 false).2
  ⟨.new 1 (), (locks.setLock 11 1 0 100 fWrlck 1000 false).2⟩

/-- Closing inode 10 takes away the lock on inode 11 as well, and another owner gets it. -/
theorem release_loses_other_file :
    (⟨0, 100, fWrlck, 1000, 1⟩ : LockEntry) ∈ twoFiles.lockState.held 11 ∧
      (twoFiles.release unreachable 10 (some 1)).2.lockState.held 11 = [] ∧
      (twoFiles.lockState.getConflict 11 0 100 fWrlck 2).isSome = true ∧
      ((twoFiles.release unreachable 10 (some 1)).2.lockState.getConflict
        11 0 100 fWrlck 2).isSome = false := by
  refine ⟨List.mem_singleton.2 rfl, rfl, rfl, rfl⟩

end BlockingAdapter

end Racfs.Fuse
