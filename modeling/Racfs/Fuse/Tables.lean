/-
# The inode table and the cached listings

What the operations of `RacfsAsyncFs` (`racfs-fuse/src/async_fs.rs`) do to the table of inodes
and to the cached listings: all but `readdir_async` take at most one inode number, and cache no
listing (`tables_after`).
-/
import Racfs.Fuse.AttrCoherence

namespace Racfs.Fuse

open RacfsAsyncFs Server Errno

variable {σ : Type*} {remote : Remote σ}

/-- The inode table has been changed by at most `k` allocations and by removals, and no listing
is cached that was not. -/
structure Tables (k : ℕ) (fs fs' : RacfsAsyncFs σ) : Prop where
  inodes : fs.inodes.Moved k fs'.inodes
  listings : ∀ q e, fs'.cache.readdirCache.get? q = some e → fs.cache.readdirCache.get? q = some e

variable {fs fs' : RacfsAsyncFs σ}

lemma Tables.refl (k : ℕ) (fs : RacfsAsyncFs σ) : Tables k fs fs := ⟨.refl k, fun _ _ h => h⟩

lemma Tables.trans {fs₁ fs₂ fs₃ : RacfsAsyncFs σ} {j k : ℕ} (h : Tables j fs₁ fs₂)
    (h' : Tables k fs₂ fs₃) : Tables (j + k) fs₁ fs₃ :=
  ⟨h.inodes.trans h'.inodes, fun q e hq => h.listings q e (h'.listings q e hq)⟩

lemma Tables.then {fs₁ fs₂ fs₃ : RacfsAsyncFs σ} {k : ℕ} (h : Tables k fs₁ fs₂)
    (h' : Tables 0 fs₂ fs₃) : Tables k fs₁ fs₃ := h.trans h'

lemma Tables.after {fs₁ fs₂ fs₃ : RacfsAsyncFs σ} {k : ℕ} (h' : Tables k fs₂ fs₃)
    (h : Tables 0 fs₁ fs₂) : Tables k fs₁ fs₃ := by
  have htrans := h.trans h'
  rwa [Nat.zero_add] at htrans

lemma tables_call {A : Type*} {c : Call σ A} {r : Except Errno A} (h : fs.call c = (r, fs')) :
    Tables 0 fs fs' := by
  obtain ⟨hinodes, hcache⟩ := call_tables h
  refine ⟨?_, ?_⟩
  · rw [hinodes]
    exact .refl 0
  · rw [hcache]
    exact fun _ _ hq => hq

lemma tables_invalidate (fs : RacfsAsyncFs σ) (path : PathBuf) : Tables 0 fs (fs.invalidate path) :=
  ⟨.refl 0, fun _ _ h => FuseCache.of_getReaddir_invalidate h⟩

lemma tables_forget (fs : RacfsAsyncFs σ) (path : PathBuf) : Tables 0 fs (fs.forget path) := by
  rw [RacfsAsyncFs.forget]
  cases fs.inodes.getInode path with
  | none => exact .refl 0 fs
  | some ino => exact ⟨(InodeManager.Moved.refl 0).remove ino, fun _ _ h => h⟩

lemma tables_allocated (fs : RacfsAsyncFs σ) (path : PathBuf) (metadata : MetadataResponse) :
    Tables 1 fs (fs.allocated path metadata).2 :=
  ⟨(InodeManager.Moved.refl 0).allocate path, fun _ _ h => h⟩

lemma tables_statCached (fs : RacfsAsyncFs σ) (path : PathBuf) (now : DateTime) :
    Tables 0 fs (fs.statCached remote path now).2 := by
  have hlistings : (fs.statCached remote path now).2.cache.readdirCache =
      fs.cache.readdirCache := by
    rw [RacfsAsyncFs.statCached]
    rcases hhit : fs.cache.getStat path now with ⟨_ | m, c⟩
    · have hsame : c.readdirCache = fs.cache.readdirCache :=
        congrArg (fun r => r.2.readdirCache) hhit.symm
      rcases remote.stat path.toStringLossy fs.server with ⟨e | m, server⟩ <;> exact hsame
    · exact congrArg (fun r => r.2.readdirCache) hhit.symm
  refine ⟨?_, ?_⟩
  · rw [statCached_inodes]
    exact .refl 0
  · rw [hlistings]
    exact fun _ _ h => h

lemma tables_lookupAsync (parent : UInt64) (name : Bytes) (now : DateTime) :
    Tables 1 fs (fs.lookupAsync remote parent name now).2 := by
  rw [RacfsAsyncFs.lookupAsync]
  cases fs.childPath parent name with
  | none => exact .refl 1 fs
  | some path =>
    have hstat := @tables_statCached σ remote fs path now
    simp only
    rcases hcached : fs.statCached remote path now with ⟨_ | metadata, fs₁⟩
    · rw [hcached] at hstat
      exact (Tables.refl 1 fs).then hstat
    · rw [hcached] at hstat
      exact (tables_allocated fs₁ path metadata).after hstat

lemma tables_getattrAsync (ino : UInt64) (now : DateTime) :
    Tables 0 fs (fs.getattrAsync remote ino now).2 := by
  rcases @getattrAsync_cases σ remote fs ino now with heq | ⟨path, -, heq⟩
  · rw [heq]
    exact .refl 0 fs
  · rw [heq]
    exact tables_statCached fs path now

lemma tables_makeEntry (c : (path : Bytes) → Call σ Bytes) (parent : UInt64) (name : Bytes) :
    Tables 1 fs (fs.makeEntry remote c parent name).2 := by
  rcases @makeEntry_cases σ remote fs c parent name with
    ⟨-, heq⟩ | ⟨path, -, ⟨-, heq⟩ | ⟨inodes, hinodes, heq⟩⟩
  · rw [heq]
    exact .refl 1 fs
  · rw [heq]
    exact ⟨.refl 1, fun _ _ h => h⟩
  · rw [heq]
    refine ⟨?_, fun _ _ h => FuseCache.of_getReaddir_invalidate h⟩
    rcases hinodes with rfl | rfl
    · exact .refl 1
    · exact (InodeManager.Moved.refl 0).allocate path

lemma tables_removeEntry (parent : UInt64) (name : Bytes) :
    Tables 0 fs (fs.removeEntry remote parent name).2 := by
  rcases @removeEntry_cases σ remote fs parent name with ⟨-, heq⟩ | ⟨path, -, heq⟩
  · rw [heq]
    exact .refl 0 fs
  · rw [heq]
    exact ⟨(tables_forget fs path).inodes, fun _ _ h => FuseCache.of_getReaddir_invalidate h⟩

lemma tables_renameAsync (parent : UInt64) (name : Bytes) (newparent : UInt64)
    (newname : Bytes) : Tables 1 fs (fs.renameAsync remote parent name newparent newname).2 := by
  rcases @renameAsync_cases σ remote fs parent name newparent newname with
    ⟨-, heq⟩ | ⟨old, new, -, -, ⟨-, heq⟩ | heq⟩
  · rw [heq]
    exact .refl 1 fs
  · rw [heq]
    exact ⟨.refl 1, fun _ _ h => h⟩
  · rw [heq]
    exact ⟨(tables_forget fs old).inodes.allocate new,
      fun _ _ h => FuseCache.of_getReaddir_invalidateRename h⟩

lemma tables_chmodAsync (ino : UInt64) (mode : UInt32) :
    Tables 0 fs (fs.chmodAsync remote ino mode).2 := by
  rcases @chmodAsync_cases σ remote fs ino mode with ⟨-, heq⟩ | ⟨path, -, heq | heq⟩
  all_goals
    rw [heq]
    exact ⟨.refl 0, fun _ _ h => h⟩

lemma tables_truncateAsync (ino size : UInt64) :
    Tables 0 fs (fs.truncateAsync remote ino size).2 := by
  rcases @truncateAsync_cases σ remote fs ino size with
    ⟨-, heq⟩ | ⟨path, -, ⟨-, heq⟩ | heq⟩
  · rw [heq]
    exact .refl 0 fs
  · rw [heq]
    exact ⟨.refl 0, fun _ _ h => h⟩
  · rw [heq]
    exact ⟨.refl 0, fun _ _ h => FuseCache.of_getReaddir_invalidate h⟩

/-- An operation takes one inode number at most, and caches no listing. -/
lemma tables_after (fs : RacfsAsyncFs σ) (op : Op) : Tables 1 fs (after remote fs op) := by
  cases op with
  | lookup parent name now => exact tables_lookupAsync parent name now
  | getattr ino now => exact (Tables.refl 1 fs).then (tables_getattrAsync ino now)
  | create parent name => exact tables_makeEntry _ parent name
  | mkdir parent name mode => exact tables_makeEntry _ parent name
  | symlink parent name target => exact tables_makeEntry _ parent name
  | unlink parent name => exact (Tables.refl 1 fs).then (tables_removeEntry parent name)
  | rmdir parent name => exact (Tables.refl 1 fs).then (tables_removeEntry parent name)
  | rename parent name newparent newname => exact tables_renameAsync parent name newparent newname
  | chmod ino mode => exact (Tables.refl 1 fs).then (tables_chmodAsync ino mode)
  | truncate ino size => exact (Tables.refl 1 fs).then (tables_truncateAsync ino size)

/-! ### Contents -/

lemma tables_readAsync (ino offset : UInt64) (size : UInt32) :
    Tables 0 fs (fs.readAsync remote ino offset size).2 := by
  rw [RacfsAsyncFs.readAsync]
  cases fs.inodes.getPath ino with
  | none => exact .refl 0 fs
  | some path =>
    simp only
    cases fs.cache.getFileContent path with
    | some cached => exact .refl 0 fs
    | none =>
      simp only
      rcases hcall : fs.call (remote.readFile path.toStringLossy) with ⟨e | a, fs₁⟩
      · exact tables_call hcall
      · exact (tables_call hcall).then ⟨.refl 0, fun _ _ h => h⟩

lemma tables_flushWriteBack (fs : RacfsAsyncFs σ) (path : PathBuf) :
    Tables 0 fs (fs.flushWriteBack remote path).2 := by
  have htaken : (fs.cache.takePendingWrites path).2.readdirCache = fs.cache.readdirCache := by
    rw [FuseCache.takePendingWrites]
    cases fs.cache.writeBack.get? path <;> rfl
  obtain ⟨hinodes, hcache⟩ := @flushWriteBack_tables σ remote fs path
  refine ⟨by rw [hinodes]; exact .refl 0, fun q e hq => ?_⟩
  rw [← htaken]
  rcases hcache with hcache | hcache
  · rwa [hcache] at hq
  · rw [hcache] at hq
    exact FuseCache.of_getReaddir_invalidate hq

lemma tables_writeAsync (ino offset : UInt64) (data : Bytes) :
    Tables 0 fs (fs.writeAsync remote ino offset data).2 := by
  rw [RacfsAsyncFs.writeAsync]
  cases fs.inodes.getPath ino with
  | none => exact .refl 0 fs
  | some path =>
    simp only
    split_ifs with hsmall hfull
    · set pushed : RacfsAsyncFs σ :=
        { fs with cache := (fs.cache.pushWriteBack path ⟨offset, data, 0⟩).2 } with hpushed
      have hpush : Tables 0 fs pushed := ⟨.refl 0, fun _ _ h => h⟩
      have hflush := hpush.then (@tables_flushWriteBack σ remote pushed path)
      rcases hsent : pushed.flushWriteBack remote path with ⟨e | a, fs₁⟩
      all_goals
        rw [hsent] at hflush
        exact hflush
    · exact ⟨.refl 0, fun _ _ h => h⟩
    · have hflush := @tables_flushWriteBack σ remote fs path
      rcases hsent : fs.flushWriteBack remote path with ⟨e | a, fs₁⟩
      · rw [hsent] at hflush
        exact hflush
      · rw [hsent] at hflush
        simp only
        rcases hcall : fs₁.call (remote.writeFile path.toStringLossy (fromUtf8Lossy data)
          (some offset.toInt64)) with ⟨e | a, fs₂⟩
        · exact hflush.then (tables_call hcall)
        · exact (hflush.then (tables_call hcall)).then (tables_invalidate fs₂ path)

lemma tables_releaseAsync (ino : UInt64) : Tables 0 fs (fs.releaseAsync remote ino).2 := by
  rw [RacfsAsyncFs.releaseAsync]
  cases fs.inodes.getPath ino with
  | none => exact .refl 0 fs
  | some path => exact tables_flushWriteBack fs path

end Racfs.Fuse
