/-
# The inode numbers of a file that is moved

The kernel addresses open files and known directory entries by their numbers, so a file that is
moved by `rename_async` (`racfs-fuse/src/async_fs.rs`) should keep its number, and so should
everything below a directory that is moved (`KeepsNumbers`).  `rename_async` drops the number of
the old path and gives the new path another one; the numbers of the paths below the old one are
left as they are.

`keepsNumbers_iff` says of every state that the client can come to when the numbers are kept
nevertheless: only if there are none to keep, or the two paths are the same.
-/
import Racfs.Fuse.InodeRuns
import Racfs.Fuse.Readdir

namespace Racfs.Fuse

open RacfsAsyncFs Server Errno

variable {σ : Type*} {remote : Remote σ}

/-! ### The tables of a run -/

lemma readdirCached_inodes (fs : RacfsAsyncFs σ) (path : PathBuf) (now : DateTime) :
    (fs.readdirCached remote path now).2.inodes = fs.inodes := by
  rw [RacfsAsyncFs.readdirCached]
  rcases fs.cache.getReaddir path now with ⟨_ | list, cache⟩
  · simp only
    rcases remote.readDir path.toStringLossy fs.server with ⟨e | list, server⟩
    · simp only
      split <;> rfl
    · rfl
  · rfl

/-- An event takes at most the numbers that are counted for it. -/
lemma moved_after (fs : RacfsAsyncFs σ) (event : Event σ) :
    fs.inodes.Moved (event.allocations remote fs) (event.after remote fs).inodes := by
  cases event with
  | op o => exact (tables_after fs o).inodes
  | readdir ino offset now =>
    rw [Event.allocations, Event.after, RacfsAsyncFs.readdirAsync]
    cases fs.inodes.getPath ino with
    | none => exact .refl _
    | some path =>
      have hinodes := @readdirCached_inodes σ remote fs path now
      simp only
      rcases hcached : fs.readdirCached remote path now with ⟨e | list, fs₁⟩
      · rw [← hinodes, hcached]
        exact .refl _
      · rw [← hinodes, hcached]
        exact moved_listEntries list fs₁.inodes
  | read ino offset size => exact (tables_readAsync ino offset size).inodes
  | write ino offset data => exact (tables_writeAsync ino offset data).inodes
  | release ino => exact (tables_releaseAsync ino).inodes
  | drop path => exact .refl 0
  | server s => exact .refl 0

/-- The tables are inverse to each other as long as the counter has room. -/
lemma sound_inodes_of_run {ttl : ℤ} {server : σ} {events : List (Event σ)}
    (hroom : StepsMeet (eventStep remote) (HasRoom remote) (RacfsAsyncFs.new ttl server) events) :
    StatesMeet (eventStep remote) (fun fs => fs.inodes.Sound) (RacfsAsyncFs.new ttl server)
      events := by
  refine statesMeet_of_stepsMeet (fun fs event fs' h hok hfs' => ?_) InodeManager.sound_new hroom
  rw [← Option.some.inj hfs']
  exact (moved_after fs event).sound h hok

/-! ### What should hold, and when it does -/

/-- The numbers of the old path and of the paths below it have the path with the new one in its
place, and all others have the path that they had. -/
def KeepsNumbers (m m' : InodeManager) (old new : PathBuf) : Prop :=
  ∀ ino path, m.getPath ino = some path →
    if path.startsWith old then
      ∃ q, m'.getPath ino = some q ∧
        q.components = new.components ++ path.components.drop old.components.length
    else m'.getPath ino = some path

/-- No number has a path that is the given one or below it. -/
def NoneBelow (m : InodeManager) (old : PathBuf) : Prop :=
  ∀ ino path, m.getPath ino = some path → path.startsWith old = false

lemma renameAsync_ok {fs fs' : RacfsAsyncFs σ} {parent newparent : UInt64} {name newname : Bytes}
    {old new : PathBuf} (hold : fs.childPath parent name = some old)
    (hnew : fs.childPath newparent newname = some new)
    (h : fs.renameAsync remote parent name newparent newname = (.ok (), fs')) :
    fs'.inodes = ((fs.forget old).inodes.allocate new).2 := by
  rw [RacfsAsyncFs.renameAsync, hold, hnew] at h
  simp only at h
  rcases call_cases fs (remote.rename old.toStringLossy new.toStringLossy) with
    ⟨-, heq⟩ | ⟨a, -, heq⟩
  · rw [heq] at h
    cases h
  · rw [heq] at h
    simp only [Prod.mk.injEq, true_and] at h
    rw [← h]
    simp only [RacfsAsyncFs.forget]
    cases fs.inodes.getInode old <;> rfl

/-- The numbers after a move, as far as they were in use before: the one of the old path is
gone, the others have the same path. -/
lemma getPath_renamed {fs : RacfsAsyncFs σ} (hm : fs.inodes.Sound) {old new : PathBuf}
    {ino : UInt64} {path : PathBuf} (hpath : fs.inodes.getPath ino = some path) :
    ((fs.forget old).inodes.allocate new).2.getPath ino =
      if (path == old) = true then none else some path := by
  have hne : ∀ {m : InodeManager}, m.nextInode = fs.inodes.nextInode →
      (m.allocate new).2.getPath ino = m.getPath ino := by
    intro m hnext
    cases hget : m.getInode new with
    | some i => rw [InodeManager.allocate_eq_of_some hget]
    | none =>
      rw [InodeManager.allocate_eq_of_none hget, InodeManager.getPath_added, if_neg]
      rw [hnext, beq_iff_eq]
      exact (UInt64.ne_of_lt (hm.below ino path hpath)).symm
  rw [RacfsAsyncFs.forget]
  cases hget : fs.inodes.getInode old with
  | none =>
    rw [hne rfl, hpath, if_neg]
    intro heq
    rw [← InodeManager.getInode_congr heq, hm.inode_of_path ino path hpath] at hget
    cases hget
  | some i =>
    obtain ⟨q, hq, hqo⟩ := hm.path_of_inode old i hget
    simp only
    rw [hne (InodeManager.nextInode_remove _ _), InodeManager.remove_eq_of_some hq,
      InodeManager.getPath_dropped, hpath]
    refine if_congr ?_ rfl rfl
    rw [beq_iff_eq]
    constructor
    · rintro rfl
      obtain rfl : q = path := Option.some.inj (hq.symm.trans hpath)
      exact hqo
    · intro heq
      have hino := hm.inode_of_path ino path hpath
      rw [InodeManager.getInode_congr heq, hget] at hino
      exact Option.some.inj hino

/-- The numbers are kept if there are none to keep, or the paths are the same, and else not. -/
lemma keepsNumbers_iff_of_sound {fs : RacfsAsyncFs σ} (hm : fs.inodes.Sound) {old new : PathBuf}
    (hfree : fs.inodes.getInode new = none) :
    KeepsNumbers fs.inodes ((fs.forget old).inodes.allocate new).2 old new ↔
      NoneBelow fs.inodes old ∨ (old == new) = true := by
  have hself : ∀ {p q : PathBuf}, (p == q) = true → p.startsWith q = true := by
    intro p q heq
    rw [PathBuf.startsWith_iff, PathBuf.beq_iff.1 heq]
  constructor
  · intro hkeeps
    by_contra! hcon
    obtain ⟨hsome, hne⟩ := hcon
    rw [NoneBelow] at hsome
    push Not at hsome
    obtain ⟨ino, path, hpath, hbelow⟩ := hsome
    have hbelow : path.startsWith old = true := by simpa using hbelow
    have hkept := hkeeps ino path hpath
    rw [if_pos hbelow, getPath_renamed hm hpath] at hkept
    obtain ⟨q, hq, hcomponents⟩ := hkept
    split_ifs at hq
    obtain rfl : path = q := Option.some.inj hq
    -- the path is itself with another first part, which then is the old one
    obtain ⟨rest, hrest⟩ := PathBuf.startsWith_iff.1 hbelow
    rw [← hrest, List.drop_left] at hcomponents
    exact hne (PathBuf.beq_iff.2 (List.append_cancel_right hcomponents))
  · intro hor ino path hpath
    rw [getPath_renamed hm hpath]
    rcases hor with hnone | heq
    · have hbelow := hnone ino path hpath
      rw [hbelow, if_neg Bool.false_ne_true, if_neg]
      intro heq
      rw [hself heq] at hbelow
      cases hbelow
    · have hne : ¬ (path == old) = true := by
        intro hpo
        rw [← InodeManager.getInode_congr (BEq.trans hpo heq),
          hm.inode_of_path ino path hpath] at hfree
        cases hfree
      rw [if_neg hne]
      split_ifs with hbelow
      · obtain ⟨rest, hrest⟩ := PathBuf.startsWith_iff.1 hbelow
        refine ⟨path, rfl, ?_⟩
        rw [← hrest, List.drop_left, ← PathBuf.beq_iff.1 heq]
      · rfl

/-- In every state of a run in which the counter does not overflow: a move to a path without a
number keeps the numbers exactly if neither the old path nor a path below it has one, or the two
paths are the same. -/
theorem keepsNumbers_iff (ttl : ℤ) (server : σ) (events : List (Event σ))
    (hroom : StepsMeet (eventStep remote) (HasRoom remote) (RacfsAsyncFs.new ttl server) events) :
    StatesMeet (eventStep remote)
      (fun fs => ∀ parent name newparent newname old new fs',
        fs.childPath parent name = some old → fs.childPath newparent newname = some new →
        fs.inodes.getInode new = none →
        fs.renameAsync remote parent name newparent newname = (.ok (), fs') →
        (KeepsNumbers fs.inodes fs'.inodes old new ↔
          NoneBelow fs.inodes old ∨ (old == new) = true))
      (RacfsAsyncFs.new ttl server) events := by
  refine (sound_inodes_of_run hroom).imp fun fs hm => ?_
  intro parent name newparent newname old new fs' hold hnew hfree hrename
  rw [renameAsync_ok hold hnew hrename]
  exact keepsNumbers_iff_of_sound hm hfree

/-- A file that has no number yet is moved from `/f` to `/g`. -/
theorem keepsNumbers_fileServer :
    ∃ fs', (RacfsAsyncFs.new 1 (fileServer [])).renameAsync
        (httpRemote Client.escaped fun _ => "") 1 (ascii "f") 1 (ascii "g") = (.ok (), fs') ∧
      KeepsNumbers .new fs'.inodes ⟨ascii "/f"⟩ ⟨ascii "/g"⟩ := by
  have hmeet := @keepsNumbers_iff _ (httpRemote Client.escaped fun _ => "") 1 (fileServer []) []
    trivial
  refine ⟨_, rfl, (hmeet 1 (ascii "f") 1 (ascii "g") ⟨ascii "/f"⟩ ⟨ascii "/g"⟩ _ rfl rfl rfl
    rfl).2 (Or.inl fun ino path hpath => ?_)⟩
  obtain ⟨a, hmem, -⟩ := AssocMap.mem_of_get? hpath
  obtain ⟨-, rfl⟩ : a = ROOT_INODE ∧ path = ⟨[slash]⟩ := by simpa using List.mem_singleton.1 hmem
  decide

/-- After a lookup the file has the number 2, which it does not keep. -/
theorem not_keepsNumbers_fileServer :
    ∃ fs fs', run (eventStep (httpRemote Client.escaped fun _ => ""))
        (RacfsAsyncFs.new 1 (fileServer [])) [.op (.lookup 1 (ascii "f") 0)] = some fs ∧
      fs.childPath 1 (ascii "f") = some ⟨ascii "/f"⟩ ∧
      fs.childPath 1 (ascii "g") = some ⟨ascii "/g"⟩ ∧
      fs.inodes.getInode ⟨ascii "/g"⟩ = none ∧
      fs.renameAsync (httpRemote Client.escaped fun _ => "") 1 (ascii "f") 1 (ascii "g") =
        (.ok (), fs') ∧
      fs.inodes.getPath 2 = some ⟨ascii "/f"⟩ ∧ fs'.inodes.getPath 2 = none ∧
      fs'.inodes.getInode ⟨ascii "/g"⟩ = some 3 ∧
      ¬ KeepsNumbers fs.inodes fs'.inodes ⟨ascii "/f"⟩ ⟨ascii "/g"⟩ := by
  refine ⟨_, _, rfl, rfl, rfl, rfl, rfl, rfl, rfl, rfl, fun h => ?_⟩
  obtain ⟨q, hq, -⟩ := h 2 ⟨ascii "/f"⟩ rfl
  cases hq

end Racfs.Fuse
