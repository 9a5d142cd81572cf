/-
# The operations of the FUSE client

`RacfsAsyncFs` (`racfs-fuse/src/async_fs.rs`): the operations that the kernel calls, each from
its beginning to its end.  An operation finds the path of an inode, looks into the cache, calls
the server, and updates the cache and the table of inodes.

The calls of `Client` are a parameter, `Remote`: functions on the states of a server.  What the
results below need of a server is assumed of these functions where it is needed.  The times to
live in the answers to the kernel, which are constant, and the log are left out.

After the definitions, what an operation can do to the state is said once for every operation
(`makeEntry_cases` and the others).
-/
import Racfs.Client
import Racfs.Fuse.Attr
import Racfs.Fuse.Cache
import Racfs.Fuse.InodeManager
import Racfs.Fuse.Merge

namespace Racfs.Fuse

open Server Errno

/-- A call of the client: a result, and what it makes of the server. -/
abbrev Call (σ A : Type*) := σ → Except Client.Error A × σ

/-- The calls of the client, on a server with states `σ`. -/
structure Remote (σ : Type*) where
  stat : (path : Bytes) → Call σ MetadataResponse
  readDir : (path : Bytes) → Call σ (List DirectoryEntry)
  readFile : (path : Bytes) → Call σ Bytes
  writeFile : (path data : Bytes) → (offset : Option Int64) → Call σ Bytes
  createFile : (path : Bytes) → Call σ Bytes
  mkdir : (path : Bytes) → (perm : Option UInt32) → Call σ Bytes
  remove : (path : Bytes) → Call σ Bytes
  rename : (oldPath newPath : Bytes) → Call σ Bytes
  chmod : (path : Bytes) → (mode : UInt32) → Call σ Bytes
  truncate : (path : Bytes) → (size : UInt64) → Call σ Bytes
  symlink : (target linkPath : Bytes) → Call σ Bytes

/-- The tables of the client, and the state of the server at the other end. -/
structure RacfsAsyncFs (σ : Type*) where
  inodes : InodeManager
  cache : FuseCache MetadataResponse (List DirectoryEntry)
  /-- How long metadata and listings stay in the cache. -/
  ttl : ℤ
  server : σ

namespace RacfsAsyncFs

variable {σ : Type*} (remote : Remote σ) (fs : RacfsAsyncFs σ)

/-- Nothing is known but the root. -/
def new (ttl : ℤ) (server : σ) : RacfsAsyncFs σ := ⟨.new, .new, ttl, server⟩

/-- Drop what is cached for a path. -/
def invalidate (path : PathBuf) : RacfsAsyncFs σ := { fs with cache := fs.cache.invalidate path }

/-- Call the server; every error is an `EIO`. -/
def call {A : Type*} (c : Call σ A) : Except Errno A × RacfsAsyncFs σ :=
  match c fs.server with
  | (.ok a, server) => (.ok a, { fs with server := server })
  | (.error _, server) => (.error EIO, { fs with server := server })

/-! ### Metadata -/

/-- The metadata of a path from the cache or else from the server, which is then cached.  When
the server is not reached, a cached value would do although it has expired. -/
def statCached (path : PathBuf) (now : DateTime) : Option MetadataResponse × RacfsAsyncFs σ :=
  let hit := fs.cache.getStat path now
  let fs := { fs with cache := hit.2 }
  match hit.1 with
  | some metadata => (some metadata, fs)
  | none =>
    match remote.stat path.toStringLossy fs.server with
    | (.ok metadata, server) =>
      (some metadata,
        { fs with cache := fs.cache.putStat path metadata (now + fs.ttl), server := server })
    | (.error e, server) =>
      (if e.isUnreachable then fs.cache.getStatStale path else none, { fs with server := server })

/-- The attributes of a path, which gets an inode number. -/
def allocated (path : PathBuf) (metadata : MetadataResponse) : FileAttr × RacfsAsyncFs σ :=
  let r := fs.inodes.allocate path
  (metadataToAttr r.1 metadata, { fs with inodes := r.2 })

/-- The path of a name in a directory. -/
def childPath (parent : UInt64) (name : Bytes) : Option PathBuf :=
  (fs.inodes.getPath parent).map fun parentPath => parentPath.push ⟨fromUtf8Lossy name⟩

/-- The attributes of a name in a directory. -/
def lookupAsync (parent : UInt64) (name : Bytes) (now : DateTime) :
    Except Errno FileAttr × RacfsAsyncFs σ :=
  match fs.childPath parent name with
  | none => (.error ENOENT, fs)
  | some path =>
    match fs.statCached remote path now with
    | (some metadata, fs) =>
      let r := fs.allocated path metadata
      (.ok r.1, r.2)
    | (none, fs) => (.error ENOENT, fs)

/-- The attributes of an inode. -/
def getattrAsync (ino : UInt64) (now : DateTime) : Except Errno FileAttr × RacfsAsyncFs σ :=
  match fs.inodes.getPath ino with
  | none => (.error ENOENT, fs)
  | some path =>
    match fs.statCached remote path now with
    | (some metadata, fs) => (.ok (metadataToAttr ino metadata), fs)
    | (none, fs) => (.error ENOENT, fs)

/-! ### Listings -/

/-- The listing of a path from the cache or else from the server, which is then cached.  When
the server is not reached, a cached listing would do although it has expired. -/
def readdirCached (path : PathBuf) (now : DateTime) :
    Except Errno (List DirectoryEntry) × RacfsAsyncFs σ :=
  let hit := fs.cache.getReaddir path now
  let fs := { fs with cache := hit.2 }
  match hit.1 with
  | some list => (.ok list, fs)
  | none =>
    match remote.readDir path.toStringLossy fs.server with
    | (.ok list, server) =>
      (.ok list,
        { fs with cache := fs.cache.putReaddir path list (now + fs.ttl), server := server })
    | (.error e, server) =>
      match if e.isUnreachable then fs.cache.getReaddirStale path else none with
      | some list => (.ok list, { fs with server := server })
      | none => (.error EIO, { fs with server := server })

/-- The kind of an entry of a listing. -/
def entryKind (entry : DirectoryEntry) : FileType :=
  if entry.fileType = "directory" then .Directory
  else if entry.fileType = "symlink" then .Symlink
  else if entry.path.getLast? = some slash then .Directory
  else .RegularFile

/-- The name of an entry of a listing: the last one of its path. -/
def entryName (entry : DirectoryEntry) : Bytes :=
  fromUtf8Lossy ((PathBuf.mk entry.path).fileName.getD [])

/-- The loop over the entries of a listing.  An entry gets the inode number of its path as it
stands in the listing. -/
def listEntries : List DirectoryEntry → InodeManager →
    List (UInt64 × FileType × Bytes) × InodeManager
  | [], inodes => ([], inodes)
  | entry :: rest, inodes =>
    let r := inodes.allocate ⟨entry.path⟩
    let listed := listEntries rest r.2
    ((r.1, entryKind entry, entryName entry) :: listed.1, listed.2)

/-- The entries of a directory from the given one on. -/
def readdirAsync (ino offset : UInt64) (now : DateTime) :
    Except Errno (List (UInt64 × FileType × Bytes)) × RacfsAsyncFs σ :=
  match fs.inodes.getPath ino with
  | none => (.error ENOENT, fs)
  | some path =>
    match fs.readdirCached remote path now with
    | (.error e, fs) => (.error e, fs)
    | (.ok list, fs) =>
      let r := listEntries list fs.inodes
      let entries := (ino, .Directory, [dot]) :: (ino, .Directory, [dot, dot]) :: r.1
      (.ok (entries.drop offset.toNat), { fs with inodes := r.2 })

/-! ### Entries -/

/-- Make an entry of a directory: the call, the invalidation, and the metadata of the new entry,
which is not cached. -/
def makeEntry (call : (path : Bytes) → Call σ Bytes) (parent : UInt64) (name : Bytes) :
    Except Errno FileAttr × RacfsAsyncFs σ :=
  match fs.childPath parent name with
  | none => (.error ENOENT, fs)
  | some path =>
    match fs.call (call path.toStringLossy) with
    | (.error e, fs) => (.error e, fs)
    | (.ok _, fs) =>
      match (fs.invalidate path).call (remote.stat path.toStringLossy) with
      | (.error e, fs) => (.error e, fs)
      | (.ok metadata, fs) =>
        let r := fs.allocated path metadata
        (.ok r.1, r.2)

/-- Create a file. -/
def createAsync (parent : UInt64) (name : Bytes) : Except Errno FileAttr × RacfsAsyncFs σ :=
  fs.makeEntry remote remote.createFile parent name

/-- Create a directory. -/
def mkdirAsync (parent : UInt64) (name : Bytes) (mode : UInt32) :
    Except Errno FileAttr × RacfsAsyncFs σ :=
  fs.makeEntry remote (fun path => remote.mkdir path (some mode)) parent name

/-- Create a symbolic link. -/
def symlinkAsync (parent : UInt64) (name target : Bytes) :
    Except Errno FileAttr × RacfsAsyncFs σ :=
  fs.makeEntry remote (fun path => remote.symlink (fromUtf8Lossy target) path) parent name

/-- Forget the inode number of a path. -/
def forget (path : PathBuf) : RacfsAsyncFs σ :=
  match fs.inodes.getInode path with
  | some ino => { fs with inodes := fs.inodes.remove ino }
  | none => fs

/-- Remove an entry of a directory; the tables are changed before the call. -/
def removeEntry (parent : UInt64) (name : Bytes) : Except Errno Unit × RacfsAsyncFs σ :=
  match fs.childPath parent name with
  | none => (.error ENOENT, fs)
  | some path =>
    match ((fs.forget path).invalidate path).call (remote.remove path.toStringLossy) with
    | (.error e, fs) => (.error e, fs)
    | (.ok _, fs) => (.ok (), fs)

/-- Remove a file. -/
def unlinkAsync (parent : UInt64) (name : Bytes) : Except Errno Unit × RacfsAsyncFs σ :=
  fs.removeEntry remote parent name

/-- Remove a directory. -/
def rmdirAsync (parent : UInt64) (name : Bytes) : Except Errno Unit × RacfsAsyncFs σ :=
  fs.removeEntry remote parent name

/-- Move an entry. -/
def renameAsync (parent : UInt64) (name : Bytes) (newparent : UInt64) (newname : Bytes) :
    Except Errno Unit × RacfsAsyncFs σ :=
  match fs.childPath parent name, fs.childPath newparent newname with
  | some oldPath, some newPath =>
    match fs.call (remote.rename oldPath.toStringLossy newPath.toStringLossy) with
    | (.error e, fs) => (.error e, fs)
    | (.ok _, fs) =>
      let fs := { fs with cache := fs.cache.invalidateRename oldPath newPath }.forget oldPath
      (.ok (), { fs with inodes := (fs.inodes.allocate newPath).2 })
  | _, _ => (.error ENOENT, fs)

/-- Set the permissions of a file.  What is cached for it stays. -/
def chmodAsync (ino : UInt64) (mode : UInt32) : Except Errno FileAttr × RacfsAsyncFs σ :=
  match fs.inodes.getPath ino with
  | none => (.error ENOENT, fs)
  | some path =>
    match fs.call (remote.chmod path.toStringLossy mode) with
    | (.error e, fs) => (.error e, fs)
    | (.ok _, fs) =>
      match fs.call (remote.stat path.toStringLossy) with
      | (.error e, fs) => (.error e, fs)
      | (.ok metadata, fs) => (.ok (metadataToAttr ino metadata), fs)

/-- Cut off or pad a file. -/
def truncateAsync (ino : UInt64) (size : UInt64) : Except Errno FileAttr × RacfsAsyncFs σ :=
  match fs.inodes.getPath ino with
  | none => (.error ENOENT, fs)
  | some path =>
    match fs.call (remote.truncate path.toStringLossy size) with
    | (.error e, fs) => (.error e, fs)
    | (.ok _, fs) =>
      match (fs.invalidate path).call (remote.stat path.toStringLossy) with
      | (.error e, fs) => (.error e, fs)
      | (.ok metadata, fs) => (.ok (metadataToAttr ino metadata), fs)

/-! ### Contents -/

/-- The part of a content that is asked for. -/
def slice (content : Bytes) (offset : UInt64) (size : UInt32) : Bytes :=
  let start := offset.toNat
  let stop := min (start + size.toNat) content.length
  if start < content.length then (content.take stop).drop start else []

/-- Read from a file: from its cached content, or else from the server's, which is then
cached. -/
def readAsync (ino offset : UInt64) (size : UInt32) : Except Errno Bytes × RacfsAsyncFs σ :=
  match fs.inodes.getPath ino with
  | none => (.error ENOENT, fs)
  | some path =>
    match fs.cache.getFileContent path with
    | some cached => (.ok (slice cached offset size), fs)
    | none =>
      match fs.call (remote.readFile path.toStringLossy) with
      | (.error e, fs) => (.error e, fs)
      | (.ok content, fs) =>
        (.ok (slice content offset size),
          { fs with cache := fs.cache.putFileContent path content })

/-- Send the runs one after the other; the first failure ends it. -/
def sendRuns (path : Bytes) : List Run → RacfsAsyncFs σ → Except Errno Unit × RacfsAsyncFs σ
  | [], fs => (.ok (), fs)
  | (offset, data) :: rest, fs =>
    match fs.call (remote.writeFile path (fromUtf8Lossy data) (some offset.toInt64)) with
    | (.error e, fs) => (.error e, fs)
    | (.ok _, fs) => sendRuns path rest fs

/-- Merge the buffered writes of a path and send them. -/
def flushWriteBack (path : PathBuf) : Except Errno Unit × RacfsAsyncFs σ :=
  let r := fs.cache.takePendingWrites path
  let fs := { fs with cache := r.2 }
  if r.1.isEmpty then (.ok (), fs)
  else
    match sendRuns remote path.toStringLossy (mergeWriteSegments (r.1.map Segment.pair)) fs with
    | (.error e, fs) => (.error e, fs)
    | (.ok _, fs) => (.ok (), fs.invalidate path)

/-- Write to a file.  A short write is buffered, and the buffer is flushed when it is full; a
long one is sent after the buffer. -/
def writeAsync (ino offset : UInt64) (data : Bytes) : Except Errno UInt32 × RacfsAsyncFs σ :=
  match fs.inodes.getPath ino with
  | none => (.error ENOENT, fs)
  | some path =>
    let len := data.length.toUInt32
    if data.length ≤ DEFAULT_WRITE_BACK_MAX_CHUNK then
      let r := fs.cache.pushWriteBack path ⟨offset, data, 0⟩
      let fs := { fs with cache := r.2 }
      if r.1 ≥ DEFAULT_WRITE_BACK_FLUSH_SIZE then
        match fs.flushWriteBack remote path with
        | (.error e, fs) => (.error e, fs)
        | (.ok _, fs) => (.ok len, fs)
      else (.ok len, fs)
    else
      match fs.flushWriteBack remote path with
      | (.error e, fs) => (.error e, fs)
      | (.ok _, fs) =>
        match fs.call (remote.writeFile path.toStringLossy (fromUtf8Lossy data)
          (some offset.toInt64)) with
        | (.error e, fs) => (.error e, fs)
        | (.ok _, fs) => (.ok len, fs.invalidate path)

/-- A file is closed: what is buffered for it is sent. -/
def releaseAsync (ino : UInt64) : Except Errno Unit × RacfsAsyncFs σ :=
  match fs.inodes.getPath ino with
  | none => (.ok (), fs)
  -- a failure of the flush is not reported
  | some path => (.ok (), (fs.flushWriteBack remote path).2)

end RacfsAsyncFs

/-! ### What the operations do -/

open RacfsAsyncFs

variable {σ : Type*} {remote : Remote σ}

/-- The call succeeds. -/
def Succeeds {A : Type*} (c : Call σ A) (s : σ) : Prop := ∃ a, (c s).1 = .ok a

/-- A call, and the state after it. -/
lemma call_cases {A : Type*} (fs : RacfsAsyncFs σ) (c : Call σ A) :
    (¬ Succeeds c fs.server ∧ fs.call c = (.error EIO, { fs with server := (c fs.server).2 })) ∨
    ∃ a, (c fs.server).1 = .ok a ∧ fs.call c = (.ok a, { fs with server := (c fs.server).2 }) := by
  rw [RacfsAsyncFs.call, Succeeds]
  rcases c fs.server with ⟨e | a, server⟩
  · exact Or.inl ⟨by simp, rfl⟩
  · exact Or.inr ⟨a, rfl, rfl⟩

/-- The tables after a call are those before. -/
lemma call_tables {A : Type*} {fs fs' : RacfsAsyncFs σ} {c : Call σ A} {r : Except Errno A}
    (h : fs.call c = (r, fs')) : fs'.inodes = fs.inodes ∧ fs'.cache = fs.cache := by
  rcases call_cases fs c with ⟨-, heq⟩ | ⟨a, -, heq⟩
  · rw [heq] at h
    rw [← (Prod.mk.inj h).2]
    exact ⟨rfl, rfl⟩
  · rw [heq] at h
    rw [← (Prod.mk.inj h).2]
    exact ⟨rfl, rfl⟩

/-- The metadata of a path is found in the cache, or the server is asked. -/
lemma statCached_cases (fs : RacfsAsyncFs σ) (path : PathBuf) (now : DateTime) :
    (∃ e, fs.cache.statCache.get? path = some e ∧ e.isValid now = true ∧
      fs.statCached remote path now = (some e.value, fs)) ∨
    ((∀ e, fs.cache.statCache.get? path = some e → e.isValid now = false) ∧
      (fs.statCached remote path now).1 = (remote.stat path.toStringLossy fs.server).1.toOption ∧
      (fs.statCached remote path now).2.inodes = fs.inodes ∧
      ∀ q e, (fs.statCached remote path now).2.cache.statCache.get? q = some e →
        fs.cache.statCache.get? q = some e ∨ (path == q) = true ∧
          (remote.stat path.toStringLossy fs.server).1.toOption = some e.value) := by
  rw [statCached]
  rcases fs.cache.getStat_cases path now with
    ⟨e, hget, hvalid, heq⟩ | ⟨hexpired, hnone, hgone, hless⟩
  · rw [heq]
    exact Or.inl ⟨e, hget, hvalid, rfl⟩
  · refine Or.inr ⟨hexpired, ?_⟩
    rcases remote.stat path.toStringLossy fs.server with ⟨e | metadata, server⟩
    · simp only [hnone, FuseCache.getStatStale, hgone, Option.map_none, ite_self]
      exact ⟨rfl, trivial, fun q e hq => Or.inl (hless q e hq)⟩
    · simp only [hnone]
      refine ⟨rfl, trivial, fun q e hq => ?_⟩
      simp only [FuseCache.putStat, AssocMap.get?_insert] at hq
      split_ifs at hq with hpq
      · cases hq
        exact Or.inr ⟨hpq, rfl⟩
      · exact Or.inl (hless q e hq)

lemma statCached_inodes (fs : RacfsAsyncFs σ) (path : PathBuf) (now : DateTime) :
    (fs.statCached remote path now).2.inodes = fs.inodes := by
  rcases statCached_cases fs path now with ⟨e, -, -, heq⟩ | ⟨-, -, heq, -⟩
  · rw [heq]
  · exact heq

/-- The tables after a lookup. -/
lemma lookupAsync_cases (fs : RacfsAsyncFs σ) (parent : UInt64) (name : Bytes) (now : DateTime) :
    (fs.lookupAsync remote parent name now).2 = fs ∨
    ∃ path, fs.childPath parent name = some path ∧
      (fs.lookupAsync remote parent name now).2.cache =
        (fs.statCached remote path now).2.cache ∧
      ((fs.lookupAsync remote parent name now).2.inodes = fs.inodes ∨
        (fs.lookupAsync remote parent name now).2.inodes = (fs.inodes.allocate path).2) := by
  rw [RacfsAsyncFs.lookupAsync]
  cases hpath : fs.childPath parent name with
  | none => exact Or.inl rfl
  | some path =>
    have hinodes := @statCached_inodes σ remote fs path now
    refine Or.inr ⟨path, rfl, ?_⟩
    simp only
    rcases hcached : fs.statCached remote path now with ⟨_ | metadata, fs'⟩
    · rw [hcached] at hinodes
      exact ⟨rfl, Or.inl hinodes⟩
    · rw [hcached] at hinodes
      refine ⟨rfl, Or.inr ?_⟩
      show (fs'.inodes.allocate path).2 = (fs.inodes.allocate path).2
      exact congrArg (fun m => (InodeManager.allocate m path).2) hinodes

/-- The tables after a request for attributes. -/
lemma getattrAsync_cases (fs : RacfsAsyncFs σ) (ino : UInt64) (now : DateTime) :
    (fs.getattrAsync remote ino now).2 = fs ∨
    ∃ path, fs.inodes.getPath ino = some path ∧
      (fs.getattrAsync remote ino now).2 = (fs.statCached remote path now).2 := by
  rw [RacfsAsyncFs.getattrAsync]
  cases hpath : fs.inodes.getPath ino with
  | none => exact Or.inl rfl
  | some path =>
    refine Or.inr ⟨path, rfl, ?_⟩
    simp only
    rcases fs.statCached remote path now with ⟨_ | metadata, fs'⟩ <;> rfl

/-- Only the inode table changes when a number is forgotten. -/
lemma forget_eq (fs : RacfsAsyncFs σ) (path : PathBuf) :
    fs.forget path = { fs with inodes := (fs.forget path).inodes } := by
  rw [RacfsAsyncFs.forget]
  cases fs.inodes.getInode path <;> rfl

/-- An entry is made: no path, a failed call, or a call after which what is cached for the path
is dropped and the metadata is asked for. -/
lemma makeEntry_cases (fs : RacfsAsyncFs σ) (c : (path : Bytes) → Call σ Bytes) (parent : UInt64)
    (name : Bytes) :
    (fs.childPath parent name = none ∧ (fs.makeEntry remote c parent name).2 = fs) ∨
    ∃ path, fs.childPath parent name = some path ∧
      ((¬ Succeeds (c path.toStringLossy) fs.server ∧ (fs.makeEntry remote c parent name).2 =
        { fs with server := (c path.toStringLossy fs.server).2 }) ∨
      ∃ inodes, (inodes = fs.inodes ∨ inodes = (fs.inodes.allocate path).2) ∧
        (fs.makeEntry remote c parent name).2 =
          { fs with
            inodes := inodes
            cache := fs.cache.invalidate path
            server := (remote.stat path.toStringLossy (c path.toStringLossy fs.server).2).2 }) := by
  rw [RacfsAsyncFs.makeEntry]
  cases fs.childPath parent name with
  | none => exact Or.inl ⟨rfl, rfl⟩
  | some path =>
    refine Or.inr ⟨path, rfl, ?_⟩
    simp only
    rcases call_cases fs (c path.toStringLossy) with ⟨hfail, heq⟩ | ⟨a, -, heq⟩
    · rw [heq]
      exact Or.inl ⟨hfail, rfl⟩
    · rw [heq]
      simp only
      set made := ({ fs with server := (c path.toStringLossy fs.server).2 } :
        RacfsAsyncFs σ).invalidate path with hmade
      rcases call_cases made (remote.stat path.toStringLossy) with ⟨-, hstat⟩ | ⟨m, -, hstat⟩
      · rw [hstat]
        exact Or.inr ⟨fs.inodes, Or.inl rfl, rfl⟩
      · rw [hstat]
        exact Or.inr ⟨(fs.inodes.allocate path).2, Or.inr rfl, rfl⟩

/-- An entry is removed: the tables change whether the call succeeds or not. -/
lemma removeEntry_cases (fs : RacfsAsyncFs σ) (parent : UInt64) (name : Bytes) :
    (fs.childPath parent name = none ∧ (fs.removeEntry remote parent name).2 = fs) ∨
    ∃ path, fs.childPath parent name = some path ∧ (fs.removeEntry remote parent name).2 =
      { fs with
        inodes := (fs.forget path).inodes
        cache := fs.cache.invalidate path
        server := (remote.remove path.toStringLossy fs.server).2 } := by
  rw [RacfsAsyncFs.removeEntry]
  cases fs.childPath parent name with
  | none => exact Or.inl ⟨rfl, rfl⟩
  | some path =>
    refine Or.inr ⟨path, rfl, ?_⟩
    simp only
    rw [forget_eq]
    set gone := ({ fs with inodes := (fs.forget path).inodes } : RacfsAsyncFs σ).invalidate path
      with hgone
    rcases call_cases gone (remote.remove path.toStringLossy) with ⟨-, heq⟩ | ⟨a, -, heq⟩
    all_goals
      rw [heq]
      rfl

/-- An entry is moved. -/
lemma renameAsync_cases (fs : RacfsAsyncFs σ) (parent : UInt64) (name : Bytes)
    (newparent : UInt64) (newname : Bytes) :
    ((fs.childPath parent name = none ∨ fs.childPath newparent newname = none) ∧
      (fs.renameAsync remote parent name newparent newname).2 = fs) ∨
    ∃ old new, fs.childPath parent name = some old ∧ fs.childPath newparent newname = some new ∧
      ((¬ Succeeds (remote.rename old.toStringLossy new.toStringLossy) fs.server ∧
        (fs.renameAsync remote parent name newparent newname).2 =
          { fs with server := (remote.rename old.toStringLossy new.toStringLossy fs.server).2 }) ∨
      (fs.renameAsync remote parent name newparent newname).2 =
        { fs with
          inodes := ((fs.forget old).inodes.allocate new).2
          cache := fs.cache.invalidateRename old new
          server := (remote.rename old.toStringLossy new.toStringLossy fs.server).2 }) := by
  rw [RacfsAsyncFs.renameAsync]
  cases fs.childPath parent name with
  | none => exact Or.inl ⟨Or.inl rfl, rfl⟩
  | some old =>
    cases fs.childPath newparent newname with
    | none => exact Or.inl ⟨Or.inr rfl, rfl⟩
    | some new =>
      refine Or.inr ⟨old, new, rfl, rfl, ?_⟩
      simp only
      rcases call_cases fs (remote.rename old.toStringLossy new.toStringLossy) with
        ⟨hfail, heq⟩ | ⟨a, -, heq⟩
      · rw [heq]
        exact Or.inl ⟨hfail, rfl⟩
      · rw [heq]
        refine Or.inr ?_
        simp only [RacfsAsyncFs.forget]
        cases fs.inodes.getInode old <;> rfl

/-- Permissions are set: nothing happens to the tables. -/
lemma chmodAsync_cases (fs : RacfsAsyncFs σ) (ino : UInt64) (mode : UInt32) :
    (fs.inodes.getPath ino = none ∧ (fs.chmodAsync remote ino mode).2 = fs) ∨
    ∃ path, fs.inodes.getPath ino = some path ∧
      ((fs.chmodAsync remote ino mode).2 =
        { fs with server := (remote.chmod path.toStringLossy mode fs.server).2 } ∨
      (fs.chmodAsync remote ino mode).2 =
        { fs with
          server := (remote.stat path.toStringLossy
            (remote.chmod path.toStringLossy mode fs.server).2).2 }) := by
  rw [RacfsAsyncFs.chmodAsync]
  cases fs.inodes.getPath ino with
  | none => exact Or.inl ⟨rfl, rfl⟩
  | some path =>
    refine Or.inr ⟨path, rfl, ?_⟩
    simp only
    rcases call_cases fs (remote.chmod path.toStringLossy mode) with ⟨-, heq⟩ | ⟨a, -, heq⟩
    · rw [heq]
      exact Or.inl rfl
    · rw [heq]
      refine Or.inr ?_
      simp only
      set changed : RacfsAsyncFs σ :=
        { fs with server := (remote.chmod path.toStringLossy mode fs.server).2 } with hchanged
      rcases call_cases changed (remote.stat path.toStringLossy) with ⟨-, hstat⟩ | ⟨m, -, hstat⟩
      all_goals
        rw [hstat]

/-- A file is cut off or padded: what is cached for it is dropped after a success. -/
lemma truncateAsync_cases (fs : RacfsAsyncFs σ) (ino size : UInt64) :
    (fs.inodes.getPath ino = none ∧ (fs.truncateAsync remote ino size).2 = fs) ∨
    ∃ path, fs.inodes.getPath ino = some path ∧
      ((¬ Succeeds (remote.truncate path.toStringLossy size) fs.server ∧
        (fs.truncateAsync remote ino size).2 =
          { fs with server := (remote.truncate path.toStringLossy size fs.server).2 }) ∨
      (fs.truncateAsync remote ino size).2 =
        { fs with
          cache := fs.cache.invalidate path
          server := (remote.stat path.toStringLossy
            (remote.truncate path.toStringLossy size fs.server).2).2 }) := by
  rw [RacfsAsyncFs.truncateAsync]
  cases fs.inodes.getPath ino with
  | none => exact Or.inl ⟨rfl, rfl⟩
  | some path =>
    refine Or.inr ⟨path, rfl, ?_⟩
    simp only
    rcases call_cases fs (remote.truncate path.toStringLossy size) with ⟨hfail, heq⟩ | ⟨a, -, heq⟩
    · rw [heq]
      exact Or.inl ⟨hfail, rfl⟩
    · rw [heq]
      refine Or.inr ?_
      simp only
      set cut := ({ fs with server := (remote.truncate path.toStringLossy size fs.server).2 } :
        RacfsAsyncFs σ).invalidate path with hcut
      rcases call_cases cut (remote.stat path.toStringLossy) with ⟨-, hstat⟩ | ⟨m, -, hstat⟩
      all_goals
        rw [hstat]
        rfl

/-- Runs are sent: only the server changes. -/
lemma sendRuns_tables (path : Bytes) (runs : List Run) (fs : RacfsAsyncFs σ) :
    (RacfsAsyncFs.sendRuns remote path runs fs).2.inodes = fs.inodes ∧
      (RacfsAsyncFs.sendRuns remote path runs fs).2.cache = fs.cache := by
  induction runs generalizing fs with
  | nil => exact ⟨rfl, rfl⟩
  | cons run runs ih =>
    rw [RacfsAsyncFs.sendRuns]
    rcases hcall : fs.call (remote.writeFile path (fromUtf8Lossy run.2) (some run.1.toInt64)) with
      ⟨e | a, sent⟩
    · exact call_tables hcall
    · obtain ⟨hinodes, hcache⟩ := call_tables hcall
      obtain ⟨hinodes', hcache'⟩ := ih sent
      exact ⟨hinodes'.trans hinodes, hcache'.trans hcache⟩

/-- A buffer is flushed: its writes are taken out, and after a success what is cached for the
path is dropped. -/
lemma flushWriteBack_tables (fs : RacfsAsyncFs σ) (path : PathBuf) :
    (fs.flushWriteBack remote path).2.inodes = fs.inodes ∧
      ((fs.flushWriteBack remote path).2.cache = (fs.cache.takePendingWrites path).2 ∨
        (fs.flushWriteBack remote path).2.cache =
          (fs.cache.takePendingWrites path).2.invalidate path) := by
  set taken : RacfsAsyncFs σ := { fs with cache := (fs.cache.takePendingWrites path).2 }
    with htaken
  rw [RacfsAsyncFs.flushWriteBack]
  split_ifs
  · exact ⟨rfl, Or.inl rfl⟩
  · obtain ⟨hinodes, hcache⟩ := @sendRuns_tables σ remote path.toStringLossy
      (mergeWriteSegments ((fs.cache.takePendingWrites path).1.map Segment.pair)) taken
    rcases hsend : RacfsAsyncFs.sendRuns remote path.toStringLossy
      (mergeWriteSegments ((fs.cache.takePendingWrites path).1.map Segment.pair)) taken with
      ⟨e | a, sent⟩
    · rw [hsend] at hinodes hcache
      exact ⟨hinodes, Or.inl hcache⟩
    · rw [hsend] at hinodes hcache
      exact ⟨hinodes, Or.inr (congrArg (FuseCache.invalidate · path) hcache)⟩

end Racfs.Fuse
