/-
# The inode numbers of a listing

`readdir_async` and `lookup_async` (`racfs-fuse/src/async_fs.rs`) both give inode numbers to the
entries of a directory: the first to the path that an entry has in the listing, the second to the
path of the directory with the name added.  For the kernel both have to be the same number.

The path in the listing is made by the mounted filesystem, and the mount table, the handler of
the server and the client pass it on.  The in-memory filesystem gives it from the listed
directory (`isEntryPath_listDirectory`), so that it is the path of the entry only when the
directory is the root.  `agrees_iff_listsRoot` says this of every state that the client can come
to: the numbers agree exactly if the directory is the root, and then only for the names that a
lookup finds at all.

The operations run one after the other, and the server may change between them.  The counter of
the inode numbers must not overflow (`HasRoom`).
-/
import Racfs.Fuse.Tables
import Racfs.Server.Api

namespace Racfs.Fuse

open RacfsAsyncFs Server Errno

variable {σ : Type*} (remote : Remote σ)

/-! ### Runs -/

/-- What can happen to the client. -/
inductive Event (σ : Type*)
  | op (op : Op)
  | readdir (ino offset : UInt64) (now : DateTime)
  | read (ino offset : UInt64) (size : UInt32)
  | write (ino offset : UInt64) (data : Bytes)
  | release (ino : UInt64)
  /-- What is cached for a path is dropped, as after a change of its extended attributes. -/
  | drop (path : PathBuf)
  /-- The server has another state. -/
  | server (s : σ)

namespace Event

/-- The state after an event. -/
def after (fs : RacfsAsyncFs σ) : Event σ → RacfsAsyncFs σ
  | op o => Fuse.after remote fs o
  | readdir ino offset now => (fs.readdirAsync remote ino offset now).2
  | read ino offset size => (fs.readAsync remote ino offset size).2
  | write ino offset data => (fs.writeAsync remote ino offset data).2
  | release ino => (fs.releaseAsync remote ino).2
  | drop path => fs.invalidate path
  | server s => { fs with server := s }

/-- The number of inode numbers that an event may take. -/
def allocations (fs : RacfsAsyncFs σ) : Event σ → ℕ
  | op _ => 1
  | readdir ino _ now =>
    match fs.inodes.getPath ino with
    | none => 0
    | some path => ((fs.readdirCached remote path now).1.toOption.getD []).length
  | _ => 0

end Event

/-- One step; every event is possible in every state. -/
def eventStep (fs : RacfsAsyncFs σ) (event : Event σ) : Option (RacfsAsyncFs σ) :=
  some (event.after remote fs)

/-- The counter has room for the numbers that an event may take. -/
def HasRoom (fs : RacfsAsyncFs σ) (event : Event σ) : Prop :=
  fs.inodes.nextInode.toNat + event.allocations remote fs < 2 ^ 64

/-! ### What should hold, and when it does -/

/-- The numbers in a listing are those of the paths of the entries, and a lookup that follows
gives the same ones. -/
def Agrees (fs : RacfsAsyncFs σ) (ino : UInt64) (now later : DateTime) : Prop :=
  ∀ path entries fs', fs.inodes.getPath ino = some path →
    fs.readdirAsync remote ino 0 now = (.ok entries, fs') →
    ∀ e kind name, (e, kind, name) ∈ entries → name ≠ [dot] → name ≠ [dot, dot] →
      (∃ q, fs'.inodes.getPath e = some q ∧ (q == path.push ⟨name⟩) = true) ∧
      ∃ attr, (fs'.lookupAsync remote ino name later).1 = .ok attr ∧ attr.ino = e

/-- Metadata of the path is cached, or the server has some. -/
def Available (fs : RacfsAsyncFs σ) (path : PathBuf) (now : DateTime) : Prop :=
  (∃ e, fs.cache.statCache.get? path = some e ∧ e.isValid now = true) ∨
    ∃ metadata, (remote.stat path.toStringLossy fs.server).1 = .ok metadata

/-- The directory is the root, and what is listed can be looked up there. -/
def ListsRoot (fs : RacfsAsyncFs σ) (ino : UInt64) (now later : DateTime) : Prop :=
  ∀ path list fs', fs.inodes.getPath ino = some path →
    fs.readdirCached remote path now = (.ok list, fs') →
    ∀ entry ∈ list, (path == ⟨ascii "/"⟩) = true ∧
      (PathBuf.mk entry.path == ⟨ascii "/.."⟩) = false ∧
      Available remote fs' (path.push ⟨entryName entry⟩) later

/-- The listings that the client gets are those of a mount table with in-memory filesystems. -/
def ListsMounts {ι : Type*} [DecidableEq ι] (format : DateTime → String) (app : σ → AppState ι) :
    Prop :=
  ∀ path s list, (remote.readDir path s).1 = .ok list → listDirectory format (app s) path = .ok list

variable {remote}

/-! ### The paths of entries -/

/-- A listing of a directory: what is used of it. -/
structure IsListing (path : PathBuf) (list : List DirectoryEntry) : Prop where
  hasRoot : path.hasRoot = true
  no_parentDir : Component.parentDir ∉ path.components
  isText : ∀ entry ∈ list, (PathBuf.mk entry.path).IsText
  entries : ∀ entry ∈ list, IsEntryPath (PathBuf.mk entry.path).components

lemma isListing_listDirectory {ι : Type*} [DecidableEq ι] {format : DateTime → String}
    {s : AppState ι} {path : PathBuf} {list : List DirectoryEntry}
    (h : listDirectory format s path.toStringLossy = .ok list) : IsListing path list := by
  obtain ⟨hroot, hparent⟩ := of_validatePath (validatePath_of_listDirectory h)
  exact ⟨hroot, hparent, fun entry hentry => (isEntryPath_listDirectory h hentry).1,
    fun entry hentry => (isEntryPath_listDirectory h hentry).2⟩

lemma IsListing.congr {path q : PathBuf} {list : List DirectoryEntry} (h : IsListing path list)
    (hq : (path == q) = true) : IsListing q list := by
  have hcomponents := PathBuf.beq_iff.1 hq
  refine ⟨?_, hcomponents ▸ h.no_parentDir, h.isText, h.entries⟩
  rw [← PathBuf.head?_components, ← hcomponents, PathBuf.head?_components]
  exact h.hasRoot

/-- The name of an entry, and the path that a lookup of it is for. -/
lemma IsListing.push_entryName_iff {path : PathBuf} {list : List DirectoryEntry}
    (h : IsListing path list) {entry : DirectoryEntry} (hentry : entry ∈ list) :
    (PathBuf.mk entry.path == path.push ⟨entryName entry⟩) = true ↔
      (path == ⟨ascii "/"⟩) = true ∧ (PathBuf.mk entry.path == ⟨ascii "/.."⟩) = false := by
  have hslash : (PathBuf.mk (ascii "/")).components = [.rootDir] := by decide
  have hdots : (PathBuf.mk (ascii "/..")).components = [.rootDir, .parentDir] := by decide
  rw [Bool.eq_false_iff, ne_eq, PathBuf.beq_iff, PathBuf.beq_iff, PathBuf.beq_iff, hslash, hdots]
  rcases h.entries entry hentry with hcs | hcs | ⟨n, hcs⟩
  · have hname : entryName entry = [] := by
      rw [entryName, PathBuf.fileName, hcs]
      rfl
    rw [hname, hcs, PathBuf.components_push_nil]
    exact ⟨fun heq => ⟨heq.symm, by simp⟩, fun heq => heq.1.symm⟩
  · have hname : entryName entry = [] := by
      rw [entryName, PathBuf.fileName, hcs]
      rfl
    rw [hname, hcs, PathBuf.components_push_nil]
    constructor
    · intro heq
      exact absurd (by rw [← heq]; simp) h.no_parentDir
    · intro heq
      exact absurd rfl heq.2
  · have hmem : Component.normal n ∈ (PathBuf.mk entry.path).components := by simp [hcs]
    have hname : entryName entry = fromUtf8Lossy n := by
      rw [entryName, PathBuf.fileName, hcs]
      rfl
    rw [hname, hcs, (h.isText entry hentry).fromUtf8Lossy_name hmem,
      PathBuf.components_push_name _ (PathBuf.isName_of_mem_components hmem)]
    constructor
    · intro heq
      have hsplit : [Component.rootDir] ++ [.normal n] = path.components ++ [.normal n] := heq
      exact ⟨(List.append_inj_left' hsplit rfl).symm, by simp⟩
    · intro heq
      rw [heq.1]
      rfl

/-! ### The numbers in a listing -/

lemma moved_listEntries (list : List DirectoryEntry) (m : InodeManager) :
    m.Moved list.length (listEntries list m).2 := by
  induction list generalizing m with
  | nil => exact .refl 0
  | cons entry rest ih =>
    have hone : m.Moved 1 (m.allocate ⟨entry.path⟩).2 := (InodeManager.Moved.refl 0).allocate _
    rw [List.length_cons, Nat.add_comm]
    exact hone.trans (ih _)

/-- The numbers that paths have stay. -/
lemma getInode_listEntries (list : List DirectoryEntry) {m : InodeManager} {p : PathBuf}
    {e : UInt64} (h : m.getInode p = some e) : (listEntries list m).2.getInode p = some e := by
  induction list generalizing m with
  | nil => exact h
  | cons entry rest ih => exact ih (InodeManager.getInode_allocate h ⟨entry.path⟩)

/-- The paths of numbers in use stay. -/
lemma getPath_listEntries (list : List DirectoryEntry) {m : InodeManager} (hm : m.Consistent)
    (hroom : m.nextInode.toNat + list.length < 2 ^ 64) {ino : UInt64} {q : PathBuf}
    (h : m.getPath ino = some q) : (listEntries list m).2.getPath ino = some q := by
  induction list generalizing m with
  | nil => exact h
  | cons entry rest ih =>
    rw [List.length_cons] at hroom
    obtain ⟨hcons, hle⟩ := hm.allocate (by omega) ⟨entry.path⟩
    exact ih hcons (by omega) (hm.getPath_allocate_of h ⟨entry.path⟩)

/-- A number in the answer is that of the path of an entry. -/
lemma exists_entry_of_mem {list : List DirectoryEntry} {m : InodeManager} {e : UInt64}
    {kind : FileType} {name : Bytes} (h : (e, kind, name) ∈ (listEntries list m).1) :
    ∃ entry ∈ list, name = entryName entry ∧
      (listEntries list m).2.getInode ⟨entry.path⟩ = some e := by
  induction list generalizing m with
  | nil => cases h
  | cons entry rest ih =>
    rcases List.mem_cons.1 h with h | h
    · cases h
      exact ⟨entry, by simp, rfl, getInode_listEntries rest (m.getInode_allocate_self _)⟩
    · obtain ⟨entry', hmem, hname, hget⟩ := ih h
      exact ⟨entry', by simp [hmem], hname, hget⟩

/-- Every entry is in the answer. -/
lemma exists_mem_of_entry {list : List DirectoryEntry} (m : InodeManager) {entry : DirectoryEntry}
    (h : entry ∈ list) :
    ∃ e, (e, entryKind entry, entryName entry) ∈ (listEntries list m).1 ∧
      (listEntries list m).2.getInode ⟨entry.path⟩ = some e := by
  induction list generalizing m with
  | nil => cases h
  | cons entry' rest ih =>
    rcases List.mem_cons.1 h with rfl | h
    · exact ⟨(m.allocate ⟨entry.path⟩).1, List.mem_cons_self,
        getInode_listEntries rest (m.getInode_allocate_self _)⟩
    · obtain ⟨e, hmem, hget⟩ := ih (m.allocate ⟨entry'.path⟩).2 h
      exact ⟨e, List.mem_cons_of_mem _ hmem, hget⟩

/-- No entry is called `.` or `..`. -/
lemma entryName_ne (entry : DirectoryEntry) :
    entryName entry ≠ [dot] ∧ entryName entry ≠ [dot, dot] := by
  have hne : ∀ t, IsAscii t → entryName entry = t → t = [] ∨ IsName t := by
    intro t ht heq
    obtain rfl := eq_of_fromUtf8Lossy_eq ht heq
    rw [PathBuf.fileName]
    split
    · next n hlast => exact Or.inr (PathBuf.isName_of_mem_components (List.mem_of_getLast? hlast))
    · exact Or.inl rfl
  constructor
  · intro heq
    rcases hne [dot] (by simp [IsAscii, dot]) heq with hnil | hname
    · cases hnil
    · exact hname.2.2.1 rfl
  · intro heq
    rcases hne [dot, dot] (by simp [IsAscii, dot]) heq with hnil | hname
    · cases hnil
    · exact hname.2.2.2 rfl

/-! ### The lookups of entries -/

section Lookup

variable {fs : RacfsAsyncFs σ}

/-- There is metadata for an answer exactly when some is available. -/
lemma exists_statCached_iff (path : PathBuf) (now : DateTime) :
    (∃ metadata, (fs.statCached remote path now).1 = some metadata) ↔
      Available remote fs path now := by
  rw [Available]
  rcases statCached_cases fs path now with ⟨e, hget, hvalid, heq⟩ | ⟨hexpired, heq, -, -⟩
  · rw [heq]
    exact ⟨fun _ => Or.inl ⟨e, hget, hvalid⟩, fun _ => ⟨e.value, rfl⟩⟩
  · rw [heq]
    constructor
    · rintro ⟨metadata, hok⟩
      refine Or.inr ⟨metadata, ?_⟩
      cases hcall : (remote.stat path.toStringLossy fs.server).1 with
      | error e =>
        rw [hcall] at hok
        cases hok
      | ok m =>
        rw [hcall] at hok
        cases hok
        rfl
    · rintro (⟨e, hget, hvalid⟩ | ⟨metadata, hok⟩)
      · rw [hexpired e hget] at hvalid
        cases hvalid
      · exact ⟨metadata, by rw [hok]; rfl⟩

lemma childPath_entryName {ino : UInt64} {path : PathBuf}
    (hpath : fs.inodes.getPath ino = some path) (entry : DirectoryEntry) :
    fs.childPath ino (entryName entry) = some (path.push ⟨entryName entry⟩) := by
  have hname : fromUtf8Lossy (entryName entry) = entryName entry := fromUtf8Lossy_fromUtf8Lossy _
  rw [childPath, hpath, hname]
  rfl

/-- A lookup of an entry succeeds exactly when metadata is available. -/
lemma exists_lookupAsync_iff {ino : UInt64} {path : PathBuf}
    (hpath : fs.inodes.getPath ino = some path) (entry : DirectoryEntry) (later : DateTime) :
    (∃ attr, (fs.lookupAsync remote ino (entryName entry) later).1 = .ok attr) ↔
      Available remote fs (path.push ⟨entryName entry⟩) later := by
  rw [lookupAsync_fst (childPath_entryName hpath entry), ← exists_statCached_iff]
  cases (fs.statCached remote (path.push ⟨entryName entry⟩) later).1 with
  | none => simp [answer]
  | some metadata => simp [answer]

/-- The number in the answer to a lookup of an entry whose path has one. -/
lemma ino_of_lookupAsync {ino e : UInt64} {path : PathBuf}
    (hpath : fs.inodes.getPath ino = some path) {entry : DirectoryEntry}
    (hget : fs.inodes.getInode ⟨entry.path⟩ = some e)
    (heq : (PathBuf.mk entry.path == path.push ⟨entryName entry⟩) = true) {later : DateTime}
    {attr : FileAttr} (h : (fs.lookupAsync remote ino (entryName entry) later).1 = .ok attr) :
    attr.ino = e := by
  rw [lookupAsync_fst (childPath_entryName hpath entry),
    InodeManager.allocate_of_getInode hget heq] at h
  cases hstat : (fs.statCached remote (path.push ⟨entryName entry⟩) later).1 with
  | none =>
    rw [hstat] at h
    cases h
  | some metadata =>
    rw [hstat] at h
    cases h
    rfl

end Lookup

/-! ### The states of a run -/

/-- The invariant. -/
structure Sound (fs : RacfsAsyncFs σ) : Prop where
  consistent : fs.inodes.Consistent
  listings : ∀ q e, fs.cache.readdirCache.get? q = some e → IsListing q e.value

section Run

variable {ι : Type*} [DecidableEq ι] {format : DateTime → String} {app : σ → AppState ι}
  {fs : RacfsAsyncFs σ}

lemma sound_new (ttl : ℤ) (server : σ) : Sound (RacfsAsyncFs.new ttl server) :=
  ⟨InodeManager.consistent_new, fun _ _ h => nomatch h⟩

lemma Sound.of_tables {fs' : RacfsAsyncFs σ} {k : ℕ} (h : Sound fs) (htables : Tables k fs fs')
    (hroom : fs.inodes.nextInode.toNat + k < 2 ^ 64) : Sound fs' :=
  ⟨(htables.inodes.consistent h.consistent hroom).1,
    fun q e hq => h.listings q e (htables.listings q e hq)⟩

/-- A listing is one of the mount table, and the inode table stays as it is. -/
lemma Sound.readdirCached (h : Sound fs) (hlists : ListsMounts remote format app)
    (path : PathBuf) (now : DateTime) :
    Sound (fs.readdirCached remote path now).2 ∧
      (fs.readdirCached remote path now).2.inodes = fs.inodes ∧
      ∀ list, (fs.readdirCached remote path now).1 = .ok list → IsListing path list := by
  have hmounts := hlists path.toStringLossy fs.server
  rw [RacfsAsyncFs.readdirCached]
  rcases fs.cache.getReaddir_cases path now with ⟨e, hget, heq⟩ | ⟨hnone, hgone, hless⟩
  · rw [heq]
    refine ⟨h, rfl, fun list hlist => ?_⟩
    cases hlist
    exact h.listings path e hget
  · simp only [hnone]
    have hkept : ∀ q e, (fs.cache.getReaddir path now).2.readdirCache.get? q = some e →
        IsListing q e.value := fun q e hq => h.listings q e (hless q e hq)
    rcases hcall : remote.readDir path.toStringLossy fs.server with ⟨e | list, server⟩
    · simp only [FuseCache.getReaddirStale, hgone, Option.map_none, ite_self]
      exact ⟨⟨h.consistent, hkept⟩, trivial, fun list hlist => nomatch hlist⟩
    · rw [hcall] at hmounts
      have hlisting : IsListing path list := isListing_listDirectory (hmounts list rfl)
      refine ⟨⟨h.consistent, fun q e hq => ?_⟩, rfl, fun list' hlist' => ?_⟩
      · simp only [FuseCache.putReaddir, AssocMap.get?_insert] at hq
        split_ifs at hq with hpq
        · cases hq
          exact hlisting.congr hpq
        · exact hkept q e hq
      · cases hlist'
        exact hlisting

lemma Sound.readdirAsync (h : Sound fs) (hlists : ListsMounts remote format app)
    {ino : UInt64} {offset : UInt64} {now : DateTime}
    (hroom : HasRoom remote fs (.readdir ino offset now)) :
    Sound (fs.readdirAsync remote ino offset now).2 := by
  rw [HasRoom, Event.allocations] at hroom
  rw [RacfsAsyncFs.readdirAsync]
  cases hpath : fs.inodes.getPath ino with
  | none => exact h
  | some path =>
    rw [hpath] at hroom
    obtain ⟨hsound, hinodes, -⟩ := h.readdirCached hlists path now
    simp only at hroom ⊢
    rcases hcached : fs.readdirCached remote path now with ⟨e | list, fs₁⟩
    · rw [hcached] at hsound
      exact hsound
    · rw [hcached] at hsound hinodes hroom
      refine ⟨?_, hsound.listings⟩
      refine ((moved_listEntries list fs₁.inodes).consistent hsound.consistent ?_).1
      rw [hinodes]
      exact hroom

lemma Sound.after (h : Sound fs) (hlists : ListsMounts remote format app) {event : Event σ}
    (hroom : HasRoom remote fs event) : Sound (event.after remote fs) := by
  cases event with
  | op o => exact h.of_tables (tables_after fs o) hroom
  | readdir ino offset now => exact h.readdirAsync hlists hroom
  | read ino offset size => exact h.of_tables (tables_readAsync ino offset size) hroom
  | write ino offset data => exact h.of_tables (tables_writeAsync ino offset data) hroom
  | release ino => exact h.of_tables (tables_releaseAsync ino) hroom
  | drop path => exact h.of_tables (tables_invalidate fs path) hroom
  | server s => exact ⟨h.consistent, h.listings⟩

/-- The invariant holds as long as the counter has room. -/
lemma sound_of_run (hlists : ListsMounts remote format app) {ttl : ℤ} {server : σ}
    {events : List (Event σ)}
    (hroom : StepsMeet (eventStep remote) (HasRoom remote) (RacfsAsyncFs.new ttl server) events) :
    StatesMeet (eventStep remote) Sound (RacfsAsyncFs.new ttl server) events := by
  refine statesMeet_of_stepsMeet (fun fs event fs' h hok hfs' => ?_) (sound_new ttl server) hroom
  rw [← Option.some.inj hfs']
  exact h.after hlists hok

/-- The answer of `readdir_async`, given the listing. -/
lemma readdirAsync_eq {fs₁ : RacfsAsyncFs σ} {ino : UInt64} {path : PathBuf} {now : DateTime}
    {list : List DirectoryEntry} (hpath : fs.inodes.getPath ino = some path)
    (hcached : fs.readdirCached remote path now = (.ok list, fs₁)) :
    fs.readdirAsync remote ino 0 now =
      (.ok ((ino, .Directory, [dot]) :: (ino, .Directory, [dot, dot]) ::
        (listEntries list fs₁.inodes).1),
        { fs₁ with inodes := (listEntries list fs₁.inodes).2 }) := by
  rw [RacfsAsyncFs.readdirAsync, hpath]
  simp only [hcached]
  rfl

lemma exists_of_readdirAsync {fs' : RacfsAsyncFs σ} {ino : UInt64} {path : PathBuf}
    {now : DateTime} {entries : List (UInt64 × FileType × Bytes)}
    (hpath : fs.inodes.getPath ino = some path)
    (h : fs.readdirAsync remote ino 0 now = (.ok entries, fs')) :
    ∃ list fs₁, fs.readdirCached remote path now = (.ok list, fs₁) := by
  rw [RacfsAsyncFs.readdirAsync, hpath] at h
  simp only at h
  rcases hcached : fs.readdirCached remote path now with ⟨e | list, fs₁⟩
  · rw [hcached] at h
    cases h
  · exact ⟨list, fs₁, rfl⟩

/-- The tables after a directory has been listed: the directory keeps its number, and the number
of an entry leads to the path of the entry in the listing. -/
lemma Sound.listed (h : Sound fs) (hlists : ListsMounts remote format app) {fs₁ : RacfsAsyncFs σ}
    {ino : UInt64} {path : PathBuf} {now : DateTime} {list : List DirectoryEntry}
    (hroom : HasRoom remote fs (.readdir ino 0 now)) (hpath : fs.inodes.getPath ino = some path)
    (hcached : fs.readdirCached remote path now = (.ok list, fs₁)) :
    IsListing path list ∧ (listEntries list fs₁.inodes).2.Consistent ∧
      (listEntries list fs₁.inodes).2.getPath ino = some path := by
  obtain ⟨hsound, hinodes, hlisting⟩ := h.readdirCached hlists path now
  rw [HasRoom, Event.allocations, hpath] at hroom
  simp only at hroom
  rw [hcached] at hsound hinodes hlisting hroom
  have hbound : fs₁.inodes.nextInode.toNat + list.length < 2 ^ 64 := by
    rw [hinodes]
    exact hroom
  refine ⟨hlisting list rfl, ?_, getPath_listEntries list hsound.consistent hbound ?_⟩
  · exact ((moved_listEntries list fs₁.inodes).consistent hsound.consistent hbound).1
  · rw [hinodes]
    exact hpath

/-- The number of an entry leads to the path that a lookup is for exactly if the directory is
the root. -/
lemma Sound.agrees_iff (h : Sound fs) (hlists : ListsMounts remote format app) (ino : UInt64)
    (now later : DateTime) (hroom : HasRoom remote fs (.readdir ino 0 now)) :
    Agrees remote fs ino now later ↔ ListsRoot remote fs ino now later := by
  constructor
  · intro hagrees path list fs₁ hpath hcached entry hentry
    obtain ⟨hlisting, hcons, hpath'⟩ := h.listed hlists hroom hpath hcached
    obtain ⟨e, hmem, hget⟩ := exists_mem_of_entry fs₁.inodes hentry
    obtain ⟨⟨q, hq, hqp⟩, attr, hlookup, -⟩ := hagrees path _ _ hpath
      (readdirAsync_eq hpath hcached) e (entryKind entry) (entryName entry)
      (List.mem_cons_of_mem _ (List.mem_cons_of_mem _ hmem)) (entryName_ne entry).1
      (entryName_ne entry).2
    obtain ⟨q', hq', hqp'⟩ := hcons.path_of_inode ⟨entry.path⟩ e hget
    obtain rfl : q' = q := Option.some.inj (hq'.symm.trans hq)
    obtain ⟨hroot, hdots⟩ := (hlisting.push_entryName_iff hentry).1
      (BEq.trans (BEq.symm hqp') hqp)
    have hiff := @exists_lookupAsync_iff σ remote
      { fs₁ with inodes := (listEntries list fs₁.inodes).2 } ino path hpath' entry later
    exact ⟨hroot, hdots, hiff.1 ⟨attr, hlookup⟩⟩
  · intro hroots path entries fs' hpath hread e kind name hmem hdot hdots
    obtain ⟨list, fs₁, hcached⟩ := exists_of_readdirAsync hpath hread
    obtain ⟨hlisting, hcons, hpath'⟩ := h.listed hlists hroom hpath hcached
    rw [readdirAsync_eq hpath hcached] at hread
    cases hread
    -- the first two entries are `.` and `..`
    have hlisted : (e, kind, name) ∈ (listEntries list fs₁.inodes).1 := by
      rcases List.mem_cons.1 hmem with heq | hmem
      · exact absurd (congrArg (·.2.2) heq) hdot
      · rcases List.mem_cons.1 hmem with heq | hmem
        · exact absurd (congrArg (·.2.2) heq) hdots
        · exact hmem
    obtain ⟨entry, hentry, rfl, hget⟩ := exists_entry_of_mem hlisted
    obtain ⟨hroot, hparent, havailable⟩ := hroots path list fs₁ hpath hcached entry hentry
    have heq := (hlisting.push_entryName_iff hentry).2 ⟨hroot, hparent⟩
    obtain ⟨q, hq, hqp⟩ := hcons.path_of_inode ⟨entry.path⟩ e hget
    obtain ⟨attr, hlookup⟩ := (@exists_lookupAsync_iff σ remote
      { fs₁ with inodes := (listEntries list fs₁.inodes).2 } ino path hpath' entry later).2
      havailable
    exact ⟨⟨q, hq, BEq.trans hqp heq⟩, attr, hlookup,
      ino_of_lookupAsync hpath' hget heq hlookup⟩

/-- In every state of a run in which the counter does not overflow, the numbers of a listing
agree with those of lookups exactly if the directory is the root and what is listed can be
looked up there. -/
theorem agrees_iff_listsRoot (hlists : ListsMounts remote format app) (ttl : ℤ) (server : σ)
    (events : List (Event σ))
    (hroom : StepsMeet (eventStep remote) (HasRoom remote) (RacfsAsyncFs.new ttl server) events) :
    StatesMeet (eventStep remote)
      (fun fs => ∀ ino now later, HasRoom remote fs (.readdir ino 0 now) →
        (Agrees remote fs ino now later ↔ ListsRoot remote fs ino now later))
      (RacfsAsyncFs.new ttl server) events :=
  (sound_of_run hlists hroom).imp fun _ h ino now later hroom' =>
    h.agrees_iff hlists ino now later hroom'

end Run

/-! ### A running server -/

section Http

variable {ι : Type*} [DecidableEq ι] (json : Client.JsonString) (format : DateTime → String)

/-- The result of the client for a response of the server. -/
def received {A : Type*} (r : Response A × ServerState ι) :
    Except Client.Error A × ServerState ι :=
  (Client.handleResponse r.1, r.2)

/-- The calls of the client on a running server. -/
def httpRemote : Remote (ServerState ι) where
  stat path s := received (s.stat format path)
  readDir path s := received (listDirectory format s.app path, s)
  readFile path s := (Client.readFile json s.app path, s)
  writeFile path data offset s := received (s.writeFile ⟨path, data, offset⟩)
  createFile path s := received (s.createFile path)
  mkdir path perm s := received (s.createDirectory path perm)
  remove path s := received (s.deleteFile path)
  rename oldPath newPath s := received (s.rename oldPath newPath)
  chmod path mode s := received (s.chmod path mode)
  truncate path size s := received (s.truncate path size)
  symlink target linkPath s := received (s.symlink target linkPath)

lemma listsMounts_httpRemote :
    ListsMounts (@httpRemote ι _ json format) format ServerState.app :=
  fun _ _ _ h => Client.handleResponse_eq_ok h

end Http

/-- A server with an in-memory filesystem that has a file `f`. -/
def fileServer (mountPoint : Bytes) : ServerState Unit where
  app :=
    ⟨(Vfs.MountableFS.new.mount ⟨mountPoint⟩ ()).2,
      fun _ => ((MemFs.MemFS.new 0).create ⟨ascii "/f"⟩ 0).2⟩
  statCache := ⟨∅, 2⟩
  clock := 0

/-- At the root, the number of the file is the same in a listing and in a lookup. -/
theorem agrees_iff_listsRoot_fileServer :
    Agrees (httpRemote Client.escaped fun _ => "") (RacfsAsyncFs.new 1 (fileServer [])) 1 0 0 := by
  have hmeet := agrees_iff_listsRoot (listsMounts_httpRemote Client.escaped fun _ => "") 1
    (fileServer []) [] trivial
  have hroom : HasRoom (httpRemote Client.escaped fun _ => "")
      (RacfsAsyncFs.new 1 (fileServer [])) (.readdir 1 0 0) := by
    show 2 + 1 < 2 ^ 64
    decide
  refine (hmeet 1 0 0 hroom).2 fun path list fs' hpath hcached entry hentry => ?_
  cases hpath
  have hlist : list = [⟨"644", 0, some "", ascii "/f", "file"⟩] :=
    (Except.ok.inj (congrArg Prod.fst hcached)).symm
  rw [hlist, List.mem_singleton] at hentry
  cases hentry
  have hserver : fs'.server = fileServer [] := congrArg (fun r => r.2.server) hcached.symm
  refine ⟨by decide, by decide, Or.inr ?_⟩
  rw [hserver]
  exact ⟨_, rfl⟩

/-- In the listing of `/memfs` the file gets the number 3, for the path `/f`, and in a lookup that
follows the number 4. -/
theorem not_agrees_fileServer :
    ∃ fs, run (eventStep (httpRemote Client.escaped fun _ => ""))
        (RacfsAsyncFs.new 1 (fileServer (ascii "/memfs"))) [.op (.lookup 1 (ascii "memfs") 0)] =
          some fs ∧
      fs.inodes.getPath 2 = some ⟨ascii "/memfs"⟩ ∧
      (∃ attr, ((fs.readdirAsync (httpRemote Client.escaped fun _ => "") 2 0 0).2.lookupAsync
        (httpRemote Client.escaped fun _ => "") 2 (ascii "f") 0).1 = .ok attr ∧ attr.ino = 4) ∧
      ¬ Agrees (httpRemote Client.escaped fun _ => "") fs 2 0 0 := by
  refine ⟨_, rfl, rfl, ⟨_, rfl, rfl⟩, fun h => ?_⟩
  obtain ⟨⟨q, hq, hqp⟩, -⟩ := h ⟨ascii "/memfs"⟩
    [(2, .Directory, [dot]), (2, .Directory, [dot, dot]), (3, .RegularFile, ascii "f")] _ rfl rfl
    3 .RegularFile (ascii "f") (by simp) (by decide) (by decide)
  cases hq
  exact absurd hqp (by decide)

end Racfs.Fuse
