/-
# The endpoints for directories and metadata

The handlers behind `/api/v1/directories` (`racfs-server/src/api/directories.rs`), the ones for
metadata (`racfs-server/src/api/metadata.rs`) and the removal of a file
(`racfs-server/src/api/files.rs`), and the cache of metadata that stands before the filesystem
(`racfs-server/src/stat_cache.rs`).  Every handler that changes something drops the cached
metadata of its paths when it succeeds.

The metrics are left out.
-/
import Racfs.Server.Files
import Racfs.Server.Metadata

namespace Racfs.Server

open Vfs MemFs

/-! ### The cache -/

/-- Metadata, by path, with the time at which it expires. -/
structure StatCache where
  entries : AssocMap PathBuf (FileMetadata × DateTime)
  ttl : ℤ

namespace StatCache

/-- Cache what has been fetched, unless that failed. -/
def fetched (c : StatCache) (path : PathBuf) (now : DateTime) :
    Outcome FileMetadata → Outcome FileMetadata × StatCache
  | .ok m => (.ok m, { c with entries := c.entries.insert path (m, now + c.ttl) })
  | .err e => (.err e, c)
  | .panic => (.panic, c)

/-- The cached metadata of a path, or else what is fetched. -/
def getOrFetch (c : StatCache) (path : PathBuf) (now : DateTime) (fetch : Outcome FileMetadata) :
    Outcome FileMetadata × StatCache :=
  match c.entries.get? path with
  | some (m, expires) =>
    if now < expires then (.ok m, c)
    else { c with entries := c.entries.erase path }.fetched path now fetch
  | none => c.fetched path now fetch

/-- Drop the metadata of a path and of its parent. -/
def invalidate (c : StatCache) (path : PathBuf) : StatCache :=
  { c with
    entries :=
      match path.parent with
      | some parent => (c.entries.erase path).erase parent
      | none => c.entries.erase path }

/-- Drop the metadata of both paths of a rename. -/
def invalidateRename (c : StatCache) (oldPath newPath : PathBuf) : StatCache :=
  (c.invalidate oldPath).invalidate newPath

lemma fst_fetched (c : StatCache) (path : PathBuf) (now : DateTime) (x : Outcome FileMetadata) :
    (c.fetched path now x).1 = x := by
  cases x <;> rfl

/-- What is still cached after an invalidation is what was cached. -/
lemma subset_invalidate (c : StatCache) (path : PathBuf) :
    (c.invalidate path).entries.entries ⊆ c.entries.entries := by
  rw [invalidate]
  cases path.parent with
  | none => exact List.filter_subset_self _
  | some parent =>
    exact List.Subset.trans (List.filter_subset_self _) (List.filter_subset_self _)

/-- What is not cached is not cached after an invalidation. -/
lemma get?_invalidate_of_none {c : StatCache} {k : PathBuf} (h : c.entries.get? k = none)
    (path : PathBuf) : (c.invalidate path).entries.get? k = none := by
  rw [invalidate]
  cases path.parent with
  | none => simp [AssocMap.get?_erase, h]
  | some parent => simp [AssocMap.get?_erase, h]

lemma get?_invalidate_self (c : StatCache) (path : PathBuf) :
    (c.invalidate path).entries.get? path = none := by
  rw [invalidate]
  cases path.parent with
  | none => simp
  | some parent => simp [AssocMap.get?_erase]

end StatCache

/-! ### Calls of the filesystem -/

namespace AppState

variable {ι : Type*} [DecidableEq ι] (s : AppState ι)

/-- The metadata of a path. -/
def stat (path : PathBuf) : Outcome FileMetadata :=
  (s.vfs.resolveFs path).bind fun r => (s.backend r.1).stat r.2

/-- The entries of a directory.  Their paths are passed on as the mounted filesystem gives
them. -/
def readDir (path : PathBuf) : Outcome (List FileMetadata) :=
  (s.vfs.resolveFs path).map fun r => (s.backend r.1).readDir r.2

/-- Rename inside of one mounted filesystem. -/
def rename (oldPath newPath : PathBuf) : Outcome Reply × AppState ι :=
  match s.vfs.resolveFs oldPath with
  | .err e => (.err e, s)
  | .panic => (.panic, s)
  | .ok (i, relativeOld) =>
    match s.vfs.resolveFs newPath with
    | .err e => (.err e, s)
    | .panic => (.panic, s)
    | .ok (j, relativeNew) =>
      if i = j then
        let r := (s.backend i).rename relativeOld relativeNew
        (r.1, { s with backend := Function.update s.backend i r.2 })
      else (.err .CrossDeviceLink, s)

end AppState

/-! ### Handlers -/

section Handlers

variable {ι : Type*} [DecidableEq ι]

/-- The check of the permissions that are to be set. -/
def validateMode (mode : UInt32) : Option HttpErrorResponse :=
  if mode > 0o7777 then
    some (badRequest (ascii "mode must be a valid Unix permission (0o0000..0o7777)")
      (ascii "mode: 0o" ++ ascii (octal mode.toNat)))
  else none

/-- `GET`: list a directory. -/
def listDirectory (format : DateTime → String) (s : AppState ι) (path : Bytes) :
    Response (List DirectoryEntry) :=
  match validatePath path with
  | some e => .error e
  | none =>
    respond (ascii "read_dir") ⟨path⟩ (List.map (DirectoryEntry.ofMetadata format))
      (s.readDir ⟨path⟩)

/-- A running server: the filesystem, the cached metadata and the time. -/
structure ServerState (ι : Type*) where
  app : AppState ι
  statCache : StatCache
  clock : DateTime

namespace ServerState

variable (s : ServerState ι)

/-- The end of a handler that changes something: cached metadata is dropped after a success. -/
def conclude (r : Response Bytes × AppState ι) (drop : StatCache → StatCache) :
    Response Bytes × ServerState ι :=
  match r.1 with
  | .ok body => (.ok body, { s with app := r.2, statCache := drop s.statCache })
  | .error e => (.error e, { s with app := r.2 })
  | .panic => (.panic, { s with app := r.2 })

/-- The common part of the handlers that change one path: the call, its response, and the
dropping of what is cached. -/
def change (operation : Bytes) (path : PathBuf) (message : Bytes)
    (f : MemFS → PathBuf → Outcome Reply × MemFS) : Response Bytes × ServerState ι :=
  let r := s.app.mutate path f
  s.conclude (respond operation path (fun _ => message) r.1, r.2) (·.invalidate path)

/-- `POST`: create a file. -/
def createFile (path : Bytes) : Response Bytes × ServerState ι :=
  s.conclude (Server.createFile s.app path s.clock) (·.invalidate ⟨path⟩)

/-- `PUT`: write data at an offset. -/
def writeFile (body : WriteRequest) : Response Bytes × ServerState ι :=
  s.conclude (Server.writeFile s.app body s.clock) (·.invalidate ⟨body.path⟩)

/-- `DELETE`: remove a file or an empty directory. -/
def deleteFile (path : Bytes) : Response Bytes × ServerState ι :=
  match validatePath path with
  | some e => (.error e, s)
  | none => s.change (ascii "remove") ⟨path⟩ (ascii "Deleted: " ++ path) fun fs p => fs.remove p

/-- `POST`: create a directory. -/
def createDirectory (path : Bytes) (perm : Option UInt32) : Response Bytes × ServerState ι :=
  match validatePath path with
  | some e => (.error e, s)
  | none =>
    s.change (ascii "mkdir") ⟨path⟩ (ascii "Created directory: " ++ path) fun fs p =>
      fs.mkdir p (perm.getD 0o755) s.clock

/-- The metadata of a path. -/
def stat (format : DateTime → String) (path : Bytes) :
    Response MetadataResponse × ServerState ι :=
  match validatePath path with
  | some e => (.error e, s)
  | none =>
    let r := s.statCache.getOrFetch ⟨path⟩ s.clock (s.app.stat ⟨path⟩)
    (respond (ascii "stat") ⟨path⟩ (MetadataResponse.ofMetadata format) r.1,
      { s with statCache := r.2 })

/-- Rename a file. -/
def rename (oldPath newPath : Bytes) : Response Bytes × ServerState ι :=
  match validatePath oldPath with
  | some e => (.error e, s)
  | none =>
    match validatePath newPath with
    | some e => (.error e, s)
    | none =>
      let r := s.app.rename ⟨oldPath⟩ ⟨newPath⟩
      let message := ascii "Renamed " ++ oldPath ++ ascii " to " ++ newPath
      s.conclude (respond (ascii "rename") ⟨oldPath⟩ (fun _ => message) r.1, r.2)
        (·.invalidateRename ⟨oldPath⟩ ⟨newPath⟩)

/-- Set the permissions. -/
def chmod (path : Bytes) (mode : UInt32) : Response Bytes × ServerState ι :=
  match validatePath path with
  | some e => (.error e, s)
  | none =>
    match validateMode mode with
    | some e => (.error e, s)
    | none =>
      s.change (ascii "chmod") ⟨path⟩
        (ascii "Changed permissions of " ++ path ++ ascii " to " ++ ascii (octal mode.toNat))
        fun fs p => fs.chmod p mode s.clock

/-- Cut off or pad a file. -/
def truncate (path : Bytes) (size : UInt64) : Response Bytes × ServerState ι :=
  match validatePath path with
  | some e => (.error e, s)
  | none =>
    s.change (ascii "truncate") ⟨path⟩
      (ascii "Truncated " ++ path ++ ascii " to " ++ ascii (toString size.toNat) ++
        ascii " bytes")
      fun fs p => fs.truncate p size s.clock

/-- Create a symbolic link.  Its target is checked like a path. -/
def symlink (target linkPath : Bytes) : Response Bytes × ServerState ι :=
  match validatePath target with
  | some e => (.error e, s)
  | none =>
    match validatePath linkPath with
    | some e => (.error e, s)
    | none =>
      s.change (ascii "symlink") ⟨linkPath⟩
        (ascii "Symlink " ++ linkPath ++ ascii " -> " ++ target)
        fun fs p => fs.symlink ⟨target⟩ p s.clock

end ServerState

end Handlers

/-! ### The paths in a listing -/

/-- The components of the path of an entry: the root alone, or the root and one more. -/
def IsEntryPath (cs : List Component) : Prop :=
  cs = [.rootDir] ∨ cs = [.rootDir, .parentDir] ∨ ∃ n, cs = [.rootDir, .normal n]

lemma IsEntryPath.lossy {cs : List Component} (h : IsEntryPath cs) :
    IsEntryPath (cs.map Component.lossy) := by
  rcases h with rfl | rfl | ⟨n, rfl⟩
  · exact Or.inl rfl
  · exact Or.inr (Or.inl rfl)
  · exact Or.inr (Or.inr ⟨fromUtf8Lossy n, rfl⟩)

lemma isEntryPath_of_length {p : PathBuf} (hroot : p.hasRoot = true)
    (hlen : p.components.length ≤ 2) : IsEntryPath p.components := by
  have hmem : ∀ c ∈ (p.bytes.tail.splitOn slash).filterMap Component.parse,
      c = .parentDir ∨ ∃ n, c = .normal n ∧ IsName n := fun c hc => PathBuf.mem_filterMap_parse hc
  rw [PathBuf.components, if_pos hroot] at hlen ⊢
  generalize (p.bytes.tail.splitOn slash).filterMap Component.parse = cs at hmem hlen ⊢
  rcases cs with _ | ⟨c, _ | ⟨c', cs⟩⟩
  · exact Or.inl rfl
  · rcases hmem c (by simp) with rfl | ⟨n, rfl, -⟩
    · exact Or.inr (Or.inl rfl)
    · exact Or.inr (Or.inr ⟨n, rfl⟩)
  · simp at hlen

/-- A relative path below the root has at most one component more. -/
lemma length_push_rootPath {p : PathBuf} (hroot : p.hasRoot = false) :
    (MemFS.rootPath.push p).hasRoot = true ∧
      (MemFS.rootPath.push p).components.length ≤ p.components.length + 1 := by
  have hpush : MemFS.rootPath.push p = ⟨slash :: p.bytes⟩ := by
    rw [PathBuf.push, hroot, if_neg (by simp), if_neg (by decide)]
    rfl
  refine ⟨by rw [hpush]; simp [PathBuf.hasRoot], ?_⟩
  rw [hpush, PathBuf.components_cons_slash, PathBuf.components, hroot, if_neg (by simp)]
  cases p.bytes.splitOn slash with
  | nil => simp
  | cons first rest =>
    have hfirst : (Component.parse first).toList.length ≤
        (if first = [dot] then [Component.curDir] else (Component.parse first).toList).length := by
      split_ifs with hdot
      · subst hdot
        decide
      · exact le_rfl
    have hpieces : (first :: rest).filterMap Component.parse =
        (Component.parse first).toList ++ rest.filterMap Component.parse := by
      rw [List.filterMap_cons]
      cases Component.parse first <;> rfl
    rw [hpieces, List.length_cons, List.length_append, List.length_append]
    omega

/-- The path of an entry does not have the path of the listed directory in it. -/
lemma isEntryPath_childEntry {pre : Bytes} {p : PathBuf} {e : FileEntry} {m : FileMetadata}
    (h : MemFS.childEntry pre p e = some m) : IsEntryPath m.path.components := by
  rw [MemFS.childEntry] at h
  simp only at h
  set relative := if pre = [] then p else (p.stripPrefix ⟨pre⟩).getD p with hrelative
  split_ifs at h with hslash hlen hhead
  · cases h
    have hroot : relative.hasRoot = true := by
      rw [PathBuf.hasRoot, beq_iff_eq]
      exact (head?_fromUtf8Lossy relative.bytes).1 hhead
    refine isEntryPath_of_length hroot ?_
    show relative.components.length ≤ 2
    omega
  · cases h
    have hroot : relative.hasRoot = false := by
      rw [Bool.eq_false_iff, ne_eq, PathBuf.hasRoot, beq_iff_eq]
      exact fun hr => hhead ((head?_fromUtf8Lossy relative.bytes).2 hr)
    have hone : relative.components.length = 1 := by
      rcases hlen with hlen | ⟨-, hhead⟩
      · exact hlen
      · rw [PathBuf.head?_components, hroot] at hhead
        cases hhead
    obtain ⟨habs, hle⟩ := length_push_rootPath hroot
    refine isEntryPath_of_length habs ?_
    show (MemFS.rootPath.push relative).components.length ≤ 2
    omega

/-- The path of a directory that is listed has passed the check. -/
lemma validatePath_of_listDirectory {ι : Type*} [DecidableEq ι] {format : DateTime → String}
    {s : AppState ι} {path : Bytes} {list : List DirectoryEntry}
    (h : listDirectory format s path = .ok list) : validatePath path = none := by
  rw [listDirectory] at h
  cases hvalid : validatePath path with
  | some e =>
    rw [hvalid] at h
    cases h
  | none => rfl

/-- A path that passes the check is absolute and without `..`. -/
lemma of_validatePath {p : PathBuf} (h : validatePath p.toStringLossy = none) :
    p.hasRoot = true ∧ Component.parentDir ∉ p.components := by
  rw [validatePath] at h
  split_ifs at h with hnil hhead hnul hdots hlen
  have hroot : p.hasRoot = true := by
    rw [← PathBuf.hasRoot_toStringLossy, PathBuf.hasRoot, beq_iff_eq]
    exact not_not.1 hhead
  refine ⟨hroot, fun hmem => hdots ?_⟩
  have hlossy : Component.parentDir ∈ (PathBuf.mk p.toStringLossy).components := by
    rw [PathBuf.components_toStringLossy]
    exact List.mem_map.2 ⟨.parentDir, hmem, rfl⟩
  rw [← PathBuf.hasRoot_toStringLossy] at hroot
  rw [PathBuf.components, if_pos hroot, List.mem_cons] at hlossy
  obtain ⟨piece, hpiece, hparse⟩ := List.mem_filterMap.1 (hlossy.resolve_left (by simp))
  obtain rfl : piece = [dot, dot] := by
    rw [Component.parse] at hparse
    split_ifs at hparse with _ _ h
    · exact h
    · simp at hparse
  exact (infix_of_mem_splitOn hpiece).trans (List.tail_suffix _).isInfix

/-- The paths in a listing: whatever the listed directory is, they have at most one name. -/
theorem isEntryPath_listDirectory {ι : Type*} [DecidableEq ι] {format : DateTime → String}
    {s : AppState ι} {path : Bytes} {list : List DirectoryEntry}
    (h : listDirectory format s path = .ok list) {entry : DirectoryEntry} (hentry : entry ∈ list) :
    (PathBuf.mk entry.path).IsText ∧ IsEntryPath (PathBuf.mk entry.path).components := by
  rw [listDirectory, validatePath_of_listDirectory h] at h
  simp only [AppState.readDir] at h
  cases hresolve : s.vfs.resolveFs ⟨path⟩ with
  | err e =>
    rw [hresolve] at h
    cases h
  | panic =>
    rw [hresolve] at h
    cases h
  | ok r =>
    rw [hresolve] at h
    cases h
    obtain ⟨m, hm, rfl⟩ := List.mem_map.1 hentry
    obtain ⟨e, -, hchild⟩ := List.mem_filterMap.1 hm
    refine ⟨fromUtf8Lossy_fromUtf8Lossy m.path.bytes, ?_⟩
    show IsEntryPath (PathBuf.mk m.path.toStringLossy).components
    rw [PathBuf.components_toStringLossy]
    exact (isEntryPath_childEntry hchild).lossy

end Racfs.Server
