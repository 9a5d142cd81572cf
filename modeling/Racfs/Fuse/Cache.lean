/-
# The cache of the FUSE client

`FuseCache` (`racfs-fuse/src/cache.rs`) keeps metadata, listings and contents of files that the
server has sent, and the small writes that have not been sent yet: the write-back buffer, a
list of segments for every path.

The cached metadata and listings are values of arbitrary types; no function below looks inside.
The hit and miss counters are left out.
-/
import Racfs.Core

namespace Racfs.Fuse

/-- Writes of more bytes go straight to the server, 64 KiB. -/
def DEFAULT_WRITE_BACK_MAX_CHUNK : ℕ := 64 * 1024

/-- The number of buffered bytes at which the buffer of a file is flushed, 256 KiB. -/
def DEFAULT_WRITE_BACK_FLUSH_SIZE : ℕ := 256 * 1024

/-- A value with the time at which it expires. -/
structure CacheEntry (A : Type*) where
  value : A
  expiresAt : DateTime

/-- Whether the value has not expired. -/
def CacheEntry.isValid {A : Type*} (e : CacheEntry A) (now : DateTime) : Bool :=
  decide (now < e.expiresAt)

/-- Look a value up in a table of the cache.  A value that has expired is removed. -/
def getValid {A : Type*} (table : AssocMap PathBuf (CacheEntry A)) (path : PathBuf)
    (now : DateTime) : Option A × AssocMap PathBuf (CacheEntry A) :=
  match table.get? path with
  | some e => if e.isValid now then (some e.value, table) else (none, table.erase path)
  | none => (none, table)

/-- A buffered write. -/
structure Segment where
  offset : UInt64
  data : Bytes
  /-- The number of the write.  The program does not have it and nothing depends on it; it
  tells two writes of the same bytes apart. -/
  write : ℕ
deriving DecidableEq

/-- The offset and the data of a buffered write, which is all that the program has of it. -/
def Segment.pair (seg : Segment) : UInt64 × Bytes := (seg.offset, seg.data)

/-- The buffered writes of a file. -/
structure WriteBackEntry where
  segments : List Segment
  totalBytes : ℕ

namespace WriteBackEntry

/-- Add a write; the number of buffered bytes is returned. -/
def push (e : WriteBackEntry) (seg : Segment) : ℕ × WriteBackEntry :=
  (e.totalBytes + seg.data.length,
    ⟨e.segments ++ [seg], e.totalBytes + seg.data.length⟩)

/-- Take the writes out. -/
def takeSegments (e : WriteBackEntry) : List Segment := e.segments

end WriteBackEntry

/-- The tables, by path.  `M` and `L` are the metadata and the listings of the server. -/
structure FuseCache (M L : Type*) where
  statCache : AssocMap PathBuf (CacheEntry M)
  readdirCache : AssocMap PathBuf (CacheEntry L)
  fileContentCache : AssocMap PathBuf Bytes
  writeBack : AssocMap PathBuf WriteBackEntry

namespace FuseCache

variable {M L : Type*}

/-- Nothing is cached. -/
def new : FuseCache M L := ⟨∅, ∅, ∅, ∅⟩

/-- Remove what is kept for a path, the buffered writes included, and the listing of its
parent. -/
def invalidate (c : FuseCache M L) (path : PathBuf) : FuseCache M L where
  statCache := c.statCache.erase path
  readdirCache :=
    match path.parent with
    | some parent => (c.readdirCache.erase path).erase parent
    | none => c.readdirCache.erase path
  fileContentCache := c.fileContentCache.erase path
  writeBack := c.writeBack.erase path

/-- Remove what is kept for both paths of a rename. -/
def invalidateRename (c : FuseCache M L) (oldPath newPath : PathBuf) : FuseCache M L :=
  let c := (c.invalidate oldPath).invalidate newPath
  { statCache := c.statCache
    readdirCache :=
      match newPath.parent with
      | some parent => c.readdirCache.erase parent
      | none => c.readdirCache
    fileContentCache := (c.fileContentCache.erase oldPath).erase newPath
    writeBack := (c.writeBack.erase oldPath).erase newPath }

/-- Buffer a write; the number of buffered bytes of the file is returned. -/
def pushWriteBack (c : FuseCache M L) (path : PathBuf) (seg : Segment) : ℕ × FuseCache M L :=
  let r := ((c.writeBack.get? path).getD ⟨[], 0⟩).push seg
  (r.1, { c with writeBack := c.writeBack.insert path r.2 })

/-- Take the buffered writes of a path out. -/
def takePendingWrites (c : FuseCache M L) (path : PathBuf) : List Segment × FuseCache M L :=
  match c.writeBack.get? path with
  | some e => (e.takeSegments, { c with writeBack := c.writeBack.erase path })
  | none => ([], c)

/-- The metadata of a path, if it is cached and has not expired. -/
def getStat (c : FuseCache M L) (path : PathBuf) (now : DateTime) : Option M × FuseCache M L :=
  let r := getValid c.statCache path now
  (r.1, { c with statCache := r.2 })

/-- The metadata of a path, also if it has expired. -/
def getStatStale (c : FuseCache M L) (path : PathBuf) : Option M :=
  (c.statCache.get? path).map CacheEntry.value

/-- Keep the metadata of a path. -/
def putStat (c : FuseCache M L) (path : PathBuf) (metadata : M) (expiresAt : DateTime) :
    FuseCache M L :=
  { c with statCache := c.statCache.insert path ⟨metadata, expiresAt⟩ }

/-- The listing of a path, if it is cached and has not expired. -/
def getReaddir (c : FuseCache M L) (path : PathBuf) (now : DateTime) : Option L × FuseCache M L :=
  let r := getValid c.readdirCache path now
  (r.1, { c with readdirCache := r.2 })

/-- The listing of a path, also if it has expired. -/
def getReaddirStale (c : FuseCache M L) (path : PathBuf) : Option L :=
  (c.readdirCache.get? path).map CacheEntry.value

/-- Keep the listing of a path. -/
def putReaddir (c : FuseCache M L) (path : PathBuf) (list : L) (expiresAt : DateTime) :
    FuseCache M L :=
  { c with readdirCache := c.readdirCache.insert path ⟨list, expiresAt⟩ }

/-- The content of a file, if it is cached.  It does not expire. -/
def getFileContent (c : FuseCache M L) (path : PathBuf) : Option Bytes :=
  c.fileContentCache.get? path

/-- Keep the content of a file. -/
def putFileContent (c : FuseCache M L) (path : PathBuf) (data : Bytes) : FuseCache M L :=
  { c with fileContentCache := c.fileContentCache.insert path data }

end FuseCache

/-- A value that has not expired is found as it is; otherwise there is none afterwards. -/
lemma getValid_cases {A : Type*} (table : AssocMap PathBuf (CacheEntry A)) (path : PathBuf)
    (now : DateTime) :
    (∃ e, table.get? path = some e ∧ e.isValid now = true ∧
      getValid table path now = (some e.value, table)) ∨
    ((∀ e, table.get? path = some e → e.isValid now = false) ∧
      (getValid table path now).1 = none ∧ (getValid table path now).2.get? path = none ∧
      ∀ q e, (getValid table path now).2.get? q = some e → table.get? q = some e) := by
  rw [getValid]
  cases hget : table.get? path with
  | none => exact Or.inr ⟨by simp, rfl, hget, fun _ _ h => h⟩
  | some e =>
    cases hvalid : e.isValid now with
    | true => exact Or.inl ⟨e, rfl, hvalid, by simp [hvalid]⟩
    | false =>
      refine Or.inr ⟨fun e' h => ?_, by simp [hvalid], by simp [hvalid], fun q e' h => ?_⟩
      · cases h
        exact hvalid
      · simp only [hvalid, Bool.false_eq_true, if_false] at h
        exact AssocMap.get?_of_get?_erase h

namespace FuseCache

/-! ### The metadata of a path -/

/-- Cached metadata is found as it is, or there is none afterwards. -/
lemma getStat_cases (c : FuseCache M L) (path : PathBuf) (now : DateTime) :
    (∃ e, c.statCache.get? path = some e ∧ e.isValid now = true ∧
      c.getStat path now = (some e.value, c)) ∨
    ((∀ e, c.statCache.get? path = some e → e.isValid now = false) ∧
      (c.getStat path now).1 = none ∧ (c.getStat path now).2.statCache.get? path = none ∧
      ∀ q e, (c.getStat path now).2.statCache.get? q = some e → c.statCache.get? q = some e) := by
  rcases getValid_cases c.statCache path now with ⟨e, hget, hvalid, heq⟩ | h
  · exact Or.inl ⟨e, hget, hvalid, by rw [getStat, heq]⟩
  · exact Or.inr h

lemma getStat_invalidate (c : FuseCache M L) (path q : PathBuf) :
    (c.invalidate path).statCache.get? q = if path == q then none else c.statCache.get? q :=
  AssocMap.get?_erase _ _ _

/-- What is cached after the invalidation of a rename. -/
lemma of_getStat_invalidateRename {c : FuseCache M L} {oldPath newPath q : PathBuf}
    {e : CacheEntry M} (h : (c.invalidateRename oldPath newPath).statCache.get? q = some e) :
    (oldPath == q) = false ∧ (newPath == q) = false ∧ c.statCache.get? q = some e := by
  have hget : (if newPath == q then none else (c.invalidate oldPath).statCache.get? q) =
      some e := by
    rw [← getStat_invalidate]
    exact h
  rw [getStat_invalidate] at hget
  split_ifs at hget with hnew hold
  exact ⟨by simpa using hold, by simpa using hnew, hget⟩

/-! ### The listing of a path -/

/-- A cached listing is found as it is, or there is none afterwards. -/
lemma getReaddir_cases (c : FuseCache M L) (path : PathBuf) (now : DateTime) :
    (∃ e, c.readdirCache.get? path = some e ∧ c.getReaddir path now = (some e.value, c)) ∨
    ((c.getReaddir path now).1 = none ∧ (c.getReaddir path now).2.readdirCache.get? path = none ∧
      ∀ q e, (c.getReaddir path now).2.readdirCache.get? q = some e →
        c.readdirCache.get? q = some e) := by
  rcases getValid_cases c.readdirCache path now with ⟨e, hget, -, heq⟩ | ⟨-, h⟩
  · exact Or.inl ⟨e, hget, by rw [getReaddir, heq]⟩
  · exact Or.inr h

/-- What is still cached after an invalidation was cached before. -/
lemma of_getReaddir_invalidate {c : FuseCache M L} {path q : PathBuf} {e : CacheEntry L}
    (h : (c.invalidate path).readdirCache.get? q = some e) : c.readdirCache.get? q = some e := by
  rw [invalidate] at h
  simp only at h
  split at h
  · exact AssocMap.get?_of_get?_erase (AssocMap.get?_of_get?_erase h)
  · exact AssocMap.get?_of_get?_erase h

lemma of_getReaddir_invalidateRename {c : FuseCache M L} {oldPath newPath q : PathBuf}
    {e : CacheEntry L} (h : (c.invalidateRename oldPath newPath).readdirCache.get? q = some e) :
    c.readdirCache.get? q = some e := by
  have hkept : ((c.invalidate oldPath).invalidate newPath).readdirCache.get? q = some e := by
    rw [invalidateRename] at h
    simp only at h
    split at h
    · exact AssocMap.get?_of_get?_erase h
    · exact h
  exact of_getReaddir_invalidate (of_getReaddir_invalidate hkept)

/-! ### The buffered writes of a path -/

/-- The buffered writes of a path. -/
def pending (c : FuseCache M L) (path : PathBuf) : List Segment :=
  ((c.writeBack.get? path).map WriteBackEntry.segments).getD []

@[simp] lemma pending_new (path : PathBuf) : (new : FuseCache M L).pending path = [] := rfl

lemma pending_congr (c : FuseCache M L) {p q : PathBuf} (h : (p == q) = true) :
    c.pending p = c.pending q := by
  rw [pending, pending, AssocMap.get?_congr _ h]

lemma pending_erase (c : FuseCache M L) (path q : PathBuf) :
    (((c.writeBack.erase path).get? q).map WriteBackEntry.segments).getD [] =
      if path == q then [] else c.pending q := by
  rw [AssocMap.get?_erase]
  split_ifs <;> rfl

lemma pending_invalidate (c : FuseCache M L) (path q : PathBuf) :
    (c.invalidate path).pending q = if path == q then [] else c.pending q :=
  pending_erase c path q

lemma pending_invalidateRename (c : FuseCache M L) (oldPath newPath q : PathBuf) :
    (c.invalidateRename oldPath newPath).pending q =
      if oldPath == q ∨ newPath == q then [] else c.pending q := by
  simp only [pending, invalidateRename, invalidate, AssocMap.get?_erase]
  by_cases hold : (oldPath == q) = true <;> by_cases hnew : (newPath == q) = true <;>
    simp [hold, hnew]

lemma pending_pushWriteBack (c : FuseCache M L) (path q : PathBuf) (seg : Segment) :
    (c.pushWriteBack path seg).2.pending q =
      if path == q then c.pending q ++ [seg] else c.pending q := by
  simp only [pending, pushWriteBack, AssocMap.get?_insert]
  split_ifs with h
  · rw [← AssocMap.get?_congr _ h]
    cases c.writeBack.get? path <;> rfl
  · rfl

lemma takePendingWrites_fst (c : FuseCache M L) (path : PathBuf) :
    (c.takePendingWrites path).1 = c.pending path := by
  unfold takePendingWrites pending
  cases c.writeBack.get? path <;> rfl

lemma pending_takePendingWrites (c : FuseCache M L) (path q : PathBuf) :
    (c.takePendingWrites path).2.pending q = if path == q then [] else c.pending q := by
  rw [takePendingWrites]
  cases h : c.writeBack.get? path with
  | some e => exact pending_erase c path q
  | none =>
    simp only
    split_ifs with hq
    · rw [pending, ← AssocMap.get?_congr _ hq, h]
      rfl
    · rfl

end FuseCache

end Racfs.Fuse
