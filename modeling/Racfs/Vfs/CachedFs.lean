/-
# The cache wrapper

`CachedFs` (`racfs-vfs/src/cached_fs.rs`) wraps a filesystem and keeps the results of `read`,
`stat` and `read_dir` in a cache with text keys: the kind of the result and the text of the
path.  A whole file is cached, and parts are cut out of it.  A mutation that the filesystem has
answered with success removes the keys that it may have changed.

The wrapped filesystem is a parameter: its state type, the three queries, and its mutations.
So is the JSON conversion in which metadata is cached.  The cache is `HashMapCache`
(`racfs-core/src/cache.rs`): a map without a bound.
-/
import Racfs.MemFs.Model

namespace Racfs.Vfs

/-! ### The wrapped filesystem -/

/-- The mutations that the wrapper passes on. -/
inductive Mutation (P : Type*)
  | create (path : P)
  | write (path : P) (data : Bytes) (offset : Int64) (flags : WriteFlags)
  | mkdir (path : P) (perm : UInt32)
  | remove (path : P)
  | removeAll (path : P)
  | rename (oldPath newPath : P)
  | chmod (path : P) (mode : UInt32)
  | truncate (path : P) (size : UInt64)
  | touch (path : P)

/-- A mutation on paths of another type. -/
def Mutation.map {P Q : Type*} (f : P → Q) : Mutation P → Mutation Q
  | .create path => .create (f path)
  | .write path data offset flags => .write (f path) data offset flags
  | .mkdir path perm => .mkdir (f path) perm
  | .remove path => .remove (f path)
  | .removeAll path => .removeAll (f path)
  | .rename oldPath newPath => .rename (f oldPath) (f newPath)
  | .chmod path mode => .chmod (f path) mode
  | .truncate path size => .truncate (f path) size
  | .touch path => .touch (f path)

/-- A filesystem with states in `S`. -/
structure FileSystem (S : Type*) where
  read : S → PathBuf → Int64 → Int64 → Outcome Bytes
  stat : S → PathBuf → Outcome FileMetadata
  readDir : S → PathBuf → Outcome (List FileMetadata)
  mutate : S → DateTime → Mutation PathBuf → Outcome Reply × S

/-- The in-memory filesystem. -/
def memFileSystem : FileSystem MemFs.MemFS where
  read := MemFs.MemFS.read
  stat := MemFs.MemFS.stat
  readDir s path := .ok (s.readDir path)
  mutate s now
    | .create path => s.create path now
    | .write path data offset flags => s.write path data offset flags now
    | .mkdir path perm => s.mkdir path perm now
    | .remove path => s.remove path
    | .removeAll path => s.removeAll path
    | .rename oldPath newPath => s.rename oldPath newPath
    | .chmod path mode => s.chmod path mode now
    | .truncate path size => s.truncate path size now
    | .touch path => s.touch path now

/-- The JSON form of values of type `A`, read back up to `R`: what is encoded and can be decoded
is the value again. -/
structure JsonCodec (A : Type*) (R : A → A → Prop) where
  toVec : A → Option Bytes
  fromSlice : Bytes → Option A
  roundTrip : ∀ a b a', toVec a = some b → fromSlice b = some a' → R a' a

/-- The JSON forms of metadata and of listings; times are kept in milliseconds. -/
structure MetadataJson where
  one : JsonCodec FileMetadata FileMetadata.SameMs
  list : JsonCodec (List FileMetadata) (List.Forall₂ FileMetadata.SameMs)

/-! ### The cache -/

/-- The kinds of cached results. -/
inductive Kind
  | read
  | stat
  | readdir
deriving DecidableEq

/-- The name of a kind in the keys. -/
def Kind.text : Kind → Bytes
  | .read => ascii "read"
  | .stat => ascii "stat"
  | .readdir => ascii "readdir"

namespace HashMapCache

/-- Remove all keys with a prefix. -/
def invalidatePrefix (cache : AssocMap Bytes Bytes) (pre : Bytes) : AssocMap Bytes Bytes :=
  cache.retain fun k _ => !pre.isPrefixOf k

end HashMapCache

/-- The wrapped filesystem's state, and the cache. -/
structure CachedFs (S : Type*) where
  inner : S
  cache : AssocMap Bytes Bytes

namespace CachedFs

variable {S : Type*} (fs : FileSystem S) (json : MetadataJson) (keyPrefix : Bytes)

/-- The key of a result. -/
def key (kind : Kind) (path : PathBuf) : Bytes :=
  keyPrefix ++ kind.text ++ ascii ":" ++ path.toStringLossy

/-- Remove the listing of the parent. -/
def invalidateParent (cache : AssocMap Bytes Bytes) (path : PathBuf) : AssocMap Bytes Bytes :=
  match path.parent with
  | none => cache
  | some parent =>
    if parent == ⟨[]⟩ then cache else cache.erase (key keyPrefix .readdir parent)

/-- Remove what is cached for a path, and the listing of its parent. -/
def invalidatePath (cache : AssocMap Bytes Bytes) (path : PathBuf) : AssocMap Bytes Bytes :=
  let cache := cache.erase (key keyPrefix .read path)
  let cache := cache.erase (key keyPrefix .stat path)
  let cache := cache.erase (key keyPrefix .readdir path)
  invalidateParent keyPrefix cache path

/-- Remove what is cached for all paths whose text starts with that of a path, and the listing
of its parent. -/
def invalidatePrefix (cache : AssocMap Bytes Bytes) (path : PathBuf) : AssocMap Bytes Bytes :=
  let cache := HashMapCache.invalidatePrefix cache (key keyPrefix .read path)
  let cache := HashMapCache.invalidatePrefix cache (key keyPrefix .stat path)
  let cache := HashMapCache.invalidatePrefix cache (key keyPrefix .readdir path)
  invalidateParent keyPrefix cache path

/-- What a mutation removes when it has succeeded. -/
def invalidate (cache : AssocMap Bytes Bytes) : Mutation PathBuf → AssocMap Bytes Bytes
  | .create path => invalidatePath keyPrefix cache path
  | .write path _ _ _ => invalidatePath keyPrefix cache path
  | .mkdir path _ => invalidatePath keyPrefix cache path
  | .remove path => invalidatePath keyPrefix cache path
  | .removeAll path => invalidatePrefix keyPrefix cache path
  | .rename oldPath newPath =>
    -- what is cached below the two paths stays
    invalidatePath keyPrefix (invalidatePath keyPrefix cache oldPath) newPath
  | .chmod path _ => invalidatePath keyPrefix cache path
  | .truncate path _ => invalidatePath keyPrefix cache path
  | .touch path => invalidatePath keyPrefix cache path

/-- The part of a file that a read returns.  The end is computed in signed arithmetic, and a
slice whose ends are out of order panics. -/
def slice (data : Bytes) (offset size : Int64) : Outcome Bytes :=
  let start := (max offset 0).toUInt64.toNat
  let stop :=
    if size < 0 then data.length
    else (max (min (offset + size) (Int64.ofNat data.length)) 0).toUInt64.toNat
  if start ≥ data.length then .ok []
  else if start ≤ min stop data.length then .ok ((data.take (min stop data.length)).drop start)
  else .panic

/-- Read from the cached file, or read the whole file into the cache. -/
def read (s : CachedFs S) (path : PathBuf) (offset size : Int64) : Outcome Bytes × CachedFs S :=
  let k := key keyPrefix .read path
  match s.cache.get? k with
  | some data => (slice data offset size, s)
  | none =>
    -- a miss reads the whole file, whatever part is asked for
    match fs.read s.inner path 0 (-1) with
    | .ok data => (slice data offset size, { s with cache := s.cache.insert k data })
    | .err e => (.err e, s)
    | .panic => (.panic, s)

/-- A result that is cached in its JSON form; the common part of `stat` and `readDir`. -/
def viaJson {A : Type*} {R : A → A → Prop} (codec : JsonCodec A R) (s : CachedFs S) (k : Bytes)
    (query : Outcome A) : Outcome A × CachedFs S :=
  match (s.cache.get? k).bind codec.fromSlice with
  | some a => (.ok a, s)
  | none =>
    match query with
    | .ok a =>
      match codec.toVec a with
      | some bytes => (.ok a, { s with cache := s.cache.insert k bytes })
      | none => (.ok a, s)
    | .err e => (.err e, s)
    | .panic => (.panic, s)

/-- The metadata of a path. -/
def stat (s : CachedFs S) (path : PathBuf) : Outcome FileMetadata × CachedFs S :=
  viaJson json.one s (key keyPrefix .stat path) (fs.stat s.inner path)

/-- The listing of a directory. -/
def readDir (s : CachedFs S) (path : PathBuf) : Outcome (List FileMetadata) × CachedFs S :=
  viaJson json.list s (key keyPrefix .readdir path) (fs.readDir s.inner path)

/-- Pass a mutation on, and remove keys when it has succeeded. -/
def mutate (s : CachedFs S) (now : DateTime) (m : Mutation PathBuf) :
    Outcome Reply × CachedFs S :=
  let r := fs.mutate s.inner now m
  match r.1 with
  | .ok a => (.ok a, ⟨r.2, invalidate keyPrefix s.cache m⟩)
  | .err e => (.err e, ⟨r.2, s.cache⟩)
  | .panic => (.panic, ⟨r.2, s.cache⟩)

end CachedFs

/-! ### Requests as data -/

/-- A call of the wrapper on paths of type `P`. -/
inductive Request (P : Type*)
  | read (path : P) (offset size : Int64)
  | stat (path : P)
  | readDir (path : P)
  | mutate (m : Mutation P)

variable {S : Type*} (fs : FileSystem S) (json : MetadataJson) (keyPrefix : Bytes)

/-- What the filesystem alone does with a request on normalized absolute paths. -/
def FileSystem.exec (s : S) (now : DateTime) : Request AbsPath → Outcome Reply × S
  | .read path offset size => ((fs.read s path.toPath offset size).map .data, s)
  | .stat path => ((fs.stat s path.toPath).map .metadata, s)
  | .readDir path => ((fs.readDir s path.toPath).map .entries, s)
  | .mutate m => fs.mutate s now (m.map AbsPath.toPath)

/-- What the wrapper does with it. -/
def CachedFs.exec (s : CachedFs S) (now : DateTime) : Request AbsPath → Outcome Reply × CachedFs S
  | .read path offset size =>
    let r := read fs keyPrefix s path.toPath offset size
    (r.1.map .data, r.2)
  | .stat path =>
    let r := stat fs json keyPrefix s path.toPath
    (r.1.map .metadata, r.2)
  | .readDir path =>
    let r := readDir fs json keyPrefix s path.toPath
    (r.1.map .entries, r.2)
  | .mutate m => mutate fs keyPrefix s now (m.map AbsPath.toPath)

/-- The results of a run of the filesystem alone. -/
def FileSystem.results (s : S) : List (DateTime × Request AbsPath) → List (Outcome Reply)
  | [] => []
  | (now, r) :: rest => (fs.exec s now r).1 :: results (fs.exec s now r).2 rest

/-- The results of the same run through the wrapper. -/
def CachedFs.results (s : CachedFs S) : List (DateTime × Request AbsPath) → List (Outcome Reply)
  | [] => []
  | (now, r) :: rest =>
    (CachedFs.exec fs json keyPrefix s now r).1 ::
      results (CachedFs.exec fs json keyPrefix s now r).2 rest

end Racfs.Vfs
