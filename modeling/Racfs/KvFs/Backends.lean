/-
# The two backends of the key-value filesystem side by side

The same calls are made on a filesystem in memory and on one in a database, both new.  What can
be compared are the results of the calls and, after every call, what the reading operations
return everywhere (`Agree`).

The simulation relation `Related` says that the two tables of the one and the table of the
other have the same entries.  A call that is made where both backends do the same
(`Interchangeable`) keeps it, and any other call is told apart at once, by its results or by a
reading operation after it.  So `agree_iff` describes the runs in which the backends cannot be
told apart exactly.
-/
import Racfs.KvFs.Listing
import Racfs.KvFs.Maps

namespace Racfs

/-! ### Results that cannot be told apart -/

/-- Errors of the same variant. -/
def FSError.SameVariant (e e' : FSError) : Prop := e.ctorIdx = e'.ctorIdx

/-- Metadata with the same file type, size and mode. -/
structure FileMetadata.SameStat (m m' : FileMetadata) : Prop where
  fileType : m.fileType = m'.fileType
  isSymlink : m.isSymlink = m'.isSymlink
  size : m.size = m'.size
  mode : m.mode = m'.mode

/-- Metadata of the same path, with the same file type, size and mode. -/
def FileMetadata.SameEntry (m m' : FileMetadata) : Prop :=
  (m.path == m'.path) = true ∧ m.SameStat m'

/-- Listings with the same entries, in any order. -/
def SameEntries (ms ms' : List FileMetadata) : Prop :=
  (∀ m ∈ ms, ∃ m' ∈ ms', m.SameEntry m') ∧ ∀ m' ∈ ms', ∃ m ∈ ms, m.SameEntry m'

/-- Replies that cannot be told apart. -/
def SameReply : Reply → Reply → Prop
  | .unit, .unit => True
  | .written n, .written n' => n = n'
  | .data bs, .data bs' => bs = bs'
  | .metadata m, .metadata m' => m.SameStat m'
  | .entries ms, .entries ms' => SameEntries ms ms'
  | _, _ => False

/-- Results that cannot be told apart. -/
def SameOutcome : Outcome Reply → Outcome Reply → Prop
  | .ok r, .ok r' => SameReply r r'
  | .err e, .err e' => e.SameVariant e'
  | .panic, .panic => True
  | _, _ => False

namespace KvFs

/-- The same call for other paths. -/
def KvOp.map {P Q : Type*} (f : P → Q) : KvOp P → KvOp Q
  | .create path => .create (f path)
  | .mkdir path perm => .mkdir (f path) perm
  | .write path data offset flags => .write (f path) data offset flags
  | .remove path => .remove (f path)
  | .removeAll path => .removeAll (f path)
  | .rename oldPath newPath => .rename (f oldPath) (f newPath)
  | .chmod path mode => .chmod (f path) mode
  | .read path offset size => .read (f path) offset size
  | .stat path => .stat (f path)
  | .readDir path => .readDir (f path)

/-! ### Both filesystems -/

/-- Both filesystems, with the results of the last call. -/
structure Pair where
  mem : KvMemory
  sql : KvSqlite
  last : Option (Outcome Reply × Outcome Reply)

namespace Pair

/-- Two new filesystems. -/
def new : Pair := ⟨.new, .new, none⟩

/-- One call on both of them, at a time. -/
def step (s : Pair) (c : KvOp EntryPath × DateTime) : Option Pair :=
  let op := c.1.map fun p => p.toPath
  let x := s.mem.exec c.2 op
  let y := s.sql.exec op
  some ⟨x.2, y.2, some (x.1, y.1)⟩

/-- The two filesystems cannot be told apart, neither by the last call nor by reading. -/
structure Agree (s : Pair) : Prop where
  last : ∀ x y, s.last = some (x, y) → SameOutcome x y
  read : ∀ (p : EntryPath) (offset size : Int64),
    SameOutcome ((s.mem.read p.toPath offset size).map .data)
      ((s.sql.read p.toPath offset size).map .data)
  stat : ∀ p : EntryPath,
    SameOutcome ((s.mem.stat p.toPath).map .metadata) ((s.sql.stat p.toPath).map .metadata)
  readDir : ∀ p : EntryPath,
    SameOutcome (.ok (.entries (s.mem.readDir p.toPath)))
      ((s.sql.readDir p.toPath).map .entries)

/-- The path is a file. -/
def IsFile (s : Pair) (p : EntryPath) : Prop := s.mem.store.contains p.toPath = true

/-- Nothing is at the path. -/
def IsFree (s : Pair) (p : EntryPath) : Prop := s.mem.metadata.contains p.toPath = false

/-- The calls that do the same in both backends: creating where nothing is, removing what is not
a file, removing a tree when the database selects files below the path only, and a rename
of nothing to nowhere, of a file onto another one, or of a file to a free path.  Such a file
that moves has the old path in its metadata, which only the listing of the root does not show
(paths with one name). -/
def Interchangeable (s : Pair) (c : KvOp EntryPath × DateTime) : Prop :=
  match c.1 with
  | .create p => s.IsFree p
  | .mkdir p _ => s.IsFree p
  | .remove p => ¬ s.IsFile p
  | .removeAll p =>
    ∀ q : EntryPath, ¬ s.IsFree q → KvSqlite.selects p.text q.text = true →
      p.names <+: q.names ∧ s.IsFile q
  | .rename p q =>
    (s.IsFree p ∧ s.IsFree q) ∨ (s.IsFile p ∧ s.IsFile q ∧ p ≠ q) ∨
      (s.IsFile p ∧ s.IsFree q ∧
        (2 ≤ q.names.length →
          ∀ m, s.mem.metadata.get? p.toPath = some m → (m.path == q.toPath) = true))
  | _ => True

end Pair

/-! ### The simulation relation -/

/-- The content of a row, if it is a file. -/
def KvRow.content (row : KvRow) : Option Bytes := if row.isDir then none else some row.data

/-- The metadata in memory shows what is in a row.  Its path may be wrong directly below the
root. -/
structure Shows (p : EntryPath) (m : FileMetadata) (row : KvRow) : Prop where
  mode : m.mode = row.mode
  size : m.size = (row.metadata p.text).size
  notSymlink : m.isSymlinkFlag = false
  path : 2 ≤ p.names.length → (m.path == p.toPath) = true

/-- The entries of a path in the three tables. -/
def Same (p : EntryPath) (d? : Option Bytes) (m? : Option FileMetadata) : Option KvRow → Prop
  | none => d? = none ∧ m? = none
  | some row => d? = row.content ∧ ∃ m, m? = some m ∧ Shows p m row

/-- Both filesystems have the same entries. -/
structure Related (mem : KvMemory) (sql : KvSqlite) : Prop where
  memKeys : mem.WellKeyed
  sqlKeys : sql.WellKeyed
  same : ∀ p : EntryPath,
    Same p (mem.store.get? p.toPath) (mem.metadata.get? p.toPath) (sql.rows.get? p.text)

section Same

variable {p : EntryPath} {d? : Option Bytes} {m? : Option FileMetadata} {row? : Option KvRow}

lemma Same.isSome (h : Same p d? m? row?) : m?.isSome = row?.isSome := by
  cases row? with
  | none =>
    rw [h.2]
    rfl
  | some row =>
    obtain ⟨m, hm, -⟩ := h.2
    rw [hm]
    rfl

lemma Same.content (h : Same p d? m? row?) : d? = row?.bind KvRow.content := by
  cases row? with
  | none => exact h.1
  | some row => exact h.1

lemma Shows.sameStat {m : FileMetadata} {row : KvRow} (h : Shows p m row) :
    m.SameStat (row.metadata p.text) where
  fileType := by rw [FileMetadata.fileType, h.mode]; rfl
  isSymlink := by rw [FileMetadata.isSymlink, h.notSymlink, h.mode]; rfl
  size := h.size
  mode := h.mode

end Same

variable {mem : KvMemory} {sql : KvSqlite}

namespace Related

lemma new : Related .new .new where
  memKeys := by intro k hk; cases hk
  sqlKeys := by
    intro k hk
    left
    simpa [KvSqlite.new, AssocMap.keys, AssocMap.insert, AssocMap.upsert] using hk
  same := by
    intro p
    have hne : ([slash] == p.text) = false := by
      rw [beq_eq_false_iff_ne]
      exact fun h => p.ne_root ((AbsPath.text_eq_iff p.toAbsPath).1 h.symm)
    rw [KvSqlite.new, AssocMap.get?_insert, hne]
    exact ⟨rfl, rfl⟩

lemma contains_eq (h : Related mem sql) (p : EntryPath) :
    mem.metadata.contains p.toPath = sql.rows.contains p.text := (h.same p).isSome

/-- A file in memory is a row of a file. -/
lemma fileRow_eq (h : Related mem sql) (p : EntryPath) :
    (sql.fileRow p.text).map KvRow.data = mem.store.get? p.toPath := by
  rw [(h.same p).content, KvSqlite.fileRow]
  cases hrow : sql.rows.get? p.text with
  | none => rfl
  | some row => cases hdir : row.isDir <;> simp [KvRow.content, hdir, Option.filter]

/-! ### What reading shows -/

lemma read_same (h : Related mem sql) (p : EntryPath) (offset size : Int64) :
    SameOutcome ((mem.read p.toPath offset size).map .data)
      ((sql.read p.toPath offset size).map .data) := by
  have hfile := h.fileRow_eq p
  rw [KvMemory.read, KvSqlite.read, pathToStr_toPath, Outcome.ok_bind, ← hfile]
  cases sql.fileRow p.text with
  | none => exact rfl
  | some row =>
    simp only [Option.map_some]
    cases readSlice row.data offset size with
    | ok bs => exact rfl
    | err e => exact rfl
    | panic => trivial

lemma stat_same (h : Related mem sql) (p : EntryPath) :
    SameOutcome ((mem.stat p.toPath).map .metadata) ((sql.stat p.toPath).map .metadata) := by
  have hsame := h.same p
  rw [KvMemory.stat, KvSqlite.stat, pathToStr_toPath, Outcome.ok_bind]
  cases hrow : sql.rows.get? p.text with
  | none =>
    rw [hrow] at hsame
    rw [hsame.2]
    exact rfl
  | some row =>
    rw [hrow] at hsame
    obtain ⟨-, m, hm, hshows⟩ := hsame
    rw [hm]
    exact hshows.sameStat

lemma readDir_same (h : Related mem sql) (p : EntryPath) :
    SameOutcome (.ok (.entries (mem.readDir p.toPath)))
      ((sql.readDir p.toPath).map .entries) := by
  obtain ⟨ms, hms, hmem⟩ := KvSqlite.mem_readDir h.sqlKeys p
  rw [hms, Outcome.map_ok]
  constructor
  · intro m hm
    obtain ⟨q, hchild, hget⟩ := (KvMemory.mem_readDir h.memKeys p m).1 hm
    have hsame := h.same q
    cases hrow : sql.rows.get? q.text with
    | none =>
      rw [hrow, hget] at hsame
      cases hsame.2
    | some row =>
      rw [hrow, hget] at hsame
      obtain ⟨-, m', hm', hshows⟩ := hsame
      obtain rfl := Option.some.inj hm'
      exact ⟨row.metadata q.text, (hmem _).2 ⟨q, row, hchild, hrow, rfl⟩,
        hshows.path hchild.two_le, hshows.sameStat⟩
  · intro m' hm'
    obtain ⟨q, row, hchild, hrow, rfl⟩ := (hmem m').1 hm'
    have hsame := h.same q
    rw [hrow] at hsame
    obtain ⟨-, m, hm, hshows⟩ := hsame
    exact ⟨m, (KvMemory.mem_readDir h.memKeys p m).2 ⟨q, hchild, hm⟩,
      hshows.path hchild.two_le, hshows.sameStat⟩

end Related

end KvFs

end Racfs
