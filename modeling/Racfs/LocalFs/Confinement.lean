/-
# The operations of a local file system

The operations of `LocalFS` (`racfs-plugin-localfs/src/fs`), on a machine whose files are a tree.
Each one resolves its paths and makes a few calls of the standard library, which are modelled as
Linux carries them out.  Calls can fail for reasons of their own (`Os`): then they change nothing,
except that a directory may have been removed in part, and that some of the directories that were
to be made may be there.

No run of operations, whatever paths they are given and whatever fails, does anything outside of
the directory that is served, or tells anything of it: the replies and what is left in the
directory depend on what was in the directory (`run_confined`).  The directory above has to be
there, since missing directories are made.

There are no symbolic links on the machine, the clock and the permissions are part of `Os`, and the
blocking tasks do not panic, so that they can be joined.
-/
import Racfs.Lib.DirTree
import Racfs.LocalFs.Read

namespace Racfs.LocalFs

open DirTree PathBuf

/-! ### The machine -/

/-- The content of a file, and its permissions. -/
structure FileNode where
  content : Bytes
  perm : UInt32

/-- The files of a machine.  A directory has its permissions. -/
abbrev Disk := Option (DirTree Bytes FileNode UInt32)

/-- The errors of calls. -/
inductive IoError
  | NotFound
  | AlreadyExists
  | NotADirectory
  | IsADirectory
  | InvalidInput
  | DirectoryNotEmpty
  | OutOfRange
  | Other (message : String)
deriving DecidableEq

/-- The text of an error. -/
def IoError.toString : IoError → String
  | .NotFound => "No such file or directory (os error 2)"
  | .AlreadyExists => "File exists (os error 17)"
  | .NotADirectory => "Not a directory (os error 20)"
  | .IsADirectory => "Is a directory (os error 21)"
  | .InvalidInput => "Invalid argument (os error 22)"
  | .DirectoryNotEmpty => "Directory not empty (os error 39)"
  | .OutOfRange => "out of range integral type conversion attempted"
  | .Other message => message

/-- A call. -/
abbrev Sys := Action Bytes FileNode UInt32 IoError

/-- An operation. -/
abbrev Op := Action Bytes FileNode UInt32 FSError

/-- What the machine says of a file besides what is in it. -/
structure Stamps where
  created : Option DateTime
  modified : Option DateTime
  accessed : Option DateTime
  /-- The size of a directory. -/
  dirLen : UInt64

/-- What the machine does in an operation, and a program cannot know. -/
structure Os where
  /-- Whether a call fails. -/
  fails : ℕ → Option IoError
  /-- How many directories of a path have been gone through when they cannot all be made. -/
  made : ℕ
  /-- What is left of a directory that cannot be removed completely. -/
  residue : Option (DirTree Bytes FileNode UInt32) → Option (DirTree Bytes FileNode UInt32)
  /-- How many bytes a call of `read` or `write` takes at most. -/
  room : ℕ
  stamps : List Bytes → Stamps
  /-- Whether an entry cannot be looked at while its directory is read. -/
  unreadable : List Bytes → Bool
  umask : UInt32

/-- The names on the way to a path. -/
def names (p : PathBuf) : List Bytes := p.lexical.names

@[simp] lemma names_toPath (b : AbsPath) : names b.toPath = b.names :=
  congrArg AbsPath.names (lexical_toPath b)

namespace Os

variable (os : Os)

def stop {B : Type} : WalkError → Except IoError B
  | .missing => .error .NotFound
  | .notADirectory => .error .NotADirectory

/-- Go to a path. -/
def access {B : Type} (p : PathBuf) (f : Disk → Except IoError B × Disk) : Sys B :=
  visit stop (names p) f

/-- A call, by its number in the operation. -/
def call {B : Type} (n : ℕ) (c : Sys B) : Sys B :=
  match os.fails n with
  | some e => Action.fail e
  | none => c

/-- `create_dir_all`. -/
def makePath (names : List Bytes) (done : Except IoError Unit) : Sys Unit :=
  makeDirs stop (.error .AlreadyExists) done (0o777 &&& ~~~ os.umask) names

/-- `std::fs::create_dir_all`. -/
def createDirAll (n : ℕ) (p : PathBuf) : Sys Unit :=
  match os.fails n with
  | some e => os.makePath ((names p).take os.made) (.error e)
  | none => os.makePath (names p) (.ok ())

/-- `File::create`: what is in the file is cut off. -/
def createFile (n : ℕ) (p : PathBuf) : Sys Unit :=
  os.call n (access p fun
    | none => (.ok (), some (.file ⟨[], 0o666 &&& ~~~ os.umask⟩))
    | some (.file f) => (.ok (), some (.file { f with content := [] }))
    | some (.dir d es) => (.error .IsADirectory, some (.dir d es)))

/-- `OpenOptions` for writing, with the file made when it is missing, or not. -/
def openFile (n : ℕ) (p : PathBuf) (create : Bool) : Sys Unit :=
  os.call n (access p fun
    | none =>
      if create then (.ok (), some (.file ⟨[], 0o666 &&& ~~~ os.umask⟩))
      else (.error .NotFound, none)
    | some (.file f) => (.ok (), some (.file f))
    | some (.dir d es) => (.error .IsADirectory, some (.dir d es)))

/-- Bytes at a position: the gap before it is filled with zeros. -/
def splice (content : Bytes) (position : ℕ) (data : Bytes) : Bytes :=
  if data.isEmpty then content
  else
    content.take position ++ List.replicate (position - content.length) 0 ++ data ++
      content.drop (position + data.length)

/-- One call of `write` on an open file, at a position or at the end. -/
def write (n : ℕ) (p : PathBuf) (position : Option ℕ) (data : Bytes) : Sys ℕ :=
  os.call n (access p fun
    | none => (.error .NotFound, none)
    | some (.file f) =>
      let data := data.take os.room
      (.ok data.length,
        some (.file { f with content := splice f.content (position.getD f.content.length) data }))
    | some (.dir d es) => (.error .IsADirectory, some (.dir d es)))

/-- Cut off, or padded with zeros. -/
def resize (content : Bytes) (size : ℕ) : Bytes :=
  content.take size ++ List.replicate (size - content.length) 0

/-- `File::set_len`. -/
def setLen (n : ℕ) (p : PathBuf) (size : UInt64) : Sys Unit :=
  if 2 ^ 63 ≤ size.toNat then Action.fail .OutOfRange
  else
    os.call n (access p fun
      | none => (.error .NotFound, none)
      | some (.file f) =>
        (.ok (), some (.file { f with content := resize f.content size.toNat }))
      | some (.dir d es) => (.error .IsADirectory, some (.dir d es)))

/-- What is at a path: the size of a file, or a directory. -/
def metadata (n : ℕ) (p : PathBuf) : Sys (Option UInt64) :=
  os.call n (access p fun
    | none => (.error .NotFound, none)
    | some (.file f) => (.ok (some (UInt64.ofNat f.content.length)), some (.file f))
    | some (.dir d es) => (.ok none, some (.dir d es)))

/-- `std::fs::read_dir`, with the metadata of the entries. -/
def readDir (n : ℕ) (p : PathBuf) : Sys (List (Bytes × Option UInt64)) :=
  os.call n (access p fun
    | none => (.error .NotFound, none)
    | some (.file f) => (.error .NotADirectory, some (.file f))
    | some (.dir d es) =>
      (.ok (es.map fun
        | (name, .file f) => (name, some (UInt64.ofNat f.content.length))
        | (name, .dir _ _) => (name, none)), some (.dir d es)))

/-- `std::fs::remove_dir`. -/
def removeDir (n : ℕ) (p : PathBuf) : Sys Unit :=
  os.call n (access p fun
    | none => (.error .NotFound, none)
    | some (.file f) => (.error .NotADirectory, some (.file f))
    | some (.dir _ []) => (.ok (), none)
    | some (.dir d (e :: es)) => (.error .DirectoryNotEmpty, some (.dir d (e :: es))))

/-- `std::fs::remove_file`. -/
def removeFile (n : ℕ) (p : PathBuf) : Sys Unit :=
  os.call n (access p fun
    | none => (.error .NotFound, none)
    | some (.file _) => (.ok (), none)
    | some (.dir d es) => (.error .IsADirectory, some (.dir d es)))

/-- `std::fs::remove_dir_all`. -/
def removeDirAll (n : ℕ) (p : PathBuf) : Sys Unit :=
  access p fun
    | none => (.error .NotFound, none)
    | some (.file f) => (.error .NotADirectory, some (.file f))
    | some (.dir d es) =>
      match os.fails n with
      | some e => (.error e, os.residue (some (.dir d es)))
      | none => (.ok (), none)

/-- `std::fs::set_permissions`. -/
def setPermissions (n : ℕ) (p : PathBuf) (mode : UInt32) : Sys Unit :=
  os.call n (access p fun
    | none => (.error .NotFound, none)
    | some (.file f) => (.ok (), some (.file { f with perm := mode &&& 0o7777 }))
    | some (.dir _ es) => (.ok (), some (.dir (mode &&& 0o7777) es)))

/-- Something that may be moved to a place is put there. -/
def place (x : DirTree Bytes FileNode UInt32) : Disk → Except IoError Unit × Disk
  | none => (.ok (), some x)
  | some (.file f) =>
    match x with
    | .file _ => (.ok (), some x)
    | .dir _ _ => (.error .NotADirectory, some (.file f))
  | some (.dir d es) =>
    match x with
    | .file _ => (.error .IsADirectory, some (.dir d es))
    | .dir _ _ =>
      if es.isEmpty then (.ok (), some x) else (.error .DirectoryNotEmpty, some (.dir d es))

/-- `std::fs::rename`.  Both ways are gone first; a directory is not moved into itself, and
nothing is moved onto a directory that it is in. -/
def rename (n : ℕ) (o p : PathBuf) : Sys Unit :=
  os.call n do
    access o fun t => (.ok (), t)
    access p fun t => (.ok (), t)
    let x ← access o fun
      | none => (.error .NotFound, none)
      | some x => (.ok x, some x)
    if names o = names p then pure ()
    else if names o <+: names p then Action.fail .InvalidInput
    else if names p <+: names o then Action.fail .DirectoryNotEmpty
    else
      access p (place x)
      access o fun _ => (.ok (), none)

/-- The files of the machine for one read. -/
def machine (t : Disk) : Machine where
  openFile p :=
    match (os.call 0 (access p fun t => (.ok t, t)) t).1 with
    | .error e => .error e.toString
    | .ok none => .error IoError.NotFound.toString
    | .ok (some (.file f)) => .ok ⟨f.content, 0⟩
    | .ok (some (.dir _ _)) => .error IoError.IsADirectory.toString
  seek f position :=
    match os.fails 1 with
    | some e => .error e.toString
    | none => .ok { f with position }
  read f buffer :=
    match os.fails 2 with
    | some e => .error e.toString
    | none =>
      let bytes := ((f.content.drop f.position).take buffer.length).take os.room
      .ok (bytes.length, bytes ++ buffer.drop bytes.length)

end Os

/-! ### The operations -/

/-- A request, with the paths as they come. -/
inductive Request
  | create (path : PathBuf)
  | write (path : PathBuf) (data : Bytes) (offset : Int64) (flags : WriteFlags)
  | read (path : PathBuf) (offset size : Int64)
  | stat (path : PathBuf)
  | mkdir (path : PathBuf)
  | readDir (path : PathBuf)
  | remove (path : PathBuf)
  | removeAll (path : PathBuf)
  | rename (oldPath newPath : PathBuf)
  | truncate (path : PathBuf) (size : UInt64)
  | touch (path : PathBuf)
  | chmod (path : PathBuf) (mode : UInt32)

namespace LocalFS

variable (os : Os) (fs : LocalFS)

/-- The path of the machine, or the end of the operation. -/
def resolved (path : PathBuf) : Op PathBuf := fun t => (fs.resolve path, t)

/-- A call, whose errors are passed on with their text. -/
def io {B : Type} (c : Sys B) : Op B := c.mapError fun e => .Io e.toString

/-- A call, whose errors are passed on, except that the missing file gets the requested path. -/
def ioAt {B : Type} (path : PathBuf) (c : Sys B) : Op B := c.mapError fun e =>
  if e = .NotFound then .NotFound path else .Io e.toString

/-- Make the directories above a path. -/
def createParent (p : PathBuf) : Op Unit :=
  match p.parent with
  | some parent => io (os.createDirAll 0 parent)
  | none => pure ()

/-- Create a file, with the directories above it. -/
def create (path : PathBuf) : Op Unit := do
  let p ← fs.resolved path
  createParent os p
  io (os.createFile 1 p)

/-- Write to a file, which is made when it is missing. -/
def write (path : PathBuf) (data : Bytes) (offset : Int64) (flags : WriteFlags) : Op UInt64 := do
  let p ← fs.resolved path
  createParent os p
  if flags.containsAppend || offset > 0 then
    io (os.openFile 1 p true)
    if offset > 0 && !flags.containsAppend then
      -- the seek
      io (os.call 2 (pure ()))
      let n ← io (os.write 3 p (some offset.toUInt64.toNat) data)
      pure (UInt64.ofNat n)
    else
      let n ← io (os.write 3 p none data)
      pure (UInt64.ofNat n)
  else
    io (os.createFile 1 p)
    let n ← io (os.write 3 p (some 0) data)
    pure (UInt64.ofNat n)

/-- The metadata of a file. -/
def stat (path : PathBuf) : Op FileMetadata := do
  let p ← fs.resolved path
  let len ← ioAt path (os.metadata 0 p)
  let stamps := os.stamps (names p)
  pure
    { path
      size := len.getD stamps.dirLen
      mode := if len.isNone then 0o040000 ||| 0o755 else 0o100000 ||| 0o644
      created := stamps.created
      modified := stamps.modified
      accessed := stamps.accessed
      isSymlinkFlag := false
      symlinkTarget := none }

/-- Make a directory, with those above it. -/
def mkdir (path : PathBuf) : Op Unit := do
  let p ← fs.resolved path
  io (os.createDirAll 0 p)

/-- The entries of a directory, with their paths on the machine.  What cannot be looked at is left
out. -/
def readDir (path : PathBuf) : Op (List FileMetadata) := do
  let p ← fs.resolved path
  let entries ← io (os.readDir 0 p)
  pure (entries.filterMap fun (name, len) =>
    if os.unreadable (names p ++ [name]) then none
    else
      let stamps := os.stamps (names p ++ [name])
      some
        { path := p.push ⟨name⟩
          size := len.getD stamps.dirLen
          mode := if len.isNone then 0o040000 ||| 0o755 else 0o100000 ||| 0o644
          created := none
          modified := stamps.modified
          accessed := stamps.accessed
          isSymlinkFlag := false
          symlinkTarget := none })

/-- Remove a file or an empty directory. -/
def remove (path : PathBuf) : Op Unit := do
  let p ← fs.resolved path
  let len ← ioAt path (os.metadata 0 p)
  if len.isNone then io (os.removeDir 1 p) else io (os.removeFile 1 p)

/-- Whether there is something at a path; nothing is, when it cannot be looked at. -/
def exists? (n : ℕ) (p : PathBuf) : Op Bool := fun t =>
  match os.metadata n p t with
  | (.ok _, t) => (.ok true, t)
  | (.error _, t) => (.ok false, t)

/-- Remove a directory with all that is in it. -/
def removeAll (path : PathBuf) : Op Unit := do
  let p ← fs.resolved path
  if ← exists? os 0 p then io (os.removeDirAll 1 p) else Action.fail (.NotFound path)

/-- Rename. -/
def rename (oldPath newPath : PathBuf) : Op Unit := do
  let o ← fs.resolved oldPath
  let p ← fs.resolved newPath
  io (os.rename 0 o p)

/-- Cut off or pad a file. -/
def truncate (path : PathBuf) (size : UInt64) : Op Unit := do
  let p ← fs.resolved path
  io (os.openFile 0 p false)
  io (os.setLen 1 p size)

/-- Make a file, unless there is something. -/
def touch (path : PathBuf) : Op Unit := do
  let p ← fs.resolved path
  if ← exists? os 0 p then pure () else io (os.createFile 1 p)

/-- Set the permissions. -/
def chmod (path : PathBuf) (mode : UInt32) : Op Unit := do
  let p ← fs.resolved path
  io (os.setPermissions 0 p mode)

/-- An operation. -/
def apply : Request → Op Reply
  | .create path => do
    create os fs path
    pure .unit
  | .write path data offset flags => return .written (← write os fs path data offset flags)
  | .read path offset size => fun t =>
    ((fs.read (os.machine t) path offset size).map .data, t)
  | .stat path => return .metadata (← stat os fs path)
  | .mkdir path => do
    mkdir os fs path
    pure .unit
  | .readDir path => return .entries (← readDir os fs path)
  | .remove path => do
    remove os fs path
    pure .unit
  | .removeAll path => do
    removeAll os fs path
    pure .unit
  | .rename oldPath newPath => do
    rename os fs oldPath newPath
    pure .unit
  | .truncate path size => do
    truncate os fs path size
    pure .unit
  | .touch path => do
    touch os fs path
    pure .unit
  | .chmod path mode => do
    chmod os fs path mode
    pure .unit

/-- Operations one after the other, with their replies. -/
def runAll : List (Os × Request) → Disk → List (Except FSError Reply) × Disk
  | [], t => ([], t)
  | (os, request) :: rest, t =>
    let r := apply os fs request t
    let s := runAll rest r.2
    (r.1 :: s.1, s.2)

/-! ### Paths -/

variable {os fs} {path p : PathBuf}

/-- A path that is not refused is inside of the directory. -/
lemma names_of_resolve (habs : fs.root.hasRoot = true) (hne : names fs.root ≠ [])
    (h : fs.resolve path = .ok p) : ∃ b : AbsPath, p = b.toPath ∧ names fs.root <+: b.names := by
  have hprefix : ¬ fs.root.components <+: [.rootDir] := by
    intro hpre
    rw [components_eq_cons_steps habs, List.cons_prefix_cons] at hpre
    refine hne ?_
    show PathBuf.follow [] fs.root.components = []
    rw [components_eq_cons_steps habs, List.prefix_nil.1 hpre.2]
    rfl
  have hsteps : ∀ c ∈ fs.root.steps ++ path.steps, c = .parentDir ∨
      ∃ n, c = .normal n ∧ IsName n := by
    intro c hc
    rcases List.mem_append.1 hc with hc | hc
    · exact isName_of_mem_steps hc
    · exact isName_of_mem_steps hc
  rw [resolve, components_push_stripPrefix habs, components_eq_cons_steps habs, List.cons_append,
    normalize_rootDir] at h
  cases hrun : fs.normalize path AbsPath.root.toPath (fs.root.steps ++ path.steps) with
  | error e => simp [hrun] at h
  | ok normalized =>
    obtain ⟨b, rfl⟩ := exists_absPath_of_normalize hprefix hsteps hrun
    rw [hrun] at h
    cases hin : b.toPath.startsWith fs.root with
    | false => simp [hin] at h
    | true =>
      simp only [hin] at h
      have hno : Component.parentDir ∉ fs.root.components := by
        intro hmem
        rw [PathBuf.startsWith_iff, AbsPath.components_toPath] at hin
        simpa using hin.subset hmem
      refine ⟨b, (Except.ok.inj h).symm, ?_⟩
      rwa [PathBuf.startsWith_iff, ← components_lexical habs hno, ← PathBuf.startsWith_iff,
        AbsPath.startsWith_iff] at hin

end LocalFS

/-! ### Calls inside of a directory -/

namespace Os

variable {os : Os} {r : List Bytes} {p : PathBuf} {B : Type}

lemma stays_access (h : r <+: names p) (f : Disk → Except IoError B × Disk) :
    Stays r (access p f) := by
  obtain ⟨rest, hrest⟩ := h
  rw [access, ← hrest]
  exact .visit r rest

lemma stays_call {c : Sys B} (n : ℕ) (h : Stays r c) : Stays r (os.call n c) := by
  rw [call]
  cases os.fails n with
  | some e => exact .fail r e
  | none => exact h

/-- Directories are made inside of the directory, or on the way to it. -/
lemma stays_createDirAll (n : ℕ) (h : r <+: names p ∨ names p <+: r) :
    Stays r (os.createDirAll n p) := by
  rw [createDirAll]
  cases os.fails n with
  | none => exact .makeDirs h
  | some e =>
    refine .makeDirs ?_
    have htake := List.take_prefix os.made (names p)
    rcases h with hin | hout
    · exact List.prefix_or_prefix_of_prefix hin htake
    · exact Or.inr (htake.trans hout)

lemma stays_rename (n : ℕ) {o : PathBuf} (ho : r <+: names o) (hp : r <+: names p) :
    Stays r (os.rename n o p) := by
  refine stays_call n (.bind (stays_access ho _) fun _ => .bind (stays_access hp _) fun _ =>
    .bind (stays_access ho _) fun x => ?_)
  split_ifs
  · exact .pure r ()
  · exact .fail r _
  · exact .fail r _
  · exact .bind (stays_access hp _) fun _ => stays_access ho _

end Os

/-! ### Operations inside of a directory -/

namespace LocalFS

open Os

variable {os : Os} {fs : LocalFS} {r : List Bytes} {path p : PathBuf} {B : Type}

lemma Stays.io {c : Sys B} (h : Stays r c) : Stays r (io c) := h.mapError _

lemma Stays.ioAt {c : Sys B} (h : Stays r c) : Stays r (ioAt path c) := h.mapError _

/-- An operation goes on with a path inside of the directory. -/
lemma stays_resolved {g : PathBuf → Op B} (hg : ∀ p, fs.resolve path = .ok p → Stays r (g p)) :
    Stays r (fs.resolved path >>= g) := by
  cases h : fs.resolve path with
  | error e =>
    have heq : (fs.resolved path >>= g) = Action.fail e := by
      funext t
      exact Action.bind_of_error (congrArg (·, t) h)
    rw [heq]
    exact .fail r e
  | ok p =>
    have heq : (fs.resolved path >>= g) = g p := by
      funext t
      exact Action.bind_of_ok (congrArg (·, t) h)
    rw [heq]
    exact hg p h

lemma stays_exists (n : ℕ) (h : r <+: names p) : Stays r (exists? os n p) := by
  have hstays : Stays r (os.metadata n p) := stays_call n (stays_access h _)
  have hfst : ∀ t, (exists? os n p t).1 = .ok ((os.metadata n p t).1.toOption.isSome) := by
    intro t
    rw [exists?]
    rcases os.metadata n p t with ⟨e | a, t'⟩ <;> rfl
  have hsnd : ∀ t, (exists? os n p t).2 = (os.metadata n p t).2 := by
    intro t
    rw [exists?]
    rcases os.metadata n p t with ⟨e | a, t'⟩ <;> rfl
  constructor
  · intro t u h
    obtain ⟨heq, hagree⟩ := hstays.agree t u h
    rw [hfst, hfst, hsnd, hsnd, heq]
    exact ⟨rfl, hagree⟩
  · intro t h
    rw [hsnd]
    exact hstays.confined t h

section Inside

variable (habs : fs.root.hasRoot = true) (hne : names fs.root ≠ [])
include habs hne

lemma prefix_of_resolve (h : fs.resolve path = .ok p) : names fs.root <+: names p := by
  obtain ⟨b, rfl, hb⟩ := names_of_resolve habs hne h
  rwa [names_toPath]

lemma stays_createParent (h : fs.resolve path = .ok p) :
    Stays (names fs.root) (createParent os p) := by
  obtain ⟨b, rfl, hb⟩ := names_of_resolve habs hne h
  rw [createParent, AbsPath.parent_toPath]
  split_ifs with hnil
  · exact .pure _ ()
  · refine Stays.io (stays_createDirAll 0 ?_)
    rw [names_toPath]
    exact List.prefix_or_prefix_of_prefix hb (List.dropLast_prefix b.names)

lemma stays_write (data : Bytes) (offset : Int64) (flags : WriteFlags) :
    Stays (names fs.root) (write os fs path data offset flags) := by
  refine stays_resolved fun p hp => .bind (stays_createParent habs hne hp) fun _ => ?_
  have hin := prefix_of_resolve habs hne hp
  have hwrite : ∀ position, Stays (names fs.root) (io (os.write 3 p position data)) := fun _ =>
    Stays.io (stays_call 3 (stays_access hin _))
  split_ifs
  · refine .bind (Stays.io (stays_call 1 (stays_access hin _))) fun _ => ?_
    exact .bind (Stays.io (stays_call 2 (.pure _ ()))) fun _ =>
      .bind (hwrite _) fun n => .pure _ _
  · refine .bind (Stays.io (stays_call 1 (stays_access hin _))) fun _ => ?_
    exact .bind (hwrite _) fun n => .pure _ _
  · refine .bind (Stays.io (stays_call 1 (stays_access hin _))) fun _ => ?_
    exact .bind (hwrite _) fun n => .pure _ _

/-- What is read depends on the file. -/
lemma stays_read (offset size : Int64) : Stays (names fs.root) fun t =>
    ((fs.read (os.machine t) path offset size).map Reply.data, t) := by
  refine ⟨fun t u h => ⟨?_, h⟩, fun t _ => .refl _ t⟩
  suffices hread : fs.read (os.machine t) path offset size =
      fs.read (os.machine u) path offset size from congrArg (Except.map Reply.data) hread
  rw [read, read]
  cases hp : fs.resolve path with
  | error e => rfl
  | ok p =>
    have hopen : (os.machine t).openFile p = (os.machine u).openFile p := by
      have hcall : Stays (names fs.root) (os.call 0 (access p fun t => (.ok t, t))) :=
        stays_call 0 (stays_access (prefix_of_resolve habs hne hp) _)
      simp only [machine, (hcall.agree t u h).1]
    show ((os.machine t).openFile p).mapError FSError.Io >>= _ =
      ((os.machine u).openFile p).mapError FSError.Io >>= _
    rw [hopen]
    rfl

/-- Every operation stays in the directory. -/
theorem stays_apply (request : Request) : Stays (names fs.root) (apply os fs request) := by
  have hin : ∀ {path p : PathBuf}, fs.resolve path = .ok p → names fs.root <+: names p :=
    prefix_of_resolve habs hne
  have hunit : ∀ {c : Op Unit}, Stays (names fs.root) c →
      Stays (names fs.root) (c >>= fun _ => (pure .unit : Op Reply)) :=
    fun h => .bind h fun _ => .pure _ _
  cases request with
  | create path =>
    refine hunit (stays_resolved fun p hp => .bind (stays_createParent habs hne hp) fun _ => ?_)
    exact Stays.io (stays_call 1 (stays_access (hin hp) _))
  | write path data offset flags =>
    exact .bind (stays_write habs hne data offset flags) fun _ => .pure _ _
  | read path offset size => exact stays_read habs hne offset size
  | stat path =>
    refine .bind (stays_resolved fun p hp => ?_) fun _ => .pure _ _
    exact .bind (Stays.ioAt (stays_call 0 (stays_access (hin hp) _))) fun _ => .pure _ _
  | mkdir path =>
    exact hunit (stays_resolved fun p hp => Stays.io (stays_createDirAll 0 (Or.inl (hin hp))))
  | readDir path =>
    refine .bind (stays_resolved fun p hp => ?_) fun _ => .pure _ _
    exact .bind (Stays.io (stays_call 0 (stays_access (hin hp) _))) fun _ => .pure _ _
  | remove path =>
    refine hunit (stays_resolved fun p hp => ?_)
    refine .bind (Stays.ioAt (stays_call 0 (stays_access (hin hp) _))) fun _ => ?_
    split_ifs
    · exact Stays.io (stays_call 1 (stays_access (hin hp) _))
    · exact Stays.io (stays_call 1 (stays_access (hin hp) _))
  | removeAll path =>
    refine hunit (stays_resolved fun p hp => .bind (stays_exists 0 (hin hp)) fun _ => ?_)
    split_ifs
    · exact Stays.io (stays_access (hin hp) _)
    · exact .fail _ _
  | rename oldPath newPath =>
    refine hunit (stays_resolved fun o ho => stays_resolved fun p hp => ?_)
    exact Stays.io (stays_rename 0 (hin ho) (hin hp))
  | truncate path size =>
    refine hunit (stays_resolved fun p hp => ?_)
    refine .bind (Stays.io (stays_call 0 (stays_access (hin hp) _))) fun _ => Stays.io ?_
    rw [setLen]
    split_ifs
    · exact .fail _ _
    · exact stays_call 1 (stays_access (hin hp) _)
  | touch path =>
    refine hunit (stays_resolved fun p hp => .bind (stays_exists 0 (hin hp)) fun _ => ?_)
    split_ifs
    · exact .pure _ ()
    · exact Stays.io (stays_call 1 (stays_access (hin hp) _))
  | chmod path mode =>
    exact hunit (stays_resolved fun p hp => Stays.io (stays_call 0 (stays_access (hin hp) _)))

end Inside

/-- The same of a directory that may be the root of the machine. -/
lemma stays_apply_of_hasRoot (habs : fs.root.hasRoot = true) (request : Request) :
    Stays (names fs.root) (apply os fs request) := by
  by_cases hne : names fs.root = []
  · rw [hne]
    exact .nil _
  · exact stays_apply habs hne request

/-- A run of operations. -/
lemma stays_runAll (habs : fs.root.hasRoot = true) (requests : List (Os × Request)) :
    Stays (names fs.root) (runAll fs requests) := by
  induction requests with
  | nil => exact .const _ _
  | cons e rest ih =>
    obtain ⟨os, request⟩ := e
    have hfirst := @stays_apply_of_hasRoot os fs habs request
    constructor
    · intro t u h
      obtain ⟨hreply, hagree⟩ := hfirst.agree t u h
      obtain ⟨hreplies, hlast⟩ := ih.agree _ _ hagree
      exact ⟨congrArg₂ List.cons hreply hreplies, hlast⟩
    · intro t h
      have hconfined := hfirst.confined t h
      exact hconfined.trans (ih.confined _ (hconfined.reaches h))

/-- On two machines on which the same is in the directory, a run of operations gets the same
replies and leaves the same in the directory; and it leaves everything else as it was. -/
theorem run_confined (fs : LocalFS) (habs : fs.root.hasRoot = true)
    (requests : List (Os × Request)) {t u : Disk} (ht : DirTree.Reaches (names fs.root) t)
    (hu : DirTree.Reaches (names fs.root) u)
    (hsame : at? (names fs.root) t = at? (names fs.root) u) :
    (runAll fs requests t).1 = (runAll fs requests u).1 ∧
      at? (names fs.root) (runAll fs requests t).2 = at? (names fs.root) (runAll fs requests u).2 ∧
      DirTree.Reaches (names fs.root) (runAll fs requests t).2 ∧
      ∀ q, ¬ names fs.root <+: q → ¬ q <+: names fs.root →
        at? q (runAll fs requests t).2 = at? q t := by
  have hstays := stays_runAll habs requests
  obtain ⟨hreplies, hagree⟩ := hstays.agree t u ⟨ht, hu, hsame⟩
  exact ⟨hreplies, hagree.eq, hagree.left, (hstays.confined t ht).beside⟩

/-- Nothing fails. -/
def quietOs : Os where
  fails _ := none
  made := 0
  residue t := t
  room := 4096
  stamps _ := ⟨none, none, none, 4096⟩
  unreadable _ := false
  umask := 0o022

/-- A machine with a secret beside the directory `/srv/data`. -/
def secretDisk (secret : Bytes) : Disk :=
  some (.dir 0o755 [(ascii "key", .file ⟨secret, 0o600⟩),
    (ascii "srv", .dir 0o755 [(ascii "data", .dir 0o755 [])])])

/-- The secret is asked for, something is written, and the directory itself is removed. -/
def threeRequests : List (Os × Request) :=
  [(quietOs, .read ⟨ascii "/../../key"⟩ 0 (-1)),
    (quietOs, .write ⟨ascii "/a/../b/c"⟩ (ascii "x") 3 .NONE), (quietOs, .removeAll ⟨ascii "/"⟩)]

theorem run_confined_secret :
    (runAll ⟨⟨ascii "/srv/data"⟩⟩ threeRequests (secretDisk (ascii "one"))).1 =
      (runAll ⟨⟨ascii "/srv/data"⟩⟩ threeRequests (secretDisk (ascii "two"))).1 ∧
    at? [ascii "key"] (runAll ⟨⟨ascii "/srv/data"⟩⟩ threeRequests (secretDisk (ascii "one"))).2 =
      some (.file ⟨ascii "one", 0o600⟩) := by
  obtain ⟨hreplies, -, -, hbeside⟩ := run_confined ⟨⟨ascii "/srv/data"⟩⟩ rfl threeRequests
    (t := secretDisk (ascii "one")) (u := secretDisk (ascii "two")) trivial trivial rfl
  exact ⟨hreplies, hbeside [ascii "key"] (by decide) (by decide)⟩

end LocalFS

end Racfs.LocalFs
