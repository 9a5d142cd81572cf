/-
# The operations that the cache wrapper does not pass on

The trait `FileSystem` (`racfs-core/src/filesystem.rs`) has a body for every optional operation,
which answers that the operation is not supported.  A backend overrides those that it supports.
`CachedFs` (`racfs-vfs/src/cached_fs.rs`) overrides `truncate` and `touch` only, so that links and
extended attributes of the wrapped filesystem cannot be reached through it.

The wrapper should do what the wrapped filesystem does (`Forwarded`).  `forwarded_iff` says that
it does so exactly where the wrapped filesystem does nothing either, and says so in the same
words.
-/
import Racfs.Vfs.CachedFs

namespace Racfs.Vfs

/-- The optional operations on links and extended attributes, with the bodies of the trait. -/
structure OptionalOps (S : Type*) where
  readlink : S → PathBuf → Outcome PathBuf × S :=
    fun s _ => (.err (.NotSupported "readlink not implemented"), s)
  symlink : S → DateTime → (target link : PathBuf) → Outcome Reply × S :=
    fun s _ _ _ => (.err (.NotSupported "symlink not implemented"), s)
  getXattr : S → PathBuf → (name : Bytes) → Outcome Bytes × S :=
    fun s _ _ => (.err (.NotSupported "get_xattr not implemented"), s)
  setXattr : S → PathBuf → (name value : Bytes) → Outcome Reply × S :=
    fun s _ _ _ => (.err (.NotSupported "set_xattr not implemented"), s)
  removeXattr : S → PathBuf → (name : Bytes) → Outcome Reply × S :=
    fun s _ _ => (.err (.NotSupported "remove_xattr not implemented"), s)
  listXattr : S → PathBuf → Outcome (List Bytes) × S :=
    fun s _ => (.err (.NotSupported "list_xattr not implemented"), s)

/-- The in-memory filesystem supports all of them. -/
def memOptionalOps : OptionalOps MemFs.MemFS where
  readlink s path := (s.readlink path, s)
  symlink s now target link := s.symlink target link now
  getXattr s path name := (s.getXattr path name, s)
  setXattr s path name value := s.setXattr path name value
  removeXattr s path name := s.removeXattr path name
  listXattr s path := (s.listXattr path, s)

/-- The wrapper overrides none of them. -/
def CachedFs.optionalOps (S : Type*) : OptionalOps (CachedFs S) := {}

/-! ### Calls as data -/

/-- A call of an optional operation. -/
inductive OptionalCall
  | readlink (path : PathBuf)
  | symlink (now : DateTime) (target link : PathBuf)
  | getXattr (path : PathBuf) (name : Bytes)
  | setXattr (path : PathBuf) (name value : Bytes)
  | removeXattr (path : PathBuf) (name : Bytes)
  | listXattr (path : PathBuf)

/-- The message of the body in the trait. -/
def OptionalCall.notImplemented : OptionalCall → String
  | .readlink _ => "readlink not implemented"
  | .symlink _ _ _ => "symlink not implemented"
  | .getXattr _ _ => "get_xattr not implemented"
  | .setXattr _ _ _ => "set_xattr not implemented"
  | .removeXattr _ _ => "remove_xattr not implemented"
  | .listXattr _ => "list_xattr not implemented"

/-- What a filesystem does with a call. -/
def OptionalOps.exec {S : Type*} (ops : OptionalOps S) (s : S) :
    OptionalCall → Outcome Reply × S
  | .readlink path =>
    let r := ops.readlink s path
    (r.1.map .path, r.2)
  | .symlink now target link => ops.symlink s now target link
  | .getXattr path name =>
    let r := ops.getXattr s path name
    (r.1.map .data, r.2)
  | .setXattr path name value => ops.setXattr s path name value
  | .removeXattr path name => ops.removeXattr s path name
  | .listXattr path =>
    let r := ops.listXattr s path
    (r.1.map .names, r.2)

/-- The call through the wrapper has the result and the effect of the call without it. -/
def Forwarded {S : Type*} (ops : OptionalOps S) (s : CachedFs S) (call : OptionalCall) : Prop :=
  ((CachedFs.optionalOps S).exec s call).1 = (ops.exec s.inner call).1 ∧
    ((CachedFs.optionalOps S).exec s call).2.inner = (ops.exec s.inner call).2

/-- The wrapper does not support any of the operations. -/
lemma exec_optionalOps {S : Type*} (s : CachedFs S) (call : OptionalCall) :
    (CachedFs.optionalOps S).exec s call = (.err (.NotSupported call.notImplemented), s) := by
  cases call <;> rfl

/-- A call has the same result and effect through the wrapper exactly if the wrapped filesystem
answers that the operation is not implemented, and changes nothing. -/
theorem forwarded_iff {S : Type*} (ops : OptionalOps S) (s : CachedFs S) (call : OptionalCall) :
    Forwarded ops s call ↔
      ops.exec s.inner call = (.err (.NotSupported call.notImplemented), s.inner) := by
  rw [Forwarded, exec_optionalOps]
  constructor
  · rintro ⟨hresult, hinner⟩
    exact Prod.ext hresult.symm hinner.symm
  · intro h
    rw [h]
    exact ⟨rfl, rfl⟩

/-- A link that the in-memory filesystem makes cannot be made through the wrapper. -/
theorem not_forwarded_symlink :
    let s : CachedFs MemFs.MemFS := ⟨MemFs.MemFS.new 0, ∅⟩
    let call := OptionalCall.symlink 0 ⟨ascii "/f"⟩ ⟨ascii "/l"⟩
    (memOptionalOps.exec s.inner call).1 = .ok .unit ∧
      ((CachedFs.optionalOps MemFs.MemFS).exec s call).1 =
        .err (.NotSupported "symlink not implemented") ∧
      ¬ Forwarded memOptionalOps s call := by
  refine ⟨rfl, rfl, fun h => ?_⟩
  have hresult : Outcome.err (.NotSupported "symlink not implemented") = Outcome.ok Reply.unit :=
    h.1
  cases hresult

end Racfs.Vfs
