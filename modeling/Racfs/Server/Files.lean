/-
# The file endpoints of the server

The handlers behind `/api/v1/files` (`racfs-server/src/api/files.rs`) that create, write and
read a file, with the checks of their parameters and the translation of filesystem errors into
responses.  The filesystem behind them is a mount table of in-memory filesystems; a mounted
filesystem is shared, so the table holds an identity and the states are kept beside it.

Texts are UTF-8 byte strings.  The statistics and the stat cache, which these handlers only
update, are left out.
-/
import Racfs.MemFs.Model
import Racfs.Vfs.Mountable

namespace Racfs.Server

open Vfs MemFs

/-! ### Error responses -/

/-- The codes of error responses. -/
inductive ErrorCode
  | BadRequest
  | Unauthorized
  | Forbidden
  | NotFound
  | Conflict
  | InternalServerError
  | NotImplemented
  | ServiceUnavailable
  | GatewayTimeout
  | InsufficientStorage
deriving DecidableEq, Repr

/-- An error response. -/
structure HttpErrorResponse where
  code : ErrorCode
  message : Bytes
  /-- The operation and the path, for example. -/
  detail : Option Bytes
deriving DecidableEq, Repr

/-- The code and the message for a filesystem error. -/
def fsErrorMessage : FSError → ErrorCode × Bytes
  | .NotFound path => (.NotFound, ascii "Not found: " ++ path.toStringLossy)
  | .AlreadyExists path => (.Conflict, ascii "Already exists: " ++ path.toStringLossy)
  | .PermissionDenied path => (.Forbidden, ascii "Permission denied: " ++ path.toStringLossy)
  | .IsDirectory path => (.BadRequest, ascii "Is a directory: " ++ path.toStringLossy)
  | .NotADirectory path => (.BadRequest, ascii "Not a directory: " ++ path.toStringLossy)
  | .InvalidInput message => (.BadRequest, ascii "Invalid input: " ++ utf8 message)
  | .NotSupported message => (.NotImplemented, ascii "Not supported: " ++ utf8 message)
  | .AlreadyInUse handleId => (.Conflict, ascii "Already in use: " ++ utf8 handleId)
  | .InvalidHandle handleId => (.BadRequest, ascii "Invalid handle: " ++ utf8 handleId)
  | .OutOfMemory => (.ServiceUnavailable, ascii "Out of memory")
  | .PathTooLong => (.BadRequest, ascii "Path too long")
  | .FilenameTooLong => (.BadRequest, ascii "Filename too long")
  | .ReadOnly => (.Forbidden, ascii "Read only")
  | .StorageFull => (.InsufficientStorage, ascii "Storage full")
  | .TooManyOpenFiles => (.ServiceUnavailable, ascii "Too many open files")
  | .DirectoryNotEmpty => (.Conflict, ascii "Directory not empty")
  | .CrossDeviceLink => (.BadRequest, ascii "Cross device link")
  | .InvalidUtf8 message => (.BadRequest, ascii "Invalid UTF-8: " ++ utf8 message)
  | .Timeout => (.GatewayTimeout, ascii "Operation timed out")
  | .Io message => (.InternalServerError, ascii "I/O error: " ++ utf8 message)

/-- The response for a filesystem error. -/
def mapFsErrorWithContext (error : FSError) (operation : Option Bytes) (path : Option PathBuf) :
    HttpErrorResponse where
  code := (fsErrorMessage error).1
  message := (fsErrorMessage error).2
  detail :=
    match operation, path with
    | some op, some p =>
      some (ascii "operation: " ++ op ++ ascii ", path: " ++ p.toStringLossy)
    | some op, none => some (ascii "operation: " ++ op)
    | none, some p => some (ascii "path: " ++ p.toStringLossy)
    | none, none => none

/-! ### Checks -/

/-- The end of a handler: a body, an error response, or a panic, after which the connection is
closed. -/
inductive Response (A : Type*)
  | ok (body : A)
  | error (e : HttpErrorResponse)
  | panic

/-- The longest path, in bytes. -/
def MAX_PATH_LEN : ℕ := 8192

/-- The longest data of a write, in bytes: 16 MiB. -/
def MAX_WRITE_BODY_LEN : ℕ := 16 * 1024 * 1024

/-- A bad request, with its detail. -/
def badRequest (message detail : Bytes) : HttpErrorResponse := ⟨.BadRequest, message, some detail⟩

/-- The check of a path: absolute, without null bytes and `..`, and not too long. -/
def validatePath (path : Bytes) : Option HttpErrorResponse :=
  if path = [] then some (badRequest (ascii "path must be non-empty") (ascii "path: (empty)"))
  else if path.head? ≠ some slash then
    some (badRequest (ascii "path must be absolute (start with /)") (ascii "path: " ++ path))
  else if 0 ∈ path then
    some (badRequest (ascii "path must not contain null bytes") (ascii "path: (contains NUL)"))
  else if [dot, dot] <:+: path then
    some (badRequest (ascii "path must not contain ..") (ascii "path: " ++ path))
  else if path.length > MAX_PATH_LEN then
    some (badRequest (ascii "path too long")
      (ascii "path length " ++ ascii (toString path.length) ++ ascii " exceeds max " ++
        ascii (toString MAX_PATH_LEN)))
  else none

/-- The check of the length of the data of a write. -/
def validateWriteDataLen (len : ℕ) : Option HttpErrorResponse :=
  if len > MAX_WRITE_BODY_LEN then
    some (badRequest (ascii "request body too large")
      (ascii "size " ++ ascii (toString len) ++ ascii " exceeds max " ++
        ascii (toString MAX_WRITE_BODY_LEN) ++ ascii " bytes"))
  else none

/-! ### The filesystem behind the server -/

/-- The mount table, and the mounted filesystems by their identities. -/
structure AppState (ι : Type*) where
  vfs : MountableFS ι
  backend : ι → MemFS

namespace AppState

variable {ι : Type*} [DecidableEq ι] (s : AppState ι)

/-- Read from the filesystem that a path is routed to. -/
def read (path : PathBuf) (offset size : Int64) : Outcome Bytes :=
  (s.vfs.resolveFs path).bind fun r => (s.backend r.1).read r.2 offset size

/-- Change the filesystem that a path is routed to. -/
def mutate (path : PathBuf) (f : MemFS → PathBuf → Outcome Reply × MemFS) :
    Outcome Reply × AppState ι :=
  match s.vfs.resolveFs path with
  | .ok (i, relative) =>
    let r := f (s.backend i) relative
    (r.1, { s with backend := Function.update s.backend i r.2 })
  | .err e => (.err e, s)
  | .panic => (.panic, s)

end AppState

/-- The response to a call of the filesystem. -/
def respond {A B : Type*} (operation : Bytes) (path : PathBuf) (f : A → B) :
    Outcome A → Response B
  | .ok a => .ok (f a)
  | .err e => .error (mapFsErrorWithContext e (some operation) (some path))
  | .panic => .panic

/-! ### Handlers -/

/-- The body of a write. -/
structure WriteRequest where
  path : Bytes
  data : Bytes
  offset : Option Int64

section Handlers

variable {ι : Type*} [DecidableEq ι] (s : AppState ι)

/-- `GET`: the content of a file as a text. -/
def readFile (path : Bytes) : Response Bytes :=
  match validatePath path with
  | some e => .error e
  | none => respond (ascii "read") ⟨path⟩ fromUtf8Lossy (s.read ⟨path⟩ 0 (-1))

/-- `POST`: create a file. -/
def createFile (path : Bytes) (now : DateTime) : Response Bytes × AppState ι :=
  match validatePath path with
  | some e => (.error e, s)
  | none =>
    let r := s.mutate ⟨path⟩ fun fs p => fs.create p now
    (respond (ascii "create") ⟨path⟩ (fun _ => ascii "Created file: " ++ path) r.1, r.2)

/-- The message after a write. -/
def wroteMessage : Reply → Bytes
  | .written n => ascii "Wrote " ++ ascii (toString n.toNat) ++ ascii " bytes"
  | _ => []

/-- `PUT`: write data at an offset. -/
def writeFile (body : WriteRequest) (now : DateTime) : Response Bytes × AppState ι :=
  match validatePath body.path with
  | some e => (.error e, s)
  | none =>
    match validateWriteDataLen body.data.length with
    | some e => (.error e, s)
    | none =>
      let r := s.mutate ⟨body.path⟩ fun fs p =>
        fs.write p body.data (body.offset.getD 0) .NONE now
      (respond (ascii "write") ⟨body.path⟩ wroteMessage r.1, r.2)

end Handlers

end Racfs.Server
