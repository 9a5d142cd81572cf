/-
# The proxy filesystem

`ProxyFS` (`racfs-plugin-proxyfs/src/fs`) makes one HTTP request of every operation.  It fails if
there is no response, and does not look at the status of the one that it gets.  Metadata are read
from the words of the body.

HTTP is a parameter: a function from requests to responses.  The body of a response is a text, or
fails to arrive.
-/
import Racfs.Lib.Decimal
import Racfs.Lib.Words
import Racfs.MemFs.Model

namespace Racfs.ProxyFs

/-- The methods that are used. -/
inductive Method
  | GET
  | POST
  | PUT
  | DELETE

/-- What a request carries, in its query or as JSON. -/
inductive Payload
  | FileQuery (path : Bytes)
  | WriteRequest (path data : Bytes) (offset : Option Int64)
  | RenameRequest (oldPath newPath : Bytes)
  | ChmodRequest (path : Bytes) (mode : UInt32)
  | CreateDirectoryRequest (path : Bytes) (perm : Option UInt32)

/-- A request. -/
structure Request where
  method : Method
  url : Bytes
  payload : Payload

/-- A response: its status, and its body as a text if it arrives. -/
structure Response where
  status : UInt16
  text : Except String Bytes

/-- Whether the status is one of success. -/
def Response.isSuccess (r : Response) : Bool := 200 ≤ r.status && r.status < 300

/-- What comes back for a request; an error if there is no response. -/
abbrev Http := Request → Except String Response

/-- The address of the remote server. -/
structure ProxyFS where
  baseUrl : Bytes

/-- An error of the HTTP client. -/
def ofHttp {A : Type} : Except String A → Outcome A
  | .ok a => .ok a
  | .error message => .err (.Io message)

/-- The metadata that three words stand for. -/
def ofWords (mode size path : Bytes) : FileMetadata where
  path := ⟨path⟩
  size := (parseU64 size).getD 0
  mode := (parseU32 mode).getD 0o644
  created := none
  modified := none
  accessed := none
  isSymlinkFlag := false
  symlinkTarget := none

/-- The metadata in the body of a response, `stat`. -/
def parseStat (text : Bytes) : Outcome FileMetadata :=
  match splitWhitespace text with
  | _ :: mode :: size :: _ :: path :: _ => .ok (ofWords mode size path)
  | _ => .err (.Io "Invalid stat response")

/-- The metadata in a line of a listing. -/
def parseLine (now : DateTime) (line : Bytes) : FileMetadata :=
  match splitWhitespace line with
  | _ :: mode :: size :: path :: _ => ofWords mode size path
  | _ => .file ⟨line⟩ 0 now

/-- The metadata in the body of a response, `read_dir`. -/
def parseListing (now : DateTime) (text : Bytes) : List FileMetadata :=
  ((lines text).filter fun line => !line.isEmpty).map (parseLine now)

namespace ProxyFS

variable (fs : ProxyFS) (http : Http)

/-- A request to an endpoint. -/
def request (method : Method) (endpoint : String) (payload : Payload) : Request :=
  ⟨method, fs.baseUrl ++ ascii endpoint, payload⟩

/-- Send a request. -/
def send (request : Request) : Outcome Response := ofHttp (http request)

/-! The requests. -/

def createRequest (path : PathBuf) : Request :=
  fs.request .POST "/api/v1/files" (.FileQuery path.toStringLossy)

def writeRequest (path : PathBuf) (data : Bytes) (offset : Int64) : Request :=
  fs.request .PUT "/api/v1/files"
    (.WriteRequest path.toStringLossy (fromUtf8Lossy data) (some offset))

def mkdirRequest (path : PathBuf) (perm : UInt32) : Request :=
  fs.request .POST "/api/v1/directories" (.CreateDirectoryRequest path.toStringLossy (some perm))

def removeRequest (path : PathBuf) : Request :=
  fs.request .DELETE "/api/v1/files" (.FileQuery path.toStringLossy)

def renameRequest (oldPath newPath : PathBuf) : Request :=
  fs.request .POST "/api/v1/rename" (.RenameRequest oldPath.toStringLossy newPath.toStringLossy)

def chmodRequest (path : PathBuf) (mode : UInt32) : Request :=
  fs.request .POST "/api/v1/chmod" (.ChmodRequest path.toStringLossy mode)

def readRequest (path : PathBuf) : Request :=
  fs.request .GET "/api/v1/files" (.FileQuery path.toStringLossy)

def statRequest (path : PathBuf) : Request :=
  fs.request .GET "/api/v1/stat" (.FileQuery path.toStringLossy)

def readDirRequest (path : PathBuf) : Request :=
  fs.request .GET "/api/v1/directories" (.FileQuery path.toStringLossy)

/-! The operations. -/

/-- Create a file. -/
def create (path : PathBuf) : Outcome Reply :=
  (send http (fs.createRequest path)).map fun _ => .unit

/-- Write to a file; the flags are not sent. -/
def write (path : PathBuf) (data : Bytes) (offset : Int64) (_flags : WriteFlags) : Outcome Reply :=
  (send http (fs.writeRequest path data offset)).map fun _ => .written data.length.toUInt64

/-- Create a directory. -/
def mkdir (path : PathBuf) (perm : UInt32) : Outcome Reply :=
  (send http (fs.mkdirRequest path perm)).map fun _ => .unit

/-- Remove a file. -/
def remove (path : PathBuf) : Outcome Reply :=
  (send http (fs.removeRequest path)).map fun _ => .unit

/-- Remove a directory; the same request. -/
def removeAll (path : PathBuf) : Outcome Reply := fs.remove http path

/-- Move an entry. -/
def rename (oldPath newPath : PathBuf) : Outcome Reply :=
  (send http (fs.renameRequest oldPath newPath)).map fun _ => .unit

/-- Set the permissions. -/
def chmod (path : PathBuf) (mode : UInt32) : Outcome Reply :=
  (send http (fs.chmodRequest path mode)).map fun _ => .unit

/-- Read a part of a file: the whole is fetched, and cut by the arithmetic of the filesystem in
memory. -/
def read (path : PathBuf) (offset size : Int64) : Outcome Reply :=
  (send http (fs.readRequest path)).bind fun response =>
    (ofHttp response.text).bind fun text => (MemFs.MemFS.readData text offset size).map .data

/-- The metadata of a path. -/
def stat (path : PathBuf) : Outcome Reply :=
  (send http (fs.statRequest path)).bind fun response =>
    (ofHttp response.text).bind fun text => (parseStat text).map .metadata

/-- List a directory. -/
def readDir (path : PathBuf) (now : DateTime) : Outcome Reply :=
  (send http (fs.readDirRequest path)).bind fun response =>
    (ofHttp response.text).map fun text => .entries (parseListing now text)

end ProxyFS

/-! ### Failures of the remote server -/

/-- An operation with its arguments. -/
inductive Call
  | create (path : PathBuf)
  | write (path : PathBuf) (data : Bytes) (offset : Int64) (flags : WriteFlags)
  | mkdir (path : PathBuf) (perm : UInt32)
  | remove (path : PathBuf)
  | removeAll (path : PathBuf)
  | rename (oldPath newPath : PathBuf)
  | chmod (path : PathBuf) (mode : UInt32)
  | read (path : PathBuf) (offset size : Int64)
  | stat (path : PathBuf)
  | readDir (path : PathBuf) (now : DateTime)

namespace ProxyFS

variable (fs : ProxyFS) (http : Http)

/-- The request that an operation sends. -/
def requestOf : Call → Request
  | .create path => fs.createRequest path
  | .write path data offset _ => fs.writeRequest path data offset
  | .mkdir path perm => fs.mkdirRequest path perm
  | .remove path => fs.removeRequest path
  | .removeAll path => fs.removeRequest path
  | .rename oldPath newPath => fs.renameRequest oldPath newPath
  | .chmod path mode => fs.chmodRequest path mode
  | .read path _ _ => fs.readRequest path
  | .stat path => fs.statRequest path
  | .readDir path _ => fs.readDirRequest path

/-- What an operation returns. -/
def call : Call → Outcome Reply
  | .create path => fs.create http path
  | .write path data offset flags => fs.write http path data offset flags
  | .mkdir path perm => fs.mkdir http path perm
  | .remove path => fs.remove http path
  | .removeAll path => fs.removeAll http path
  | .rename oldPath newPath => fs.rename http oldPath newPath
  | .chmod path mode => fs.chmod http path mode
  | .read path offset size => fs.read http path offset size
  | .stat path => fs.stat http path
  | .readDir path now => fs.readDir http path now

/-- The body is not what the operation needs: it has not arrived, or has too few words for
metadata. -/
def Unreadable (text : Except String Bytes) : Call → Prop
  | .read _ _ _ | .readDir _ _ => ∃ message, text = .error message
  | .stat _ => ∀ body, text = .ok body → (splitWhitespace body).length < 5
  | _ => False

variable {fs http}

/-- Metadata are refused exactly if there are too few words. -/
lemma isErr_parseStat_iff {text : Bytes} :
    (parseStat text).isErr = true ↔ (splitWhitespace text).length < 5 := by
  rw [parseStat]
  split
  · next heq => simp [heq, Outcome.isErr]
  · next hne =>
    simp only [Outcome.isErr, true_iff]
    match hwords : splitWhitespace text with
    | [] | [_] | [_, _] | [_, _, _] | [_, _, _, _] => simp
    | a :: b :: c :: d :: e :: rest => exact absurd hwords (hne a b c d e rest)

lemma isErr_map {A B : Type*} (x : Outcome A) (f : A → B) : (x.map f).isErr = x.isErr := by
  cases x <;> rfl

lemma not_isErr_readData (data : Bytes) (offset size : Int64) :
    (MemFs.MemFS.readData data offset size).isErr = false := by
  rw [MemFs.MemFS.readData]
  split_ifs <;> rfl

/-- A response of any status: the operation fails exactly if the body is not what it needs. -/
lemma call_isErr_iff {c : Call} {r : Response} (h : http (fs.requestOf c) = .ok r) :
    (fs.call http c).isErr = true ↔ Unreadable r.text c := by
  have hsend : send http (fs.requestOf c) = .ok r := by rw [send, h]; rfl
  cases c with
  | read path offset size =>
    change send http (fs.readRequest path) = .ok r at hsend
    simp only [call, ProxyFS.read, hsend, Outcome.ok_bind, Unreadable]
    cases r.text with
    | error message => simp [ofHttp, Outcome.bind, Outcome.isErr]
    | ok text => simp [ofHttp, isErr_map, not_isErr_readData]
  | stat path =>
    change send http (fs.statRequest path) = .ok r at hsend
    simp only [call, ProxyFS.stat, hsend, Outcome.ok_bind, Unreadable]
    cases r.text with
    | error message => simp [ofHttp, Outcome.bind, Outcome.isErr]
    | ok text => simp [ofHttp, isErr_map, isErr_parseStat_iff]
  | readDir path now =>
    change send http (fs.readDirRequest path) = .ok r at hsend
    simp only [call, ProxyFS.readDir, hsend, Outcome.ok_bind, Unreadable, isErr_map]
    cases r.text <;> simp [ofHttp, Outcome.isErr]
  | _ =>
    -- the response is thrown away
    simp only [requestOf] at hsend
    simp [call, create, write, mkdir, remove, removeAll, rename, chmod, hsend, Unreadable,
      Outcome.isErr]

/-- A failure of the remote server is reported exactly if it is none, or if the body is not what
the operation needs. -/
theorem failure_reported_iff {fs : ProxyFS} {http : Http} {c : Call} {r : Response}
    (h : http (fs.requestOf c) = .ok r) :
    (r.isSuccess = false → (fs.call http c).isErr = true) ↔
      r.isSuccess = true ∨ Unreadable r.text c := by
  rw [call_isErr_iff h]
  cases r.isSuccess <;> simp

/-- A remote server that has nothing to say of a path. -/
theorem failure_reported_notFound :
    (Response.isSuccess ⟨404, .ok []⟩ = false →
        ((ProxyFS.mk []).call (fun _ => .ok ⟨404, .ok []⟩) (.stat ⟨ascii "/f"⟩)).isErr = true) ↔
      Response.isSuccess ⟨404, .ok []⟩ = true ∨ Unreadable (.ok []) (.stat ⟨ascii "/f"⟩) :=
  @failure_reported_iff ⟨[]⟩ (fun _ => .ok ⟨404, .ok []⟩) _ _ rfl

/-- A remote server that refuses every request, and no operation that says so. -/
theorem failure_not_reported :
    Response.isSuccess ⟨403, .ok (ascii "you may not do this")⟩ = false ∧
    ∀ c ∈ ([.create ⟨ascii "/f"⟩, .write ⟨ascii "/f"⟩ (ascii "x") 0 .NONE,
        .mkdir ⟨ascii "/d"⟩ 0o755, .remove ⟨ascii "/f"⟩, .rename ⟨ascii "/f"⟩ ⟨ascii "/g"⟩,
        .read ⟨ascii "/f"⟩ 0 (-1), .stat ⟨ascii "/f"⟩, .readDir ⟨ascii "/d"⟩ 0] : List Call),
      ((ProxyFS.mk []).call (fun _ => .ok ⟨403, .ok (ascii "you may not do this")⟩) c).isOk =
        true := by
  decide

end ProxyFS

end Racfs.ProxyFs
