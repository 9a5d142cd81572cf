/-
# The HTTP filesystem

`HttpFS` (`racfs-plugin-httpfs/src/fs`) has one table for all its files.  A request is a
directory below `/requests` with files for its URL, method, headers and body, and it is executed
when `send` is written to its file `trigger`; the response is put below `/responses`.  Responses
to `GET` are also kept below `/cache`, under a key made of the URL.

The hasher of the standard library, `serde_json` and the HTTP client are parameters.  The clock is
read twice in a request: before it is sent, and when its response is written.
-/
import Mathlib.Data.List.DropRight
import Racfs.Lib.Decimal
import Racfs.Lib.PathJoin
import Racfs.Lib.Unseen
import Racfs.Lib.Words
import Racfs.MemFs.Model

namespace Racfs.HttpFs

/-- The headers of a request or of a response. -/
abbrev Headers := AssocMap Bytes Bytes

/-- What is taken from elsewhere. -/
structure Crates where
  /-- The `DefaultHasher` of a string. -/
  hash : Bytes → UInt64
  /-- `serde_json::to_string`. -/
  toJson : Headers → Bytes
  /-- `serde_json::from_str`. -/
  fromJson : Bytes → Except String Headers

/-- The methods. -/
inductive Method
  | GET
  | POST
  | PUT
  | DELETE
  | PATCH
  | HEAD
deriving DecidableEq

/-- The method that a text stands for. -/
def Method.parse (text : Bytes) : Option Method :=
  let upper := toUppercase (trim text)
  if upper = ascii "GET" then some GET
  else if upper = ascii "POST" then some POST
  else if upper = ascii "PUT" then some PUT
  else if upper = ascii "DELETE" then some DELETE
  else if upper = ascii "PATCH" then some PATCH
  else if upper = ascii "HEAD" then some HEAD
  else none

/-- Whether a body is sent. -/
def Method.hasBody : Method → Bool
  | POST | PUT | PATCH => true
  | _ => false

/-- A request as it is sent. -/
structure HttpRequest where
  method : Method
  url : Bytes
  headers : Headers
  ifNoneMatch : Option Bytes
  body : Option Bytes

/-- What the origin answers; the body may not arrive. -/
structure Answer where
  status : UInt16
  headers : Headers
  body : Except String Bytes

/-- The HTTP client, and the servers behind it. -/
structure Origin where
  /-- Whether the client can be built. -/
  client : Except String Unit
  send : HttpRequest → Except String Answer

/-- A response as it is stored. -/
structure HttpResponse where
  status : UInt16
  headers : Headers
  body : Bytes

/-- A file or directory. -/
structure FileEntry where
  data : Bytes
  metadata : FileMetadata

/-- The table. -/
structure HttpFS where
  files : AssocMap PathBuf FileEntry

/-- The identifier of a request, from the path of one of its files. -/
def parseRequestId (path : PathBuf) : Outcome Bytes :=
  match path.components with
  | .rootDir :: .normal requests :: third :: _ =>
    if requests = ascii "requests" then
      match third with
      | .normal name =>
        if isUtf8 name then .ok name else .err (.InvalidInput "invalid request ID")
      | _ => .err (.InvalidInput "invalid request ID")
    else .err (.InvalidInput "invalid request path")
  | _ => .err (.InvalidInput "invalid request path")

/-- The key of a URL in the cache. -/
def urlToCacheKey (c : Crates) (url : Bytes) : Bytes :=
  (hexDigits (c.hash url).toNat 16).map fun d => d.toNat.toUInt8

/-! ### Cache control -/

/-- What a `Cache-Control` header says. -/
structure CacheDirective where
  maxAgeSecs : Option UInt64
  noStore : Bool
deriving DecidableEq

/-- One part of the header. -/
def CacheDirective.take (d : CacheDirective) (part : Bytes) : CacheDirective :=
  let part := trim part
  if eqIgnoreAsciiCase part (ascii "no-store") then { d with noStore := true }
  else if eqIgnoreAsciiCase part (ascii "no-cache") then { d with maxAgeSecs := some 0 }
  else if (ascii "max-age=").isPrefixOf (toLowercase part) then
    -- the letters of `max-age=` are the lower case of ASCII letters only, so the index is right
    match parseU64 (trim (part.drop 8)) with
    | some n => { d with maxAgeSecs := some n }
    | none => d
  else d

/-- The directive of the headers of a response. -/
def parseCacheControl (headers : Headers) : CacheDirective :=
  let value :=
    ((headers.get? (ascii "cache-control")).or (headers.get? (ascii "Cache-Control"))).getD []
  (value.splitOn 44).foldl CacheDirective.take ⟨none, false⟩

/-- How long a response is kept if it does not say so, in seconds. -/
def DEFAULT_CACHE_TTL_SECS : UInt64 := 60

/-- Unix time in seconds. -/
def timestamp (t : DateTime) : ℤ := t / 1000000000

/-- When a response expires; none if the addition overflows and the build has checks for that. -/
def expirySecs (checks : Bool) (now : DateTime) (maxAge : UInt64) : Option UInt64 :=
  let start := (Int64.ofInt (timestamp now)).toUInt64
  if checks ∧ 2 ^ 64 ≤ start.toNat + maxAge.toNat then none else some (start + maxAge)

/-! ### Paths -/

/-- A file of a request. -/
def requestPath (id : Bytes) (name : String) : PathBuf :=
  ⟨ascii "/requests/" ++ id ++ ascii "/" ++ ascii name⟩

/-- The directory of a response. -/
def responseDir (id : Bytes) : PathBuf := ⟨ascii "/responses/" ++ id⟩

/-- A file of a response. -/
def responsePath (id : Bytes) (name : String) : PathBuf :=
  ⟨ascii "/responses/" ++ id ++ ascii "/" ++ ascii name⟩

/-- The directory of a key in the cache. -/
def cacheDir (key : Bytes) : PathBuf := ⟨ascii "/cache/" ++ key⟩

/-- A file of a key in the cache. -/
def cachePath (key : Bytes) (name : String) : PathBuf := (cacheDir key).push ⟨ascii name⟩

namespace HttpFS

/-! ### The table -/

/-- Put a directory into the table. -/
def putDirectory (fs : HttpFS) (path : PathBuf) (now : DateTime) : HttpFS :=
  ⟨fs.files.insert path ⟨[], .directory path now⟩⟩

/-- Put a directory into the table if there is nothing at its path. -/
def ensureDirectory (fs : HttpFS) (path : PathBuf) (now : DateTime) : HttpFS :=
  if fs.files.contains path then fs else fs.putDirectory path now

/-- Put a file into the table. -/
def putFile (fs : HttpFS) (path : PathBuf) (data : Bytes) (size : UInt64) (now : DateTime) :
    HttpFS :=
  ⟨fs.files.insert path ⟨data, .file path size now⟩⟩

/-- A new filesystem. -/
def new (now : DateTime) : HttpFS :=
  ((((HttpFS.mk ∅).putDirectory ⟨ascii "/"⟩ now).putDirectory ⟨ascii "/requests"⟩ now).putDirectory
    ⟨ascii "/responses"⟩ now).putDirectory ⟨ascii "/cache"⟩ now

/-- The entry of a path. -/
def getEntry (fs : HttpFS) (path : PathBuf) : Outcome FileEntry :=
  match fs.files.get? path with
  | some e => .ok e
  | none => .err (.NotFound path)

/-- The check that the parent of a path is a directory; the root is not looked up. -/
def ensureParentExists (fs : HttpFS) (path : PathBuf) : Outcome Unit :=
  match path.parent with
  | none => .ok ()
  | some parent =>
    if parent.bytes = ascii "/" then .ok ()
    else
      match fs.files.get? parent with
      | none => .err (.NotFound parent)
      | some e => if e.metadata.isDirectory then .ok () else .err (.NotADirectory parent)

/-- The content of a file. -/
def readBytes (fs : HttpFS) (path : PathBuf) : Outcome Bytes :=
  (fs.getEntry path).bind fun e =>
    if e.metadata.isDirectory then .err (.IsDirectory path) else .ok e.data

/-- The content of a file that is a text. -/
def readToString (fs : HttpFS) (path : PathBuf) : Outcome Bytes :=
  (fs.readBytes path).bind fun data =>
    match utf8Error data with
    | none => .ok data
    | some e => .err (.InvalidUtf8 e.toString)

/-- The value, if there is one. -/
def ok? {A : Type} : Outcome A → Option A
  | .ok a => some a
  | _ => none

/-! ### The cache -/

/-- The response to a `GET` that is kept under a key, unless it has expired. -/
def getCachedResponse (c : Crates) (fs : HttpFS) (key : Bytes) (now : DateTime) :
    Option HttpResponse := do
  let expiry ← (ok? (fs.readToString (cachePath key "expiry"))).bind (parseU64 ∘ trim)
  if timestamp now > expiry.toInt64.toInt then none
  else
    let status ← (ok? (fs.readToString (cachePath key "status"))).bind (parseU16 ∘ trim)
    let headers ← (ok? (fs.readToString (cachePath key "headers.json"))).bind
      fun json => (c.fromJson json).toOption
    let body ← ok? (fs.readBytes (cachePath key "body"))
    some ⟨status, headers, body⟩

/-- The `ETag` of the response. -/
def etag (headers : Headers) : Option Bytes :=
  (headers.get? (ascii "etag")).or (headers.get? (ascii "ETag"))

/-- Keep a response under a key.  The sizes of two of the files are not looked up. -/
def setCachedResponse (c : Crates) (checks : Bool) (fs : HttpFS) (key : Bytes)
    (r : HttpResponse) (maxAge : UInt64) (now : DateTime) : Outcome Unit × HttpFS :=
  let fs := fs.ensureDirectory (cacheDir key) now
  match expirySecs checks now maxAge with
  | none => (.panic, fs)
  | some expiry =>
    let json := c.toJson r.headers
    let fs := fs.putFile (cachePath key "status") (decimal r.status.toNat) 3 now
    let fs := fs.putFile (cachePath key "headers.json") json json.length.toUInt64 now
    let fs := fs.putFile (cachePath key "body") r.body r.body.length.toUInt64 now
    let fs := fs.putFile (cachePath key "expiry") (decimal expiry.toNat) 20 now
    -- without an `ETag` the one of an earlier response stays
    match etag r.headers with
    | none => (.ok (), fs)
    | some tag => (.ok (), fs.putFile (cachePath key "etag") tag tag.length.toUInt64 now)

/-- The `ETag` that is kept under a key. -/
def getCachedEtag (fs : HttpFS) (key : Bytes) : Option Bytes :=
  ok? (fs.readToString (cachePath key "etag"))

/-- The body that is kept under a key, expired or not. -/
def getCachedBodyOnly (fs : HttpFS) (key : Bytes) : Option Bytes :=
  ok? (fs.readBytes (cachePath key "body"))

/-! ### Requests -/

/-- What the files of a request say. -/
structure RequestFiles where
  url : Bytes
  method : Bytes
  headersJson : Bytes
  body : Bytes
deriving DecidableEq

/-- Read the files of a request; the last two may be missing. -/
def readRequest (fs : HttpFS) (id : Bytes) : Outcome RequestFiles :=
  (fs.readToString (requestPath id "url")).bind fun url =>
    (fs.readToString (requestPath id "method")).bind fun method =>
      .ok ⟨url, method, (ok? (fs.readToString (requestPath id "headers.json"))).getD [],
        (ok? (fs.readBytes (requestPath id "body"))).getD []⟩

/-- `str::trim_matches`, for quotation marks. -/
def trimQuotes (s : Bytes) : Bytes := (s.dropWhile (· == 34)).rdropWhile (· == 34)

/-- A text as a string. -/
def toStr (s : Bytes) : String := (String.fromUTF8? ⟨s.toArray⟩).getD ""

/-- An error of another crate. -/
def ofCrate {A : Type} (what : String) : Except String A → Outcome A
  | .ok a => .ok a
  | .error e => .err (.Io (what ++ ": " ++ e))

/-- The response to a request. -/
inductive Exchange
  /-- It is taken from the cache. -/
  | served (r : HttpResponse)
  /-- It comes from the origin, and may be kept under a key for a time. -/
  | answered (r : HttpResponse) (keep : Option (Bytes × UInt64))

/-- How long the response to a request is kept. -/
def keepFor (method : Method) (r : HttpResponse) : Option UInt64 :=
  let directive := parseCacheControl r.headers
  if method = .GET ∧ r.status = 200 ∧ directive.noStore = false then
    some (directive.maxAgeSecs.getD DEFAULT_CACHE_TTL_SECS)
  else none

/-- Send a request to the origin. -/
def ask (c : Crates) (fs : HttpFS) (r : RequestFiles) (origin : Origin) : Outcome Exchange :=
  let parsed : Outcome Headers :=
    if r.headersJson = [] then .ok ∅
    else
      match c.fromJson r.headersJson with
      | .ok headers => .ok headers
      | .error e => .err (.InvalidInput ("invalid headers.json: " ++ e))
  parsed.bind fun headers =>
    (ofCrate "failed to build HTTP client" origin.client).bind fun _ =>
      match Method.parse r.method with
      | none => .err (.InvalidInput ("unsupported HTTP method: " ++ toStr r.method))
      | some method =>
        let isGet := method = .GET
        let key := urlToCacheKey c (trim r.url)
        let request : HttpRequest :=
          { method, headers
            url := if isGet then trim r.url else r.url
            ifNoneMatch := if isGet then (fs.getCachedEtag key).map trimQuotes else none
            body := if r.body ≠ [] ∧ method.hasBody then some r.body else none }
        (ofCrate "HTTP request failed" (origin.send request)).bind fun answer =>
          let body : Outcome Bytes :=
            if answer.status = 304 ∧ isGet then .ok ((fs.getCachedBodyOnly key).getD [])
            else ofCrate "failed to read response body" answer.body
          body.bind fun body =>
            let response : HttpResponse := ⟨answer.status, answer.headers, body⟩
            .ok (.answered response ((keepFor method response).map fun ttl => (key, ttl)))

/-- Get the response to a request: a `GET` looks into the cache first, before the headers are
parsed. -/
def exchange (c : Crates) (fs : HttpFS) (id : Bytes) (now : DateTime) (origin : Origin) :
    Outcome Exchange :=
  (fs.readRequest id).bind fun r =>
    if Method.parse r.method = some .GET then
      match fs.getCachedResponse c (urlToCacheKey c (trim r.url)) now with
      | some cached => .ok (.served cached)
      | none => fs.ask c r origin
    else fs.ask c r origin

/-- Write a response to the files of a request. -/
def storeResponseDirect (c : Crates) (fs : HttpFS) (id : Bytes) (r : HttpResponse)
    (now : DateTime) : HttpFS :=
  let status := decimal r.status.toNat
  let json := c.toJson r.headers
  let fs := fs.ensureDirectory (responseDir id) now
  let fs := fs.putFile (responsePath id "status") status status.length.toUInt64 now
  let fs := fs.putFile (responsePath id "headers.json") json json.length.toUInt64 now
  fs.putFile (responsePath id "body") r.body r.body.length.toUInt64 now

/-- Execute a request. -/
def executeRequest (c : Crates) (checks : Bool) (fs : HttpFS) (id : Bytes) (now later : DateTime)
    (origin : Origin) : Outcome Unit × HttpFS :=
  match fs.exchange c id now origin with
  | .err e => (.err e, fs)
  | .panic => (.panic, fs)
  | .ok (.served r) => (.ok (), fs.storeResponseDirect c id r later)
  | .ok (.answered r none) => (.ok (), fs.storeResponseDirect c id r later)
  | .ok (.answered r (some (key, ttl))) =>
    (fs.storeResponseDirect c id r later).setCachedResponse c checks key r ttl later

/-! ### The operations -/

/-- Create an empty file.  The parent is checked for being a directory, and then for being one
that has only directories. -/
def create (fs : HttpFS) (path : PathBuf) (now : DateTime) : Outcome Reply × HttpFS :=
  match fs.ensureParentExists path with
  | .err e => (.err e, fs)
  | .panic => (.panic, fs)
  | .ok () =>
    if fs.files.contains path then (.err (.AlreadyExists path), fs)
    else if path.parent.any fun parent => parent.toStringLossy = ascii "/requests" ∨
        parent.toStringLossy = ascii "/responses" ∨ parent.toStringLossy = ascii "/cache" then
      (.err (.PermissionDenied path), fs)
    else (.ok .unit, fs.putFile path [] 0 now)

/-- The content of a file after a write, which appends or replaces. -/
def writeData (old data : Bytes) (offset : Int64) (flags : WriteFlags) : Bytes :=
  if flags.containsAppend ∨ offset.toUInt64.toNat ≥ old.length then
    let stop := (max offset 0).toUInt64.toNat
    (if stop > old.length then resize old stop else old) ++ data
  else data

/-- Write to a file, or execute a request.  A trigger that belongs to no request does nothing. -/
def write (c : Crates) (checks : Bool) (fs : HttpFS) (path : PathBuf) (data : Bytes)
    (offset : Int64) (flags : WriteFlags) (now later : DateTime) (origin : Origin) :
    Outcome Reply × HttpFS :=
  let written := Reply.written data.length.toUInt64
  match fs.files.get? path with
  | none => (.err (.NotFound path), fs)
  | some e =>
    if e.metadata.isDirectory then (.err (.IsDirectory path), fs)
    else if path.fileName = some (ascii "trigger") ∧ trim (fromUtf8Lossy data) = ascii "send" then
      match parseRequestId path with
      | .ok id =>
        let r := fs.executeRequest c checks id now later origin
        (r.1.map fun _ => written, r.2)
      | _ => (.ok written, fs)
    else if path.startsWith ⟨ascii "/responses/"⟩ then (.err .ReadOnly, fs)
    else
      let new := writeData e.data data offset flags
      let metadata := { e.metadata with size := new.length.toUInt64, modified := some now }
      (.ok written, ⟨fs.files.modify path fun _ => ⟨new, metadata⟩⟩)

/-- Read a part of a file, by the arithmetic of the filesystem in memory. -/
def read (fs : HttpFS) (path : PathBuf) (offset size : Int64) : Outcome Reply :=
  (fs.readBytes path).bind fun data => (MemFs.MemFS.readData data offset size).map .data

/-- The metadata of a path. -/
def stat (fs : HttpFS) (path : PathBuf) : Outcome Reply :=
  (fs.getEntry path).map fun e => .metadata e.metadata

/-- Create a directory, below the root or one of its directories. -/
def mkdir (fs : HttpFS) (path : PathBuf) (now : DateTime) : Outcome Reply × HttpFS :=
  if path.parent.any fun parent => parent.toStringLossy ≠ ascii "/" ∧
      parent.toStringLossy ≠ ascii "/requests" ∧ parent.toStringLossy ≠ ascii "/responses" ∧
      parent.toStringLossy ≠ ascii "/cache" then
    (.err (.PermissionDenied path), fs)
  else if fs.files.contains path then (.err (.AlreadyExists path), fs)
  else (.ok .unit, fs.putDirectory path now)

/-- The first name of a path, as a string.  The root is left out. -/
def firstName (relative : PathBuf) : Option Bytes :=
  if relative.bytes = ascii "/" then none
  else (relative.components.find? Component.isNormal).map fun c => fromUtf8Lossy c.asOsStr

/-- The path that a listing shows for a name. -/
def childPath (pre name : Bytes) : PathBuf :=
  (PathBuf.mk (if pre = [] then ascii "/" else pre)).push ⟨name⟩

/-- List a directory.  The entries of the table come in the order in which it is iterated, and the
first one with a name stands for it. -/
def readDir (entries : List (PathBuf × FileEntry)) (path : PathBuf) : List FileMetadata :=
  let pathStr := path.toStringLossy
  let pre := if pathStr = ascii "/" then [] else pathStr
  let relative := fun p : PathBuf => if pre = [] then p else (p.stripPrefix ⟨pre⟩).getD p
  let found := entries.filter fun x => pre.isPrefixOf x.1.toStringLossy && x.1.toStringLossy != pre
  (unseen (fun x => firstName (relative x.1)) [] found).map fun x =>
    { x.1.2.metadata with path := childPath pre x.2 }

/-- Remove an entry.  A directory with entries below it is removed as well before the error. -/
def remove (fs : HttpFS) (path : PathBuf) : Outcome Reply × HttpFS :=
  match fs.files.get? path with
  | none => (.err (.NotFound path), fs)
  | some e =>
    let files := fs.files.erase path
    if e.metadata.isDirectory ∧ files.keys.any fun p => p != path && p.startsWith path then
      (.err .DirectoryNotEmpty, ⟨files⟩)
    else (.ok .unit, ⟨files⟩)

/-- Remove what is below a path; the path itself stays. -/
def removeAll (fs : HttpFS) (path : PathBuf) : Outcome Reply × HttpFS :=
  if fs.files.contains path then
    (.ok .unit, ⟨fs.files.retain fun p _ => !p.startsWith path || p == path⟩)
  else (.err (.NotFound path), fs)

/-- Rename an entry. -/
def rename (fs : HttpFS) (oldPath newPath : PathBuf) : Outcome Reply × HttpFS :=
  match fs.files.get? oldPath with
  | none => (.err (.NotFound oldPath), fs)
  | some e =>
    let files := fs.files.erase oldPath
    if files.contains newPath then
      (.err (.AlreadyExists newPath), ⟨files.insert oldPath e⟩)
    else
      (.ok .unit, ⟨files.insert newPath { e with metadata := { e.metadata with path := newPath } }⟩)

/-- Set the permission bits. -/
def chmod (fs : HttpFS) (path : PathBuf) (mode : UInt32) (now : DateTime) :
    Outcome Reply × HttpFS :=
  match fs.files.get? path with
  | none => (.err (.NotFound path), fs)
  | some _ =>
    (.ok .unit, ⟨fs.files.modify path fun e =>
      { e with metadata := { e.metadata.setPermissions mode with modified := some now } }⟩)

/-- Set the length of a file. -/
def truncate (fs : HttpFS) (path : PathBuf) (size : UInt64) (now : DateTime) :
    Outcome Reply × HttpFS :=
  match fs.files.get? path with
  | none => (.err (.NotFound path), fs)
  | some e =>
    if e.metadata.isDirectory then (.err (.IsDirectory path), fs)
    else
      let metadata := { e.metadata with size := size, modified := some now }
      (.ok .unit, ⟨fs.files.modify path fun _ => ⟨resize e.data size.toNat, metadata⟩⟩)

/-- Set the times of an entry. -/
def setTimes (fs : HttpFS) (path : PathBuf) (now : DateTime) : HttpFS :=
  ⟨fs.files.modify path fun e =>
    { e with metadata := { e.metadata with accessed := some now, modified := some now } }⟩

/-- Set the times of an entry, or create an empty file. -/
def touch (fs : HttpFS) (path : PathBuf) (now : DateTime) : Outcome Reply × HttpFS :=
  if fs.files.contains path then (.ok .unit, fs.setTimes path now)
  else
    match fs.create path now with
    | (.ok _, fs) => (.ok .unit, fs.setTimes path now)
    | r => r

end HttpFS

/-- An operation that may change the table. -/
inductive Op
  | create (path : PathBuf) (now : DateTime)
  | write (path : PathBuf) (data : Bytes) (offset : Int64) (flags : WriteFlags)
      (now later : DateTime) (origin : Origin)
  | mkdir (path : PathBuf) (now : DateTime)
  | remove (path : PathBuf)
  | removeAll (path : PathBuf)
  | rename (oldPath newPath : PathBuf)
  | chmod (path : PathBuf) (mode : UInt32) (now : DateTime)
  | truncate (path : PathBuf) (size : UInt64) (now : DateTime)
  | touch (path : PathBuf) (now : DateTime)

/-- One operation. -/
def HttpFS.exec (c : Crates) (checks : Bool) (fs : HttpFS) : Op → Outcome Reply × HttpFS
  | .create path now => fs.create path now
  | .write path data offset flags now later origin =>
    fs.write c checks path data offset flags now later origin
  | .mkdir path now => fs.mkdir path now
  | .remove path => fs.remove path
  | .removeAll path => fs.removeAll path
  | .rename oldPath newPath => fs.rename oldPath newPath
  | .chmod path mode now => fs.chmod path mode now
  | .truncate path size now => fs.truncate path size now
  | .touch path now => fs.touch path now

end Racfs.HttpFs
