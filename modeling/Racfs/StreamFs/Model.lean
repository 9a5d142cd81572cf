/-
# Streams of messages

`StreamFS` (`racfs-plugin-streamfs`) has a directory for every stream, in which the messages are
files under their numbers.  `tail` is the next number to write and `head` the next one to read.
A write to the file `tail` adds a message, and the oldest messages go while there are more than
the buffer has room for.  Messages can be kept compressed.

The additions of machine words panic when they overflow if the program is built with overflow
checks, and wrap around otherwise: `checks` says which build it is.  A call can panic halfway, so
that the state after it is part of the result also then.  Every call holds the lock of the state
to its end.
-/
import Racfs.Lib.Decimal
import Racfs.Lib.TreeMap
import Racfs.Core

namespace Racfs.StreamFs

/-! ### Vectors and machine words -/

/-- The largest `isize`. -/
def isizeMax : ℕ := 2 ^ 63 - 1

/-- A vector or a slice of bytes: no allocation is larger than an `isize`. -/
structure Vec where
  bytes : Bytes
  length_le : bytes.length ≤ isizeMax
deriving DecidableEq

-- Two messages that several runs send.
lemma length_abc_le : (ascii "abc").length ≤ isizeMax := by decide

lemma length_xyz_le : (ascii "xyz").length ≤ isizeMax := by decide

/-- Why a call ends without a value. -/
inductive Failure
  | err (e : FSError)
  /-- An addition overflows, and the build has checks for that. -/
  | overflow
  /-- A vector cannot be that long. -/
  | capacity
  /-- A slice is out of range. -/
  | slice
  /-- A loop does not come to its end. -/
  | hang
deriving Repr

/-- The result of a call. -/
abbrev Result := Except Failure

/-- `a + b` for words. -/
def add (checks : Bool) (a b : UInt64) : Result UInt64 :=
  if checks ∧ 2 ^ 64 ≤ a.toNat + b.toNat then .error .overflow else .ok (a + b)

namespace Vec

/-- An empty vector. -/
def new : Vec := ⟨[], Nat.zero_le _⟩

/-- The length of the vector. -/
def len (v : Vec) : UInt64 := v.bytes.length.toUInt64

lemma length_resize_le (v : Vec) {n : ℕ} (h : n ≤ isizeMax) :
    (Racfs.resize v.bytes n).length ≤ isizeMax := by
  rw [Racfs.length_resize]
  exact h

/-- `Vec::resize` with zeros. -/
def resize (v : Vec) (n : UInt64) : Result Vec :=
  if h : n.toNat ≤ isizeMax then .ok ⟨Racfs.resize v.bytes n.toNat, v.length_resize_le h⟩
  else .error .capacity

/-- Make a vector longer if it is shorter than `n`. -/
def grow (v : Vec) (n : UInt64) : Result Vec :=
  if n.toNat > v.bytes.length then v.resize n else .ok v

/-- `v[start..stop].copy_from_slice(src)`. -/
def copyFromSlice (v : Vec) (start stop : UInt64) (src : Vec) : Result Vec :=
  if h : start.toNat ≤ stop.toNat ∧ stop.toNat ≤ v.bytes.length ∧
      stop.toNat - start.toNat = src.bytes.length then
    .ok ⟨Racfs.copyFromSlice v.bytes start.toNat src.bytes, by
      rw [length_copyFromSlice (by omega)]
      exact v.length_le⟩
  else .error .slice

/-- `v[start..stop].to_vec()`. -/
def slice (v : Vec) (start stop : UInt64) : Result Bytes :=
  if start.toNat ≤ stop.toNat ∧ stop.toNat ≤ v.bytes.length then
    .ok ((v.bytes.take stop.toNat).drop start.toNat)
  else .error .slice

end Vec

/-! ### The order of paths -/

/-- The kinds of components in their order. -/
def componentKind : Component → ℕ
  | .rootDir => 0
  | .curDir => 1
  | .parentDir => 2
  | .normal _ => 3

/-- The order of components: names are compared as texts. -/
def componentCmp (c d : Component) : Ordering :=
  (compare (componentKind c) (componentKind d)).then (compare c.asOsStr d.asOsStr)

/-- `Path::cmp`: the order of the components. -/
def pathCmp (p q : PathBuf) : Ordering := List.compareLex componentCmp p.components q.components

/-- `entries.sort_by(|a, b| a.path.cmp(&b.path))`, which keeps the order of equal paths. -/
def sortByPath (entries : List FileMetadata) : List FileMetadata :=
  entries.insertionSort fun a b => (pathCmp a.path b.path).isLE

/-! ### The data -/

/-- A stored message. -/
inductive MessageStorage
  | raw (data : Vec)
  | compressed (decompressedLen : UInt32) (data : Vec)
deriving DecidableEq

/-- The length of the message. -/
def MessageStorage.len : MessageStorage → UInt64
  | raw d => d.len
  | compressed decompressedLen _ => decompressedLen.toUInt64

/-- A compressor. -/
structure Compression where
  compress : Vec → Except FSError Vec
  decompress : Vec → Except FSError Vec

/-- The configuration. -/
structure StreamConfig where
  /-- The largest number of messages of a stream. -/
  bufferSize : ℕ
  maxStreams : ℕ
  compression : Option Compression

/-- The default configuration. -/
def StreamConfig.default : StreamConfig := ⟨1000, 100, none⟩

/-- A stream. -/
structure Stream where
  name : Bytes
  messages : Std.TreeMap UInt64 MessageStorage
  /-- The next message to read. -/
  head : UInt64
  /-- The next message to write. -/
  tail : UInt64

/-- A new stream. -/
def Stream.new (name : Bytes) : Stream := ⟨name, ∅, 1, 1⟩

/-- The filesystem. -/
structure StreamFS where
  config : StreamConfig
  streams : Std.TreeMap Bytes Stream

/-- An empty filesystem. -/
def StreamFS.new (config : StreamConfig) : StreamFS := ⟨config, ∅⟩

/-! ### Paths -/

/-- What a path stands for. -/
inductive PathComponent
  | Root
  | StreamsDir
  | StreamDir (name : Bytes)
  | DataDir (name : Bytes)
  | Message (name : Bytes) (id : UInt64)
  | Head (name : Bytes)
  | Tail (name : Bytes)
  | Config (name : Bytes)
deriving DecidableEq, Repr

/-- The path with a separator in front. -/
def normalizePath (path : PathBuf) : PathBuf :=
  if path.toStringLossy.head? = some slash then path else (PathBuf.mk [slash]).push path

/-- `str::trim_end_matches`: take the text off the end as often as it is there. -/
def trimEndMatches (suffix s : Bytes) : Bytes :=
  (dropPieces [suffix.reverse] s.length s.reverse).reverse

/-- What the parts of a path stand for. -/
def parseParts : List Bytes → Option PathComponent
  | [] => some .Root
  | [first] => if first = ascii "streams" then some .StreamsDir else none
  | [first, name] => if first = ascii "streams" then some (.StreamDir name) else none
  | [first, name, part] =>
    if first ≠ ascii "streams" then none
    else if part = ascii "data" then some (.DataDir name)
    else if part = ascii "head" then some (.Head name)
    else if part = ascii "tail" then some (.Tail name)
    else if part = ascii "config" then some (.Config name)
    else none
  | [first, name, part, filename] =>
    if first = ascii "streams" ∧ part = ascii "data" ∧ ascii ".msg" <:+ filename then
      (parseU64 (trimEndMatches (ascii ".msg") filename)).map (.Message name)
    else none
  | _ => none

/-- What a path stands for, if anything. -/
def parsePath (path : PathBuf) : Option PathComponent :=
  if isUtf8 path.bytes then
    parseParts (((path.bytes.dropWhile (· == slash)).splitOn slash).filter (· ≠ []))
  else none

/-- The path of a stream. -/
def streamPath (name : Bytes) : PathBuf := ⟨ascii "/streams/" ++ name⟩

/-- The path of a file or directory of a stream. -/
def partPath (name part : Bytes) : PathBuf := ⟨ascii "/streams/" ++ name ++ slash :: part⟩

/-- The name of the file of a message. -/
def messageName (id : UInt64) : Bytes := zeroPadded 6 id.toNat ++ ascii ".msg"

/-- The path of a message. -/
def messagePath (name : Bytes) (id : UInt64) : PathBuf :=
  ⟨ascii "/streams/" ++ name ++ ascii "/data/" ++ messageName id⟩

/-! ### Messages -/

/-- The bytes of a stored message, decompressed if need be. -/
def messageStorageToBytes (config : StreamConfig) : MessageStorage → Result Vec
  | .raw d => .ok d
  | .compressed _ data =>
    match config.compression with
    | some c => (c.decompress data).mapError .err
    | none => .error (.err (.InvalidInput "compression not configured"))

/-- Store bytes as a message, compressed if that is configured. -/
def bytesToMessageStorage (config : StreamConfig) (data : Vec) : Result MessageStorage :=
  match config.compression with
  | some c => do
    let compressed ← (c.compress data).mapError .err
    if data.bytes.length < 2 ^ 32 then
      .ok (.compressed data.bytes.length.toUInt32 compressed)
    else .error (.err (.InvalidInput "message too large for compression format"))
  | none => .ok (.raw data)

/-- The content of a message after a write at an offset, which is used as an unsigned number. -/
def writeAt (checks : Bool) (msg : Vec) (data : Vec) (offset : Int64) : Result Vec := do
  let start := offset.toUInt64
  let msg ← msg.grow start
  let stop ← add checks start data.len
  let msg ← msg.grow stop
  msg.copyFromSlice start stop data

/-- The end of a read. -/
def readEnd (checks : Bool) (data : Vec) (offset size : Int64) : Result UInt64 :=
  if size < 0 then .ok data.len
  else (add checks offset.toUInt64 size.toUInt64).map fun stop => min stop data.len

/-- The part of a message that a read returns. -/
def readAt (checks : Bool) (data : Vec) (offset size : Int64) : Result Bytes := do
  let start := if offset < 0 then 0 else offset.toUInt64
  let stop ← readEnd checks data offset size
  if start.toNat ≥ data.bytes.length then .ok [] else data.slice start stop

/-- Go on after a call that has left a state, if it has not failed. -/
def andThen {S A B : Type*} (x : Result A × S) (f : A → S → Result B × S) : Result B × S :=
  match x with
  | (.ok a, s) => f a s
  | (.error e, s) => (.error e, s)

namespace Stream

/-- Put a message at its place. -/
def insert (s : Stream) (id : UInt64) (stored : MessageStorage) : Stream :=
  { s with messages := s.messages.insert id stored }

/-- Set the tail behind a message. -/
def setTail (checks : Bool) (s : Stream) (id : UInt64) : Result Unit × Stream :=
  match add checks id 1 with
  | .ok tail => (.ok (), { s with tail })
  | .error e => (.error e, s)

/-- Set the tail behind a message that is not before it. -/
def advanceTail (checks : Bool) (s : Stream) (id : UInt64) : Result Unit × Stream :=
  if id ≥ s.tail then s.setTail checks id else (.ok (), s)

/-- Remove the first message and set the head behind it. -/
def evictFirst (checks : Bool) (s : Stream) : Result Unit × Stream :=
  match s.messages.toList.head? with
  | some (first, _) =>
    let s := { s with messages := s.messages.erase first }
    match add checks first 1 with
    | .ok head => (.ok (), { s with head })
    | .error e => (.error e, s)
  | none => (.ok (), s)

/-- The loop that removes the first message while there are too many, if it comes to its end in
fewer than `fuel` rounds. -/
def evictLoop (checks : Bool) (bufferSize : ℕ) : ℕ → Stream → Option (Result Unit × Stream)
  | 0, _ => none
  | fuel + 1, s =>
    if s.messages.size > bufferSize then
      match s.evictFirst checks with
      | (.ok _, s) => evictLoop checks bufferSize fuel s
      | (.error e, s) => some (.error e, s)
    else some (.ok (), s)

/-- Remove the first messages.  Every round takes one away. -/
def evict (checks : Bool) (bufferSize : ℕ) (s : Stream) : Result Unit × Stream :=
  (evictLoop checks bufferSize (s.messages.size + 1) s).getD (.error .hang, s)

/-- Create an empty message. -/
def createMessage (checks : Bool) (s : Stream) (id : UInt64) : Result Unit × Stream :=
  (s.insert id (.raw .new)).advanceTail checks id

/-- The bytes of the message of a number; none if there is no message. -/
def existing (config : StreamConfig) (s : Stream) (id : UInt64) : Result Vec :=
  match s.messages[id]? with
  | some stored => messageStorageToBytes config stored
  | none => .ok .new

/-- The message that a write to a message file stores. -/
def newMessage (checks : Bool) (config : StreamConfig) (s : Stream) (id : UInt64) (data : Vec)
    (offset : Int64) : Result MessageStorage := do
  let msg ← s.existing config id
  let msg ← writeAt checks msg data offset
  bytesToMessageStorage config msg

/-- Write to a message file. -/
def writeMessage (checks : Bool) (config : StreamConfig) (s : Stream) (id : UInt64) (data : Vec)
    (offset : Int64) : Result UInt64 × Stream :=
  match s.newMessage checks config id data offset with
  | .error e => (.error e, s)
  | .ok stored =>
    andThen ((s.insert id stored).advanceTail checks id) fun _ s =>
      andThen (s.evict checks config.bufferSize) fun _ s => (.ok data.len, s)

/-- Write to the tail: add a message. -/
def writeTail (checks : Bool) (config : StreamConfig) (s : Stream) (data : Vec) :
    Result UInt64 × Stream :=
  match bytesToMessageStorage config data with
  | .error e => (.error e, s)
  | .ok stored =>
    andThen ((s.insert s.tail stored).setTail checks s.tail) fun _ s =>
      andThen (s.evict checks config.bufferSize) fun _ s => (.ok data.len, s)

/-- Write to the head: set it if the text is a number. -/
def writeHead (s : Stream) (data : Vec) : Result UInt64 × Stream :=
  match parseU64 (trim (fromUtf8Lossy data.bytes)) with
  | some head => (.ok data.len, { s with head })
  | none => (.ok data.len, s)

/-- The content of the file `config`. -/
def configText (config : StreamConfig) (s : Stream) : Bytes :=
  ascii "name=" ++ s.name ++ ascii "\nbuffer_size=" ++ decimal config.bufferSize ++
    ascii "\nhead=" ++ decimal s.head.toNat ++ ascii "\ntail=" ++ decimal s.tail.toNat ++
    ascii "\n"

/-- The entries of the directory with the messages, in the order of the numbers. -/
def messageEntries (s : Stream) (name : Bytes) (now : DateTime) : List FileMetadata :=
  s.messages.toList.map fun e => .file (messagePath name e.1) e.2.len now

end Stream

/-! ### The operations -/

namespace StreamFS

/-- Change the stream of a name. -/
def updateStream {A : Type*} (fs : StreamFS) (path : PathBuf) (name : Bytes)
    (f : Stream → Result A × Stream) : Result A × StreamFS :=
  match fs.streams[name]? with
  | some s => ((f s).1, { fs with streams := fs.streams.insert name (f s).2 })
  | none => (.error (.err (.NotFound path)), fs)

/-- Look at the stream of a name. -/
def onStream {A : Type*} (fs : StreamFS) (path : PathBuf) (name : Bytes)
    (f : Stream → Result A) : Result A :=
  match fs.streams[name]? with
  | some s => f s
  | none => .error (.err (.NotFound path))

/-- Look at the message of a number. -/
def onMessage {A : Type*} (fs : StreamFS) (path : PathBuf) (name : Bytes) (id : UInt64)
    (f : MessageStorage → Result A) : Result A :=
  fs.onStream path name fun s =>
    match s.messages[id]? with
    | some stored => f stored
    | none => .error (.err (.NotFound path))

/-- Create a stream. -/
def createStream (fs : StreamFS) (name : Bytes) : Result Unit × StreamFS :=
  if fs.streams.size ≥ fs.config.maxStreams then (.error (.err .StorageFull), fs)
  else if fs.streams.contains name then (.error (.err (.AlreadyExists (streamPath name))), fs)
  else (.ok (), { fs with streams := fs.streams.insert name (.new name) })

/-- Create an empty message, or set the head back. -/
def create (checks : Bool) (fs : StreamFS) (path : PathBuf) : Result Unit × StreamFS :=
  let normalized := normalizePath path
  match parsePath normalized with
  | some (.Message name id) =>
    fs.updateStream normalized name fun s => s.createMessage checks id
  | some (.Head name) =>
    fs.updateStream normalized name fun s => (.ok (), { s with head := 1 })
  | _ => (.error (.err (.PermissionDenied normalized)), fs)

/-- Write to a message, the tail or the head; the flags are not used. -/
def write (checks : Bool) (fs : StreamFS) (path : PathBuf) (data : Vec) (offset : Int64)
    (_flags : WriteFlags) : Result UInt64 × StreamFS :=
  let normalized := normalizePath path
  match parsePath normalized with
  | some (.Message name id) =>
    fs.updateStream normalized name fun s => s.writeMessage checks fs.config id data offset
  | some (.Tail name) =>
    fs.updateStream normalized name fun s => s.writeTail checks fs.config data
  | some (.Head name) => fs.updateStream normalized name fun s => s.writeHead data
  | _ => (.error (.err (.PermissionDenied normalized)), fs)

/-- Create a stream; the directories are always there. -/
def mkdir (fs : StreamFS) (path : PathBuf) (_perm : UInt32) : Result Unit × StreamFS :=
  let normalized := normalizePath path
  match parsePath normalized with
  | some .StreamsDir => (.ok (), fs)
  | some (.StreamDir name) => fs.createStream name
  | some (.DataDir name) =>
    (if fs.streams.contains name then .ok () else .error (.err (.NotFound normalized)), fs)
  | _ => (.error (.err (.PermissionDenied normalized)), fs)

/-- Remove a message or a stream. -/
def remove (fs : StreamFS) (path : PathBuf) : Result Unit × StreamFS :=
  let normalized := normalizePath path
  match parsePath normalized with
  | some (.Message name id) =>
    fs.updateStream normalized name fun s =>
      (if s.messages.contains id then .ok () else .error (.err (.NotFound normalized)),
        { s with messages := s.messages.erase id })
  | some (.StreamDir name) =>
    (if fs.streams.contains name then .ok () else .error (.err (.NotFound normalized)),
      { fs with streams := fs.streams.erase name })
  | _ => (.error (.err (.PermissionDenied normalized)), fs)

/-- The same as `remove`. -/
def removeAll (fs : StreamFS) (path : PathBuf) : Result Unit × StreamFS := fs.remove path

/-- Nothing can be renamed. -/
def rename (_fs : StreamFS) (_oldPath _newPath : PathBuf) : Result Unit :=
  .error (.err (.PermissionDenied ⟨[slash]⟩))

/-- Nothing can be cut off. -/
def truncate (_fs : StreamFS) (path : PathBuf) (_size : UInt64) : Result Unit :=
  .error (.err (.PermissionDenied (normalizePath path)))

/-- No mode can be set. -/
def chmod (_fs : StreamFS) (path : PathBuf) (_mode : UInt32) : Result Unit :=
  .error (.err (.PermissionDenied (normalizePath path)))

/-- Read from a file. -/
def read (checks : Bool) (fs : StreamFS) (path : PathBuf) (offset size : Int64) : Result Bytes :=
  let normalized := normalizePath path
  match parsePath normalized with
  | some (.Message name id) =>
    fs.onMessage normalized name id fun stored => do
      let data ← messageStorageToBytes fs.config stored
      readAt checks data offset size
  | some (.Head name) => fs.onStream normalized name fun s => .ok (zeroPadded 6 s.head.toNat)
  | some (.Tail name) => fs.onStream normalized name fun s => .ok (zeroPadded 6 s.tail.toNat)
  | some (.Config name) => fs.onStream normalized name fun s => .ok (s.configText fs.config)
  | _ => .error (.err (.NotFound normalized))

/-- The metadata of a path. -/
def stat (fs : StreamFS) (path : PathBuf) (now : DateTime) : Result FileMetadata :=
  let normalized := normalizePath path
  match parsePath normalized with
  | some .Root => .ok (.directory ⟨[slash]⟩ now)
  | some .StreamsDir => .ok (.directory ⟨ascii "/streams"⟩ now)
  | some (.StreamDir name) =>
    fs.onStream normalized name fun _ => .ok (.directory (streamPath name) now)
  | some (.DataDir name) =>
    fs.onStream normalized name fun _ => .ok (.directory (partPath name (ascii "data")) now)
  | some (.Message name id) =>
    fs.onMessage normalized name id fun stored => .ok (.file (messagePath name id) stored.len now)
  | some (.Head name) =>
    fs.onStream normalized name fun _ => .ok (.file (partPath name (ascii "head")) 6 now)
  | some (.Tail name) =>
    fs.onStream normalized name fun _ => .ok (.file (partPath name (ascii "tail")) 6 now)
  | some (.Config name) =>
    fs.onStream normalized name fun _ => .ok (.file (partPath name (ascii "config")) 0 now)
  | none => .error (.err (.NotFound normalized))

/-- Touch a file: it has to be there. -/
def touch (fs : StreamFS) (path : PathBuf) (now : DateTime) : Result Unit :=
  (fs.stat (normalizePath path) now).map fun _ => ()

/-- List a directory. -/
def readDir (fs : StreamFS) (path : PathBuf) (now : DateTime) : Result (List FileMetadata) :=
  let normalized := normalizePath path
  match parsePath normalized with
  | some .Root => .ok [.directory ⟨ascii "/streams"⟩ now]
  | some .StreamsDir =>
    .ok (sortByPath (fs.streams.keys.map fun name => .directory (streamPath name) now))
  | some (.StreamDir name) =>
    fs.onStream normalized name fun _ =>
      .ok [.directory (partPath name (ascii "data")) now,
        .file (partPath name (ascii "head")) 6 now, .file (partPath name (ascii "tail")) 6 now,
        .file (partPath name (ascii "config")) 0 now]
  | some (.DataDir name) =>
    fs.onStream normalized name fun s => .ok (sortByPath (s.messageEntries name now))
  | _ => .error (.err (.NotADirectory normalized))

end StreamFS

/-! ### Calls -/

/-- A call of an operation. -/
inductive StreamOp
  | create (path : PathBuf)
  | write (path : PathBuf) (data : Vec) (offset : Int64) (flags : WriteFlags)
  | mkdir (path : PathBuf) (perm : UInt32)
  | remove (path : PathBuf)
  | removeAll (path : PathBuf)
  | rename (oldPath newPath : PathBuf)
  | truncate (path : PathBuf) (size : UInt64)
  | touch (path : PathBuf)
  | chmod (path : PathBuf) (mode : UInt32)
  | read (path : PathBuf) (offset size : Int64)
  | stat (path : PathBuf)
  | readDir (path : PathBuf)

/-- The result of a call, and the filesystem after it. -/
def StreamFS.exec (checks : Bool) (fs : StreamFS) (now : DateTime) :
    StreamOp → Result Reply × StreamFS
  | .create path => (fs.create checks path).map (·.map fun _ => .unit) id
  | .write path data offset flags =>
    (fs.write checks path data offset flags).map (·.map .written) id
  | .mkdir path perm => (fs.mkdir path perm).map (·.map fun _ => .unit) id
  | .remove path => (fs.remove path).map (·.map fun _ => .unit) id
  | .removeAll path => (fs.removeAll path).map (·.map fun _ => .unit) id
  | .rename oldPath newPath => ((fs.rename oldPath newPath).map fun _ => .unit, fs)
  | .truncate path size => ((fs.truncate path size).map fun _ => .unit, fs)
  | .touch path => ((fs.touch path now).map fun _ => .unit, fs)
  | .chmod path mode => ((fs.chmod path mode).map fun _ => .unit, fs)
  | .read path offset size => ((fs.read checks path offset size).map .data, fs)
  | .stat path => ((fs.stat path now).map .metadata, fs)
  | .readDir path => ((fs.readDir path now).map .entries, fs)

end Racfs.StreamFs
