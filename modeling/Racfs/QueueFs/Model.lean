/-
# The message queue filesystem

`QueueFS` (`racfs-plugin-queuefs`) shows message queues as directories.  A directory below the
root is a queue.  A write to its file `tail` appends a message, `head` names the next message,
`messages/<id>` are the messages, and writing `done` to `.ack/<id>` acknowledges one.  The
messages of a queue are in a table that is ordered by the texts of their identifiers; an
acknowledged message stays in the table, with a mark.

Creating, renaming, truncating, touching and changing the mode are not supported at all and are
left out.
-/
import Racfs.Lib.Decimal
import Racfs.MemFs.Model

namespace Racfs.QueueFs

/-- A message of a queue. -/
structure Message where
  id : Bytes
  data : Bytes
  acknowledged : Bool

/-- A message queue. -/
structure Queue where
  nextId : UInt64
  headId : UInt64
  /-- The messages, in the order of their identifiers as strings. -/
  messages : Std.TreeMap Bytes Message

/-- The text of a message number: at least six digits. -/
def formatMessageId (id : UInt64) : Bytes := zeroPadded 6 id.toNat

namespace Queue

/-- A queue without messages. -/
def new : Queue := ⟨1, 1, ∅⟩

/-- The identifier for the next message; the counter wraps around. -/
def nextMessageId (q : Queue) : Bytes × Queue :=
  (formatMessageId q.nextId, { q with nextId := q.nextId + 1 })

/-- Add a message and return its identifier. -/
def enqueue (q : Queue) (data : Bytes) : Bytes × Queue :=
  let (id, q) := q.nextMessageId
  (id, { q with messages := q.messages.insert id ⟨id, data, false⟩ })

/-- Mark a message as acknowledged. -/
def dequeue (q : Queue) (id : Bytes) : Outcome Queue :=
  match q.messages[id]? with
  | none => .err (.NotFound ⟨id⟩)
  | some _ =>
    .ok { q with messages := q.messages.modify id fun m => { m with acknowledged := true } }

/-- The message with an identifier, unless it is acknowledged. -/
def getMessage (q : Queue) (id : Bytes) : Outcome Message :=
  match q.messages[id]?.filter fun m => !m.acknowledged with
  | none => .err (.NotFound ⟨id⟩)
  | some m => .ok m

/-- The first identifier of a message that is not acknowledged. -/
def getNextUnacknowledged (q : Queue) : Option Bytes :=
  (q.messages.toList.find? fun e => !e.2.acknowledged).map Prod.fst

/-- The messages that are not acknowledged, in the order of the table. -/
def unacknowledged (q : Queue) : List Message :=
  (q.messages.toList.map Prod.snd).filter fun m => !m.acknowledged

/-- The number of messages that are not acknowledged. -/
def getCount (q : Queue) : UInt64 := q.unacknowledged.length.toUInt64

/-- The number of the next message. -/
def getNextId (q : Queue) : UInt64 := q.nextId

end Queue

/-- All queues, by their names. -/
structure QueueFS where
  queues : AssocMap Bytes Queue

namespace QueueFS

/-- A filesystem without queues. -/
def new : QueueFS := ⟨∅⟩

/-- The name of the queue and what follows it in a path; components that are not texts are
skipped. -/
def parseQueuePath (path : PathBuf) : Bytes × List Bytes :=
  let components := (path.components.map Component.asOsStr).filter isUtf8
  let start := if components.head?.any fun c => c = [slash] ∨ c = [] then 1 else 0
  match components.drop start with
  | [] => ([], [])
  | queueName :: rest => (queueName, rest)

/-- The path of a queue. -/
def queuePath (name : Bytes) : PathBuf := ⟨slash :: name⟩

/-- The path of a file in a queue's directory. -/
def filePath (name : Bytes) (file : String) : PathBuf := ⟨slash :: name ++ slash :: ascii file⟩

/-- The path of a message. -/
def messagePath (name id : Bytes) : PathBuf :=
  ⟨slash :: name ++ ascii "/messages/" ++ id⟩

/-- The queue with a name. -/
def getQueue (fs : QueueFS) (name : Bytes) : Outcome Queue :=
  match fs.queues.get? name with
  | none => .err (.NotFound (queuePath name))
  | some q => .ok q

/-- The check that there is a queue with a name. -/
def ensureQueueExists (fs : QueueFS) (name : Bytes) : Outcome Unit :=
  if fs.queues.contains name then .ok () else .err (.NotFound (queuePath name))

/-- The part of a content that a read returns; the arithmetic is that of the in-memory
filesystem. -/
def readSlice (data : Bytes) (offset size : Int64) : Outcome Bytes :=
  MemFs.MemFS.readData data offset size

/-- The configuration of a queue, as JSON. -/
def config (name : Bytes) (q : Queue) : Bytes :=
  ascii "\x7b\"name\":\"" ++ name ++ ascii "\",\"next_id\":" ++ decimal q.getNextId.toNat ++
    ascii ",\"head_id\":" ++ decimal q.headId.toNat ++ ascii "\x7d"

/-! ### Files -/

/-- The content of a file of a queue. -/
def content (path : PathBuf) (name : Bytes) (q : Queue) : List Bytes → Outcome Bytes
  | [f] =>
    if f = ascii "head" then .ok (q.getNextUnacknowledged.getD (ascii "empty"))
    else if f = ascii "tail" then .ok (formatMessageId q.getNextId)
    else .err (.NotFound path)
  | [d, f] =>
    if d = ascii "messages" then (q.getMessage f).map Message.data
    else if d = ascii "metadata" ∧ f = ascii "count" then .ok (decimal q.getCount.toNat)
    else if d = ascii "metadata" ∧ f = ascii "config" then .ok (config name q)
    else .err (.NotFound path)
  | _ => .err (.NotFound path)

/-- Read from a file. -/
def read (fs : QueueFS) (path : PathBuf) (offset size : Int64) : Outcome Bytes :=
  let (name, rest) := parseQueuePath path
  if rest = [] then .err (.IsDirectory path)
  else
    (fs.ensureQueueExists name).bind fun _ =>
      (fs.getQueue name).bind fun q =>
        (content path name q rest).bind fun data => readSlice data offset size

/-- The metadata of a path. -/
def stat (fs : QueueFS) (path : PathBuf) (now : DateTime) : Outcome FileMetadata :=
  let (name, rest) := parseQueuePath path
  if rest = [] then (fs.ensureQueueExists name).map fun _ => FileMetadata.directory path now
  else
    (fs.ensureQueueExists name).bind fun _ =>
      (fs.getQueue name).bind fun q =>
        -- the size of `head` and `tail` is given as zero
        if rest = [ascii "head"] ∨ rest = [ascii "tail"] then .ok (FileMetadata.file path 0 now)
        else
          (content path name q rest).map fun data =>
            FileMetadata.file path data.length.toUInt64 now

/-- Change the queue with a name; a change that fails leaves it as it is. -/
def onQueue (fs : QueueFS) (name : Bytes) (f : Queue → Outcome (UInt64 × Queue)) :
    Outcome UInt64 × QueueFS :=
  match fs.queues.get? name with
  | none => (.err (.NotFound (queuePath name)), fs)
  | some q =>
    match f q with
    | .ok (n, q') => (.ok n, ⟨fs.queues.modify name fun _ => q'⟩)
    | .err e => (.err e, fs)
    | .panic => (.panic, fs)

/-- Write to a file: append a message, or acknowledge one. -/
def write (fs : QueueFS) (path : PathBuf) (data : Bytes) (offset : Int64) (flags : WriteFlags) :
    Outcome UInt64 × QueueFS :=
  let (name, rest) := parseQueuePath path
  if rest = [] then (.err (.IsDirectory path), fs)
  else if !fs.queues.contains name then (.err (.NotFound (queuePath name)), fs)
  else
    match rest with
    | [f] =>
      if f = ascii "tail" then
        fs.onQueue name fun q => .ok ((q.enqueue data).1.length.toUInt64, (q.enqueue data).2)
      else (.err (.NotSupported "write only supported on tail and .ack paths"), fs)
    | [d, id] =>
      if d = ascii ".ack" then
        if offset ≠ 0 ∨ !flags.isEmpty then
          (.err (.InvalidInput "offset and flags not supported for ack"), fs)
        else
          match utf8Error data with
          | some e => (.err (.InvalidUtf8 e.toString), fs)
          | none =>
            if trim data ≠ ascii "done" then
              (.err (.InvalidInput "must write 'done' to acknowledge"), fs)
            else
              fs.onQueue name fun q => (q.dequeue id).map fun q' => (data.length.toUInt64, q')
      else (.err (.NotSupported "write only supported on tail and .ack paths"), fs)
    | _ => (.err (.NotSupported "write only supported on tail and .ack paths"), fs)

/-! ### Directories -/

/-- Create a queue. -/
def mkdir (fs : QueueFS) (path : PathBuf) (_perm : UInt32) : Outcome Unit × QueueFS :=
  let (name, rest) := parseQueuePath path
  if name = [] then (.err (.InvalidInput "invalid queue name"), fs)
  else if rest ≠ [] then (.err (.NotSupported "nested directories not supported"), fs)
  else if fs.queues.contains name then (.err (.AlreadyExists path), fs)
  else (.ok (), ⟨fs.queues.insert name Queue.new⟩)

/-- List a directory. -/
def readDir (fs : QueueFS) (path : PathBuf) (now : DateTime) : Outcome (List FileMetadata) :=
  let (name, rest) := parseQueuePath path
  if rest = [] ∧ name = [] then
    .ok (fs.queues.entries.map fun e => FileMetadata.directory (queuePath e.1) now)
  else
    (fs.ensureQueueExists name).bind fun _ =>
      if rest = [] then
        .ok [FileMetadata.file (filePath name "head") 0 now,
          FileMetadata.file (filePath name "tail") 0 now,
          FileMetadata.directory (filePath name "messages") now,
          FileMetadata.directory (filePath name "metadata") now,
          FileMetadata.directory (filePath name ".ack") now]
      else if rest = [ascii "messages"] then
        (fs.getQueue name).map fun q =>
          q.unacknowledged.map fun m =>
            FileMetadata.file (messagePath name m.id) m.data.length.toUInt64 now
      else if rest = [ascii "metadata"] then
        (fs.getQueue name).map fun q =>
          [FileMetadata.file (filePath name "metadata/count")
              (decimal q.getCount.toNat).length.toUInt64 now,
            FileMetadata.file (filePath name "metadata/config")
              (config name q).length.toUInt64 now]
      else if rest = [ascii ".ack"] then .ok []
      else .err (.NotFound path)

/-- Remove a queue. -/
def remove (fs : QueueFS) (path : PathBuf) : Outcome Unit × QueueFS :=
  let (name, rest) := parseQueuePath path
  if rest = [] then
    if fs.queues.contains name then (.ok (), ⟨fs.queues.erase name⟩)
    else (.err (.NotFound path), fs)
  else (.err (.NotSupported "cannot remove queue components"), fs)

/-- Remove a queue; the same as `remove`. -/
def removeAll (fs : QueueFS) (path : PathBuf) : Outcome Unit × QueueFS := fs.remove path

end QueueFS

end Racfs.QueueFs
