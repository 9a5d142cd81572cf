/-
# The S3 filesystem

`S3FS` (`racfs-plugin-s3fs/src`) keeps nothing itself: every operation is some calls of the
client, and the state that is passed along is the list of the calls made so far.

A write sends the whole new content of the object.  If it is long enough, it is sent in parts: an
upload is created, the parts are uploaded in a loop that counts them in an `i32`, and the upload is
completed with a list of the parts that is numbered anew; when a part or the completion fails, the
upload is aborted.
-/
import Racfs.S3Fs.Service
import Mathlib.Algebra.Group.Int.Defs

namespace Racfs.S3Fs

/-- What the configuration says of the objects. -/
structure S3Config where
  bucket : Bytes
  region : Bytes
  accessKey : Bytes
  secretKey : Bytes
  multipartThreshold : UInt64
  multipartPartSize : UInt64

/-- The filesystem. -/
structure S3FS where
  config : S3Config

/-- The value of a call of the client. -/
def sdkError {A : Type} : Except String A → Except FSError A
  | .ok a => .ok a
  | .error e => .error (.Io e)

/-- The range of a read; a last byte past the range of `i64` panics in a build with checks. -/
def rangeFor (checks : Bool) (offset size : Int64) : Outcome (Option Range) :=
  if offset > 0 ∨ size > 0 then
    if size > 0 then
      if checks ∧ 2 ^ 63 ≤ offset.toInt + size.toInt then .panic
      else .ok (some ⟨offset, some (offset + size - 1)⟩)
    else .ok (some ⟨offset, none⟩)
  else .ok none

/-- `unwrap_or_default`. -/
def unwrapOrDefault : Outcome Bytes → Outcome Bytes
  | .err _ => .ok []
  | r => r

/-- What a write sends, if the object has the content `existing`; the latter is only looked at if
the offset is positive or the write appends. -/
def finalData (existing data : Bytes) (offset : Int64) (flags : WriteFlags) : Bytes :=
  if offset > 0 ∧ flags.containsAppend then existing ++ data
  else if offset > 0 then
    (if offset.toUInt64.toNat < existing.length then existing.take offset.toUInt64.toNat
      else existing) ++ data
  else data

/-- The number of a part, by its position. -/
def partNumber (i : ℕ) : Int32 := Int32.ofNat (i + 1)

/-- The parts of an upload, as they are listed for its completion. -/
def completedParts (eTags : List Bytes) : List CompletedPart :=
  eTags.zipIdx.map fun (eTag, i) => ⟨partNumber i, eTag⟩

namespace S3FS

/-- The check of the configuration. -/
def validateConfig (fs : S3FS) : Except FSError Unit :=
  if fs.config.bucket = [] then .error (.InvalidInput "S3 bucket name cannot be empty")
  else if fs.config.region = [] then .error (.InvalidInput "S3 region cannot be empty")
  else if fs.config.accessKey = [] then .error (.InvalidInput "S3 access key cannot be empty")
  else if fs.config.secretKey = [] then .error (.InvalidInput "S3 secret key cannot be empty")
  else .ok ()

/-- The key of a path; the root has none. -/
def pathToKey (path : PathBuf) : Bytes :=
  let text := path.toStringLossy
  if text = ascii "/" then []
  else if text.head? = some slash then text.tail
  else text

/-- The object of a path. -/
def object (fs : S3FS) (path : PathBuf) : ObjectId := ⟨fs.config.bucket, pathToKey path⟩

/-- Read an object, or a range of it. -/
def read (s : Service) (checks : Bool) (fs : S3FS) (h : History) (path : PathBuf)
    (offset size : Int64) : Outcome Bytes × History :=
  match fs.validateConfig with
  | .error e => (.err e, h)
  | .ok () =>
    if pathToKey path = [] then (.err (.IsDirectory path), h)
    else
      match rangeFor checks offset size with
      | .err e => (.err e, h)
      | .panic => (.panic, h)
      | .ok range =>
        let answer := s.getObject h (fs.object path) range
        let h := h ++ [.getObject (fs.object path) range answer]
        match answer with
        | .ok body => (.ok body, h)
        | .error e => (.err (.Io e.message), h)

/-- Create an empty object. -/
def create (s : Service) (fs : S3FS) (h : History) (path : PathBuf) :
    Except FSError Unit × History :=
  match fs.validateConfig with
  | .error e => (.error e, h)
  | .ok () =>
    if pathToKey path = [] then (.ok (), h)
    else
      let answer := s.putObject h (fs.object path) []
      (sdkError answer, h ++ [.putObject (fs.object path) [] answer])

/-! ### Uploads in parts -/

/-- Create an upload. -/
def createMultipartUpload (s : Service) (h : History) (o : ObjectId) :
    Except FSError Bytes × History :=
  let answer := s.createMultipartUpload h o
  let h := h ++ [.createMultipartUpload o answer]
  match answer with
  | .ok (some uploadId) => (.ok uploadId, h)
  | .ok none => (.error (.Io "CreateMultipartUpload: missing UploadId"), h)
  | .error e => (.error (.Io e), h)

/-- Upload a part. -/
def uploadPart (s : Service) (h : History) (o : ObjectId) (uploadId : Bytes) (n : Int32)
    (body : Bytes) : Except FSError Bytes × History :=
  let answer := s.uploadPart h o uploadId n body
  let h := h ++ [.uploadPart o uploadId n body answer]
  match answer with
  | .ok (some eTag) => (.ok eTag, h)
  | .ok none => (.error (.Io "UploadPart: missing ETag"), h)
  | .error e => (.error (.Io e), h)

/-- Complete an upload. -/
def completeMultipartUpload (s : Service) (h : History) (o : ObjectId) (uploadId : Bytes)
    (eTags : List Bytes) : Except FSError Unit × History :=
  let parts := completedParts eTags
  let answer := s.completeMultipartUpload h o uploadId parts
  (sdkError answer, h ++ [.completeMultipartUpload o uploadId parts answer])

/-- Abort an upload; an error is dropped. -/
def abortMultipartUpload (s : Service) (h : History) (o : ObjectId) (uploadId : Bytes) : History :=
  h ++ [.abortMultipartUpload o uploadId (s.abortMultipartUpload h o uploadId)]

/-- The loop over the parts.  The positions are at most the length of a vector, so they do not
overflow. -/
def uploadParts (s : Service) (checks : Bool) (o : ObjectId) (uploadId data : Bytes)
    {partSize : ℕ} (hpos : 0 < partSize) (h : History) (eTags : List Bytes) (n : Int32)
    (offsetPos : ℕ) : Outcome (List Bytes) × History :=
  if offsetPos < data.length then
    let stop := min (offsetPos + partSize) data.length
    let partData := (data.take stop).drop offsetPos
    match uploadPart s h o uploadId n partData with
    | (.ok eTag, h) =>
      -- the counter goes on after every part, the last one included
      if checks ∧ n = Int32.maxValue then (.panic, h)
      else uploadParts s checks o uploadId data hpos h (eTags ++ [eTag]) (n + 1) stop
    | (.error e, h) => (.err e, abortMultipartUpload s h o uploadId)
  else (.ok eTags, h)
termination_by data.length - offsetPos

/-- Send a content in parts. -/
def uploadMultipart (s : Service) (checks : Bool) (h : History) (o : ObjectId) (data : Bytes)
    {partSize : ℕ} (hpos : 0 < partSize) : Outcome Unit × History :=
  match createMultipartUpload s h o with
  | (.error e, h) => (.err e, h)
  | (.ok uploadId, h) =>
    match uploadParts s checks o uploadId data hpos h [] 1 0 with
    | (.err e, h) => (.err e, h)
    | (.panic, h) => (.panic, h)
    | (.ok eTags, h) =>
      match completeMultipartUpload s h o uploadId eTags with
      | (.error e, h) => (.err e, abortMultipartUpload s h o uploadId)
      | (.ok (), h) => (.ok (), h)

/-- Send a content. -/
def upload (s : Service) (checks : Bool) (fs : S3FS) (h : History) (o : ObjectId)
    (data : Bytes) : Outcome Unit × History :=
  if hparts : data.length ≥ fs.config.multipartThreshold.toNat ∧
      fs.config.multipartPartSize.toNat > 0 then
    uploadMultipart s checks h o data hparts.2
  else
    let answer := s.putObject h o data
    let h := h ++ [.putObject o data answer]
    match answer with
    | .ok () => (.ok (), h)
    | .error e => (.err (.Io e), h)

/-- The content that the object has, for a write that looks at it. -/
def existingData (s : Service) (checks : Bool) (fs : S3FS) (h : History) (path : PathBuf)
    (offset : Int64) (flags : WriteFlags) : Outcome Bytes × History :=
  if offset > 0 ∨ flags.containsAppend then
    let r := fs.read s checks h path 0 (-1)
    (unwrapOrDefault r.1, r.2)
  else (.ok [], h)

/-- Write to an object. -/
def write (s : Service) (checks : Bool) (fs : S3FS) (h : History) (path : PathBuf) (data : Bytes)
    (offset : Int64) (flags : WriteFlags) : Outcome UInt64 × History :=
  match fs.validateConfig with
  | .error e => (.err e, h)
  | .ok () =>
    if pathToKey path = [] then (.err (.IsDirectory path), h)
    else
      match fs.existingData s checks h path offset flags with
      | (.err e, h) => (.err e, h)
      | (.panic, h) => (.panic, h)
      | (.ok existing, h) =>
        let r := fs.upload s checks h (fs.object path) (finalData existing data offset flags)
        (r.1.map fun _ => data.length.toUInt64, r.2)

end S3FS

end Racfs.S3Fs
