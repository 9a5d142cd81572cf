/-
# The keys of a bucket

The calls of the client of `aws_sdk_s3` that look at more than one object or remove objects:
`list_objects_v2`, `head_object`, `copy_object`, `delete_object` and `delete_objects`.  As for
the others, the service is not ours.  It is a parameter: functions on its states, each of which
may fail (`BucketService`).

What is documented of it is `BucketService.Lawful`.  A listing is for the keys with a prefix.  The
keys in which a delimiter follows are rolled up into what they have in common up to there, a
common prefix.  It comes in pieces, in the order of the bytes, and a piece that is not the last one
has a token from which the next one goes on.  The deletion of several objects may succeed and
refuse some of them.  A call that fails may have had its effect.
-/
import Racfs.Core
import Racfs.Lib.Pages
import Racfs.S3Fs.Service
import Mathlib.Data.List.Lex

namespace Racfs.S3Fs

/-- A point of time of the service. -/
structure Timestamp where
  secs : Int64
  subsecNanos : Fin 1000000000
deriving DecidableEq

/-- The first second of 1970. -/
def epoch : Timestamp := ⟨0, 0⟩

/-- `chrono::DateTime::from_timestamp`: the years of a date are limited. -/
def fromTimestamp (t : Timestamp) : Option DateTime :=
  if -8334601228800 ≤ t.secs.toInt ∧ t.secs.toInt ≤ 8210266876799 then
    some (t.secs.toInt * 1000000000 + t.subsecNanos)
  else none

/-! ### The calls -/

/-- What a listing is asked for. -/
structure ListRequest where
  bucket : Bytes
  keyPrefix : Bytes
  delimiter : Option Bytes
  maxKeys : ℕ
  continuationToken : Option Bytes

/-- An object in a listing. -/
structure ListedObject where
  key : Option Bytes
  size : Option Int64
  lastModified : Option Timestamp

/-- The answer to a listing. -/
structure ListResponse where
  contents : List ListedObject
  commonPrefixes : List (Option Bytes)
  isTruncated : Option Bool
  nextContinuationToken : Option Bytes
  keyCount : Option Int32

/-- Why there is no head of an object. -/
inductive HeadError
  | notFound (message : String)
  | other (message : String)

/-- The head of an object. -/
structure HeadResponse where
  contentLength : Option Int64
  lastModified : Option Timestamp

/-- A call: its answer, and what it makes of the service. -/
abbrev BucketCall (σ E A : Type*) := σ → Except E A × σ

/-- The calls, on a service with states `σ`. -/
structure BucketService (σ : Type*) where
  listObjectsV2 : (req : ListRequest) → BucketCall σ String ListResponse
  headObject : (o : ObjectId) → BucketCall σ HeadError HeadResponse
  putObject : (o : ObjectId) → (body : Bytes) → BucketCall σ String Unit
  /-- The source is a text, `bucket/key`. -/
  copyObject : (o : ObjectId) → (copySource : Bytes) → BucketCall σ String Unit
  deleteObject : (o : ObjectId) → BucketCall σ String Unit
  /-- The keys that were not deleted are in the answer. -/
  deleteObjects : (bucket : Bytes) → (keys : List Bytes) → BucketCall σ String (List Bytes)

/-! ### What is documented -/

/-- An object of the service. -/
structure Object where
  body : Bytes
  lastModified : Timestamp
deriving DecidableEq

/-- What a listing has: a key, or a common prefix. -/
inductive Item
  | key (key : Bytes)
  | commonPrefix (text : Bytes)
deriving DecidableEq

/-- The text of an item. -/
def Item.text : Item → Bytes
  | key t | commonPrefix t => t

/-- The order of the bytes. -/
def order (t : Bytes) : List ℕ := t.map UInt8.toNat

/-- The position of an item in a listing. -/
def Item.position (i : Item) : List ℕ := order i.text

/-- A text up to the end of the first occurrence of another one. -/
def upTo (t : Bytes) : Bytes → Option Bytes
  | [] => if t = [] then some [] else none
  | b :: bs => if t.isPrefixOf (b :: bs) then some t else (upTo t bs).map (b :: ·)

/-- What a key counts as. -/
def ListRequest.itemOf (req : ListRequest) (key : Bytes) : Item :=
  match req.delimiter.bind fun d => upTo d (key.drop req.keyPrefix.length) with
  | some common => .commonPrefix (req.keyPrefix ++ common)
  | none => .key key

/-- The objects of the service, by their names. -/
abbrev Objects := ObjectId → Option Object

/-- What a listing is to have: the items of the keys with the prefix. -/
def ListRequest.items (req : ListRequest) (objects : Objects) : Set Item :=
  {i | ∃ key, req.keyPrefix <+: key ∧ (objects ⟨req.bucket, key⟩).isSome ∧ i = req.itemOf key}

/-- The items of an answer. -/
def ListResponse.items (resp : ListResponse) : List Item :=
  resp.contents.filterMap (fun o => o.key.map Item.key) ++
    resp.commonPrefixes.filterMap fun p => p.map Item.commonPrefix

/-- The entry tells of the object. -/
def ListedObject.Describes (o : ListedObject) (bucket : Bytes) (objects : Objects) : Prop :=
  ∃ key obj, o.key = some key ∧ objects ⟨bucket, key⟩ = some obj ∧
    o.size = some (Int64.ofNat obj.body.length) ∧ o.lastModified = some obj.lastModified

/-- The answer is a piece of the listing.  `marker` is the position that a token stands for. -/
structure ListResponse.Answers (resp : ListResponse) (req : ListRequest) (objects : Objects)
    (marker : Bytes → List ℕ) : Prop where
  describes : ∀ o ∈ resp.contents, o.Describes req.bucket objects
  commonPrefixes : ∀ p ∈ resp.commonPrefixes, p ≠ none
  piece : Pages.Piece Item.position (req.items objects) (req.continuationToken.map marker)
    resp.items (resp.nextContinuationToken.map marker)
  isTruncated : resp.isTruncated = some resp.nextContinuationToken.isSome
  /-- A piece that is not the last one has an element. -/
  ne_nil : resp.nextContinuationToken.isSome → resp.items ≠ []
  length_le : resp.items.length ≤ req.maxKeys
  keyCount : resp.keyCount = some (Int32.ofNat resp.items.length)

/-- What is documented.  `source` is how the service reads the source of a copy. -/
structure BucketService.Lawful {σ : Type*} (svc : BucketService σ) (objects : σ → Objects)
    (marker : Bytes → List ℕ) (source : Bytes → ObjectId) : Prop where
  listObjectsV2 : ∀ req s, objects (svc.listObjectsV2 req s).2 = objects s
  answers : ∀ req s resp, 0 < req.maxKeys → (svc.listObjectsV2 req s).1 = .ok resp →
    resp.Answers req (objects s) marker
  headObject : ∀ o s, objects (svc.headObject o s).2 = objects s
  head_ok : ∀ o s head, (svc.headObject o s).1 = .ok head → ∃ obj, objects s o = some obj ∧
    head.contentLength = some (Int64.ofNat obj.body.length) ∧
    head.lastModified = some obj.lastModified
  head_notFound : ∀ o s m, (svc.headObject o s).1 = .error (.notFound m) → objects s o = none
  putObject_ok : ∀ o body s, (svc.putObject o body s).1 = .ok () →
    ∃ t, objects (svc.putObject o body s).2 = Function.update (objects s) o (some ⟨body, t⟩)
  putObject_error : ∀ o body s e, (svc.putObject o body s).1 = .error e →
    objects (svc.putObject o body s).2 = objects s ∨
    ∃ t, objects (svc.putObject o body s).2 = Function.update (objects s) o (some ⟨body, t⟩)
  copyObject_ok : ∀ o text s, (svc.copyObject o text s).1 = .ok () →
    ∃ obj t, objects s (source text) = some obj ∧
      objects (svc.copyObject o text s).2 = Function.update (objects s) o (some ⟨obj.body, t⟩)
  copyObject_error : ∀ o text s e, (svc.copyObject o text s).1 = .error e →
    objects (svc.copyObject o text s).2 = objects s ∨
    ∃ obj t, objects s (source text) = some obj ∧
      objects (svc.copyObject o text s).2 = Function.update (objects s) o (some ⟨obj.body, t⟩)
  deleteObject_ok : ∀ o s, (svc.deleteObject o s).1 = .ok () →
    objects (svc.deleteObject o s).2 = Function.update (objects s) o none
  deleteObject_error : ∀ o s e, (svc.deleteObject o s).1 = .error e →
    objects (svc.deleteObject o s).2 = objects s ∨
    objects (svc.deleteObject o s).2 = Function.update (objects s) o none
  deleteObjects_ok : ∀ bucket keys s refused, (svc.deleteObjects bucket keys s).1 = .ok refused →
    ∀ o, objects (svc.deleteObjects bucket keys s).2 o =
      if o.bucket = bucket ∧ o.key ∈ keys ∧ o.key ∉ refused then none else objects s o
  deleteObjects_error : ∀ bucket keys s e, (svc.deleteObjects bucket keys s).1 = .error e →
    ∀ o, objects (svc.deleteObjects bucket keys s).2 o = objects s o ∨
      o.bucket = bucket ∧ o.key ∈ keys ∧ objects (svc.deleteObjects bucket keys s).2 o = none

end Racfs.S3Fs
