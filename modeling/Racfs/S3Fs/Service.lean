/-
# The object service

What the client of `aws_sdk_s3` is asked for is answered by a service that is not ours.  So a
service is a parameter: it answers each call as it likes, and its answer may depend on all calls
before (`Service`).  A call is recorded together with its answer, and the list of these records is
all that there is of the state of the service.

What is documented of it is `Service.Lawful`: the objects change by a successful `put` and by the
successful completion of a multipart upload only, which puts the listed parts together, and what
is read is the object.  `Service.store` is such a service.
-/
import Mathlib.Logic.Function.Basic
import Racfs.Core

namespace Racfs.S3Fs

/-- An object of a bucket. -/
structure ObjectId where
  bucket : Bytes
  key : Bytes
deriving DecidableEq

/-- A range of bytes; without a last one it goes to the end. -/
structure Range where
  first : Int64
  last : Option Int64
deriving DecidableEq

/-- A part of an upload that is to be completed. -/
structure CompletedPart where
  partNumber : Int32
  eTag : Bytes
deriving DecidableEq

/-- Why an object is not read: there is none, or something else. -/
inductive GetError
  | noSuchKey (message : String)
  | other (message : String)

/-- The message of the error. -/
def GetError.message : GetError → String
  | noSuchKey m | other m => m

/-- A call, with its answer. -/
inductive Call
  | getObject (o : ObjectId) (range : Option Range) (answer : Except GetError Bytes)
  | putObject (o : ObjectId) (body : Bytes) (answer : Except String Unit)
  | createMultipartUpload (o : ObjectId) (answer : Except String (Option Bytes))
  | uploadPart (o : ObjectId) (uploadId : Bytes) (partNumber : Int32) (body : Bytes)
      (answer : Except String (Option Bytes))
  | completeMultipartUpload (o : ObjectId) (uploadId : Bytes) (parts : List CompletedPart)
      (answer : Except String Unit)
  | abortMultipartUpload (o : ObjectId) (uploadId : Bytes) (answer : Except String Unit)

/-- The call reads an object. -/
def Call.isRead : Call → Bool
  | .getObject .. => true
  | _ => false

/-- The calls so far, the first one first. -/
abbrev History := List Call

/-- What is answered after some calls.  An upload that is created should have an identifier, and a
part that is uploaded an `ETag`. -/
structure Service where
  /-- `send`, and `collect` of the body. -/
  getObject : History → ObjectId → Option Range → Except GetError Bytes
  putObject : History → ObjectId → Bytes → Except String Unit
  createMultipartUpload : History → ObjectId → Except String (Option Bytes)
  uploadPart : History → ObjectId → Bytes → Int32 → Bytes → Except String (Option Bytes)
  completeMultipartUpload : History → ObjectId → Bytes → List CompletedPart → Except String Unit
  abortMultipartUpload : History → ObjectId → Bytes → Except String Unit

/-- The part of an upload that a call has stored under a number, with its `ETag`. -/
def Call.part? (o : ObjectId) (uploadId : Bytes) (n : Int32) : Call → Option (Option Bytes × Bytes)
  | .uploadPart o' uploadId' n' body (.ok eTag) =>
    if o' = o ∧ uploadId' = uploadId ∧ n' = n then some (eTag, body) else none
  | _ => none

/-- The part of an upload that was stored last under a number. -/
def part? (h : History) (o : ObjectId) (uploadId : Bytes) (n : Int32) :
    Option (Option Bytes × Bytes) :=
  h.reverse.findSome? (Call.part? o uploadId n)

/-- The bodies are those of the parts that are listed. -/
def Lists (h : History) (o : ObjectId) (uploadId : Bytes) (parts : List CompletedPart)
    (bodies : List Bytes) : Prop :=
  List.Forall₂ (fun p body => part? h o uploadId p.partNumber = some (some p.eTag, body)) parts
    bodies

/-- What is documented: which calls change which objects, that a completion only succeeds if its
parts are listed in the order of their numbers and were all uploaded, and that what is read is the
object. -/
structure Service.Lawful (s : Service) (objects : History → ObjectId → Option Bytes) : Prop where
  getObject : ∀ h o range answer, objects (h ++ [.getObject o range answer]) = objects h
  putObject_ok : ∀ h o body, objects (h ++ [.putObject o body (.ok ())]) =
    Function.update (objects h) o (some body)
  putObject_error : ∀ h o body e, objects (h ++ [.putObject o body (.error e)]) = objects h
  createMultipartUpload : ∀ h o answer, objects (h ++ [.createMultipartUpload o answer]) = objects h
  uploadPart : ∀ h o uploadId n body answer,
    objects (h ++ [.uploadPart o uploadId n body answer]) = objects h
  completeMultipartUpload_ok : ∀ h o uploadId parts,
    s.completeMultipartUpload h o uploadId parts = .ok () →
    (parts.map CompletedPart.partNumber).Pairwise (· < ·) ∧
    ∃ bodies, Lists h o uploadId parts bodies ∧
      objects (h ++ [.completeMultipartUpload o uploadId parts (.ok ())]) =
        Function.update (objects h) o (some bodies.flatten)
  completeMultipartUpload_error : ∀ h o uploadId parts e,
    objects (h ++ [.completeMultipartUpload o uploadId parts (.error e)]) = objects h
  abortMultipartUpload : ∀ h o uploadId answer,
    objects (h ++ [.abortMultipartUpload o uploadId answer]) = objects h
  read_ok : ∀ h o body, s.getObject h o none = .ok body → objects h o = some body
  read_noSuchKey : ∀ h o m, s.getObject h o none = .error (.noSuchKey m) → objects h o = none

/-! ### A service that stores objects -/

/-- The parts that are listed, if they were all uploaded. -/
def listed? (h : History) (o : ObjectId) (uploadId : Bytes) (parts : List CompletedPart) :
    Option (List Bytes) :=
  parts.mapM fun p =>
    match part? h o uploadId p.partNumber with
    | some (some eTag, body) => if eTag = p.eTag then some body else none
    | _ => none

/-- The objects after the calls, the last of which comes first. -/
def storedAfter : List Call → ObjectId → Option Bytes
  | [] => fun _ => none
  | .putObject o body (.ok ()) :: calls => Function.update (storedAfter calls) o (some body)
  | .completeMultipartUpload o uploadId parts (.ok ()) :: calls =>
    match listed? calls.reverse o uploadId parts with
    | some bodies => Function.update (storedAfter calls) o (some bodies.flatten)
    | none => storedAfter calls
  | _ :: calls => storedAfter calls

/-- The objects after the calls. -/
def stored (h : History) : ObjectId → Option Bytes := storedAfter h.reverse

/-- A service that stores objects, and refuses nothing but what it has to. -/
def Service.store : Service where
  getObject h o _ :=
    match stored h o with
    | some body => .ok body
    | none => .error (.noSuchKey "NoSuchKey")
  putObject _ _ _ := .ok ()
  createMultipartUpload h _ := .ok (some (List.replicate h.length 48))
  uploadPart _ _ _ _ body := .ok (some body)
  completeMultipartUpload h o uploadId parts :=
    if (parts.map CompletedPart.partNumber).Pairwise (· < ·) ∧
        (listed? h o uploadId parts).isSome then
      .ok ()
    else .error "InvalidPart"
  abortMultipartUpload _ _ _ := .ok ()

lemma lists_of_listed? {h : History} {o : ObjectId} {uploadId : Bytes}
    {parts : List CompletedPart} {bodies : List Bytes}
    (hlisted : listed? h o uploadId parts = some bodies) : Lists h o uploadId parts bodies := by
  induction parts generalizing bodies with
  | nil =>
    cases hlisted
    exact .nil
  | cons p parts ih =>
    rw [listed?, List.mapM_cons] at hlisted
    simp only [Option.bind_eq_bind, Option.bind_eq_some_iff] at hlisted
    obtain ⟨body, hbody, rest, hrest, hbodies⟩ := hlisted
    cases hbodies
    refine .cons ?_ (ih hrest)
    cases hpart : part? h o uploadId p.partNumber with
    | none =>
      rw [hpart] at hbody
      cases hbody
    | some stored =>
      obtain ⟨eTag | eTag, body'⟩ := stored
      · rw [hpart] at hbody
        cases hbody
      · rw [hpart] at hbody
        dsimp only at hbody
        split_ifs at hbody with htag
        rw [htag, Option.some.inj hbody]

lemma listed?_of_lists {h : History} {o : ObjectId} {uploadId : Bytes}
    {parts : List CompletedPart} {bodies : List Bytes} (hlists : Lists h o uploadId parts bodies) :
    listed? h o uploadId parts = some bodies := by
  induction hlists with
  | nil => rfl
  | cons hpart _ ih =>
    rw [listed?] at ih
    rw [listed?, List.mapM_cons, ih, hpart]
    simp

lemma stored_concat (h : History) (call : Call) : stored (h ++ [call]) =
    storedAfter (call :: h.reverse) := by
  rw [stored, List.reverse_append, List.reverse_singleton, List.singleton_append]

lemma Service.lawful_store : Service.store.Lawful stored where
  getObject h o range answer := stored_concat h _
  putObject_ok h o body := stored_concat h _
  putObject_error h o body e := stored_concat h _
  createMultipartUpload h o answer := stored_concat h _
  uploadPart h o uploadId n body answer := stored_concat h _
  completeMultipartUpload_ok := by
    intro h o uploadId parts hok
    rw [store] at hok
    dsimp only at hok
    split_ifs at hok with hparts
    obtain ⟨bodies, hbodies⟩ := Option.isSome_iff_exists.1 hparts.2
    refine ⟨hparts.1, bodies, lists_of_listed? hbodies, ?_⟩
    rw [stored_concat, storedAfter, List.reverse_reverse, hbodies]
    rfl
  completeMultipartUpload_error h o uploadId parts e := stored_concat h _
  abortMultipartUpload h o uploadId answer := stored_concat h _
  read_ok := by
    intro h o body hok
    rw [store] at hok
    cases hstored : stored h o with
    | none => simp [hstored] at hok
    | some body' => simpa [hstored] using hok
  read_noSuchKey := by
    intro h o m herror
    rw [store] at herror
    cases hstored : stored h o with
    | none => rfl
    | some body' => simp [hstored] at herror

/-- The service refuses nothing but a completion that it has to. -/
structure Service.Accepts (s : Service) : Prop where
  putObject : ∀ h o body, s.putObject h o body = .ok ()
  createMultipartUpload : ∀ h o, ∃ uploadId, s.createMultipartUpload h o = .ok (some uploadId)
  uploadPart : ∀ h o uploadId n body, ∃ eTag, s.uploadPart h o uploadId n body = .ok (some eTag)
  completeMultipartUpload : ∀ h o uploadId parts,
    (parts.map CompletedPart.partNumber).Pairwise (· < ·) → ∀ bodies,
    Lists h o uploadId parts bodies → s.completeMultipartUpload h o uploadId parts = .ok ()

lemma Service.accepts_store : Service.store.Accepts where
  putObject _ _ _ := rfl
  createMultipartUpload _ _ := ⟨_, rfl⟩
  uploadPart _ _ _ _ _ := ⟨_, rfl⟩
  completeMultipartUpload h o uploadId parts hsorted bodies hlists := by
    rw [store]
    dsimp only
    rw [listed?_of_lists hlists, if_pos ⟨hsorted, rfl⟩]

end Racfs.S3Fs
