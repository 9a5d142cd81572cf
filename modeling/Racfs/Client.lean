/-
# The file calls of the client

`Client` (`racfs-client/src/client.rs`) sends requests to the server and turns the responses
into results.  Requests and JSON bodies arrive as they were sent.  What matters is what the
client makes of a body: most responses are parsed as JSON, but `read_file` takes the body as
plain text, and the server sends the content of a file as a JSON string.

The JSON form of a string is a parameter, with the two facts about it that are used: it is
framed by quotation marks, and no character takes less room in it.
-/
import Racfs.Server.Files

namespace Racfs.Client

open Server

/-- The quotation mark. -/
def quote : UInt8 := 34

/-- The backslash. -/
def backslash : UInt8 := 92

/-- The JSON form of a string, as the server serializes it. -/
structure JsonString where
  toVec : Bytes → Bytes
  framed : ∀ s, ∃ body, toVec s = quote :: body ++ [quote] ∧ s.length ≤ body.length

/-- The errors of the client: an error response, no response, or no request because too many
have failed. -/
inductive Error
  | Api (code : ErrorCode) (message : Bytes) (detail : Option Bytes)
  | Http
  | CircuitOpen
deriving DecidableEq

/-- Whether the server was not reached. -/
def Error.isUnreachable : Error → Bool
  | .Api _ _ _ => false
  | .Http => true
  | .CircuitOpen => true

/-- The result for a response whose body is parsed as JSON. -/
def handleResponse {A : Type*} : Response A → Except Error A
  | .ok body => .ok body
  | .error e => .error (.Api e.code e.message e.detail)
  | .panic => .error .Http

lemma handleResponse_eq_ok {A : Type*} {r : Response A} {a : A} (h : handleResponse r = .ok a) :
    r = .ok a := by
  cases r with
  | ok body =>
    cases h
    rfl
  | error e => cases h
  | panic => cases h

/-- The result for a response whose body, a JSON string, is taken as plain text. -/
def handleTextResponse (json : JsonString) : Response Bytes → Except Error Bytes
  | .ok content => .ok (fromUtf8Lossy (json.toVec content))
  | .error e => .error (.Api e.code e.message e.detail)
  | .panic => .error .Http

variable {ι : Type*} [DecidableEq ι]

/-- Read a file. -/
def readFile (json : JsonString) (server : AppState ι) (path : Bytes) : Except Error Bytes :=
  handleTextResponse json (Server.readFile server path)

/-- Write to a file. -/
def writeFile (server : AppState ι) (path data : Bytes) (offset : Option Int64) (now : DateTime) :
    Except Error Bytes × AppState ι :=
  let r := Server.writeFile server ⟨path, data, offset⟩ now
  (handleResponse r.1, r.2)

/-- Create a file. -/
def createFile (server : AppState ι) (path : Bytes) (now : DateTime) :
    Except Error Bytes × AppState ι :=
  let r := Server.createFile server path now
  (handleResponse r.1, r.2)

/-! ### JSON strings -/

/-- The JSON form of one byte: quotation marks, backslashes and control characters are escaped,
the others stand for themselves. -/
def escapeByte (b : UInt8) : Bytes :=
  if b = quote then [backslash, quote]
  else if b = backslash then [backslash, backslash]
  else if b = 8 then ascii "\\b"
  else if b = 9 then ascii "\\t"
  else if b = 10 then ascii "\\n"
  else if b = 12 then ascii "\\f"
  else if b = 13 then ascii "\\r"
  else if b < 32 then ascii "\\u" ++ (hexDigits b.toNat 4).map fun c => c.toNat.toUInt8
  else [b]

lemma escapeByte_ne_nil (b : UInt8) : escapeByte b ≠ [] := by
  rw [escapeByte]
  split_ifs <;> simp [ascii]

/-- The usual JSON form of a string. -/
def escaped : JsonString where
  toVec s := quote :: s.flatMap escapeByte ++ [quote]
  framed s := by
    refine ⟨s.flatMap escapeByte, rfl, ?_⟩
    induction s with
    | nil => simp
    | cons b s ih =>
      have hpos := List.length_pos_iff.2 (escapeByte_ne_nil b)
      rw [List.flatMap_cons, List.length_append, List.length_cons]
      omega

end Racfs.Client
