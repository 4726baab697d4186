import RunnerFleet.Http.MediaType
import RunnerFleet.Http.Method
import RunnerFleet.Json.Tree
import RunnerFleet.Json.Value
import RunnerFleet.Store.Error

/-!
# Requests and responses

A request with a body says that it is JSON. A response carries data, or says in one line what is
wrong; a request that is refused before it is looked at gets a line of text.

The body of a request is taken to be a text; bodies whose bytes are no text in UTF-8 are not modelled.

Main results:

- `Request.read_eq_ok_iff`: the body of a request is taken exactly if it is called JSON, is small
  enough, and is what is to be read.
- `Response.isError_ofStoreError`: an error of the store is answered by an error.
-/

namespace RunnerFleet
namespace Api

/-! ## Requests -/

/-- A request to the interface. -/
structure Request where
  method : Http.Method
  /-- The path and the query as they were sent. -/
  target : String
  contentType : Option String
  body : String

/-- Why a request is refused before it is looked at. -/
inductive Rejection where
  /-- A name in the path is no text. -/
  | badPath
  /-- The body is not called JSON. -/
  | notJson
  /-- The body is too large. -/
  | tooLarge
  /-- The body is not well formed. -/
  | malformed
  /-- The body is JSON, but not of what is to be read. -/
  | mismatched
deriving DecidableEq, Repr

namespace Rejection

/-- The status of the response. -/
def status : Rejection → Nat
  | badPath => 400
  | notJson => 415
  | tooLarge => 413
  | malformed => 400
  | mismatched => 422

/-- The line of text in the response. -/
def message : Rejection → String
  | badPath => "Invalid URL"
  | notJson => "Expected request with `Content-Type: application/json`"
  | tooLarge => "Failed to buffer the request body: length limit exceeded"
  | malformed => "Failed to parse the request body as JSON"
  | mismatched => "Failed to deserialize the JSON body into the target type"

end Rejection

namespace Request

/-- The largest number of bytes in a body. -/
def sizeLimit : Nat := 2 * 1024 * 1024

/-- Whether the request calls its body JSON. -/
def isJson (r : Request) : Bool :=
  match r.contentType with
  | some text => Http.MediaType.isJson text
  | none => false

/-- Read the body of a request. -/
def read {α : Type} (r : Request) (reader : Document.Reader α) : Except Rejection α :=
  if !r.isJson then .error .notJson
  else if sizeLimit < r.body.utf8ByteSize then .error .tooLarge
  else
    match Json.decode reader r.body with
    | .ok a => .ok a
    | .error .malformed => .error .malformed
    | .error .mismatched => .error .mismatched

/-- A body is read exactly when it is declared as JSON, fits the limit and decodes. -/
theorem read_eq_ok_iff {α : Type} {r : Request} {reader : Document.Reader α} {a : α} :
    r.read reader = .ok a ↔
      r.isJson = true ∧ r.body.utf8ByteSize ≤ sizeLimit ∧ Json.decode reader r.body = .ok a := by
  unfold read
  cases h : r.isJson with
  | false => simp
  | true =>
      by_cases hs : sizeLimit < r.body.utf8ByteSize
      · simp [hs, Nat.not_le.2 hs]
      · simp only [Bool.not_true, Bool.false_eq_true, if_false, hs, true_and]
        split <;> rename_i hd <;> simp [hd, Nat.not_lt.1 hs]

end Request

/-! ## Responses -/

/-- The body of a response. -/
inductive Body where
  | empty
  | text (line : String)
  | json (value : Json)

/-- A response. -/
structure Response where
  status : Nat
  body : Body := .empty

namespace Response

/-- Whether the response says that the request failed. -/
def isError (r : Response) : Bool :=
  400 ≤ r.status

/-- A response that carries data. -/
def data (status : Nat) (value : Json) : Response where
  status := status
  body := .json (.object [("success", .bool true), ("data", value)])

/-- A response that says what is wrong. -/
def error (status : Nat) (message : String) : Response where
  status := status
  body := .json (.object [("success", .bool false), ("error", .string message)])

/-- The response to a request that is refused. -/
def rejected (r : Rejection) : Response where
  status := r.status
  body := .text r.message

/-- The status for an error of the store. -/
def storeErrorStatus : Store.ErrorKind → Nat
  | .notFound => 404
  | .alreadyExists => 409
  | .invalid => 400
  | _ => 500

/-- The response to a request that the store refuses. -/
def ofStoreError (e : Store.Error) : Response :=
  error (storeErrorStatus e.kind) e.message

/-- The response without its body. -/
def headOnly (r : Response) : Response :=
  { r with body := .empty }

/-- Every failure of the store is answered with an error status. -/
theorem isError_ofStoreError (e : Store.Error) : (ofStoreError e).isError = true := by
  obtain ⟨kind, detail⟩ := e
  cases kind <;> rfl

end Response
end Api
end RunnerFleet
