import RunnerFleet.Actions.Error
import RunnerFleet.Http.Method
import RunnerFleet.Http.Target

/-!
# The client of the Actions service

The client removes the registration of a runner by a request to the URL of the service followed by
`/runners/` and the number of the registration. It shows a token. An answer with a status from 200
to 299 means that the registration is gone; any other one, or none, is an error.

Main results:

- `remove_eq_ok_iff`: a registration is removed exactly if a request can be made and is answered
  with success.
-/

namespace RunnerFleet
namespace Actions

/-- A client: where the service is, and the token it asks for. -/
structure Client where
  baseUrl : String
  token : String
deriving DecidableEq, Repr

/-- A request to the service. -/
structure Request where
  method : Http.Method
  target : Http.Target
  authorization : String
deriving DecidableEq, Repr

/-- An answer of the service. -/
structure Response where
  status : Nat
  body : String
deriving DecidableEq, Repr

namespace Response

/-- Whether the service did what it was asked to do. -/
def isSuccess (r : Response) : Bool :=
  200 ≤ r.status && r.status < 300

/-- Whether the status is one that ends a request. -/
def isFinal (r : Response) : Bool :=
  r.status == 101 || (200 ≤ r.status && r.status < 1000)

/-- Whether an answer with this status has no body, whatever was sent behind it. -/
def isBodyless (r : Response) : Bool :=
  r.status < 200 || r.status == 204 || r.status == 304

/-- The body as it is read. -/
def content (r : Response) : String :=
  if r.isBodyless then "" else r.body

end Response

namespace Client

/-- Whether a character may stand in the value of a header field. -/
def isHeaderChar (c : Char) : Bool :=
  (0x20 ≤ c.toNat && c.toNat != 0x7F) || c == '\t'

/-- The URL of a registration. -/
def url (client : Client) (id : Int) : String :=
  let base := (client.baseUrl.toList.reverse.dropWhile (· == '/')).reverse
  String.ofList base ++ "/runners/" ++ toString id

/--
The request that removes a registration. There is none if the URL names no target, or if the token
cannot be shown. Blanks around the shown value do not count.
-/
def request? (client : Client) (id : Int) : Option Request :=
  match Http.Target.ofUrl? (client.url id) with
  | some target =>
      if client.token.toList.all isHeaderChar then
        some ⟨.delete, target, Text.trim ("Bearer " ++ client.token)⟩
      else none
  | none => none

/-- Why there is no answer. -/
def noAnswer : Error := .transport "no answer"

/-- What an answer to the request means. -/
def outcome : Option Response → Except Error Unit
  | none => .error noAnswer
  | some r =>
      if !r.isFinal then .error noAnswer
      else if r.isSuccess then .ok ()
      else .error (Error.ofResponse r.status r.content)

/-- Remove a registration; `send` says how requests are answered. -/
def remove (client : Client) (send : Request → Option Response) (id : Int) : Except Error Unit :=
  match client.request? id with
  | some request => outcome (send request)
  | none => .error noAnswer

/-- A call succeeds exactly when an answer arrives and its status says success. -/
theorem outcome_eq_ok_iff {answer : Option Response} :
    outcome answer = .ok () ↔ ∃ r, answer = some r ∧ r.isSuccess = true := by
  cases answer with
  | none => simp [outcome]
  | some r =>
      have final : r.isSuccess = true → r.isFinal = true := by
        simp only [Response.isSuccess, Response.isFinal, Bool.and_eq_true, Bool.or_eq_true,
          decide_eq_true_eq]
        omega
      unfold outcome
      cases hs : r.isSuccess with
      | true => simp [final hs, hs]
      | false => cases hf : r.isFinal <;> simp [hs, hf]

/-- A removal succeeds exactly when its request can be formed, is answered, and is answered with
success. -/
theorem remove_eq_ok_iff {client : Client} {send : Request → Option Response} {id : Int} :
    client.remove send id = .ok () ↔
      ∃ request r, client.request? id = some request ∧ send request = some r ∧
        r.isSuccess = true := by
  unfold remove
  cases h : client.request? id with
  | none => simp
  | some request => simp [outcome_eq_ok_iff]

end Client
end Actions
end RunnerFleet
