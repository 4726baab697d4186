import RunnerFleet.Actions.Client
import RunnerFleet.Config.Basic

/-!
# The choice of the Actions service

A configuration without an Actions service removes registrations without asking anyone. With one, a
client shows the token that a variable of the environment holds.

Main results:

- `ofToken_eq_error_iff`: only a variable that is not set keeps a service from being chosen.
-/

namespace RunnerFleet
namespace Actions

/-- Who is asked to remove registrations. -/
inductive Endpoint where
  /-- Nobody: there are no registrations to remove. -/
  | unregistered
  | http (client : Client)
deriving DecidableEq, Repr

/-- A variable of the environment is not set. -/
structure MissingVariable where
  name : String
deriving DecidableEq, Repr

namespace MissingVariable

/-- What is wrong. -/
def message (v : MissingVariable) : String :=
  "environment variable " ++ v.name ++ " is not set"

/-- Why it is wrong. -/
def cause : String := "environment variable not found"

end MissingVariable

namespace Endpoint

/-- The endpoint for a configured service, given the value of its variable. -/
def ofToken (s : Config.Service) : Option String → Except MissingVariable Endpoint
  | some token => .ok (http ⟨s.baseUrl, token⟩)
  | none => .error ⟨s.tokenVariable⟩

/-- The endpoint that a configuration asks for; `lookUp` looks into the environment. -/
def ofConfig {m : Type → Type} [Monad m] (lookUp : String → m (Option String)) (c : Config) :
    m (Except MissingVariable Endpoint) :=
  match c.service with
  | none => pure (.ok unregistered)
  | some s => return ofToken s (← lookUp s.tokenVariable)

/-- The service behind an endpoint; `send` says how requests are answered. -/
def service (send : Request → Option Response) : Endpoint → Service
  | unregistered, _ => .ok ()
  | http client, id => client.remove send id

/-- An endpoint is refused only for want of its token, and the error names the variable to set. -/
theorem ofToken_eq_error_iff {s : Config.Service} {token : Option String} {e : MissingVariable} :
    ofToken s token = .error e ↔ token = none ∧ e = ⟨s.tokenVariable⟩ := by
  cases token <;> simp [ofToken, eq_comm]

end Endpoint
end Actions
end RunnerFleet
