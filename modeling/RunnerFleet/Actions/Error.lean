import RunnerFleet.Document.Fields
import RunnerFleet.Json.Tree
import RunnerFleet.Text.Blank

/-!
# Errors of the Actions service

The Actions service assigns jobs to runners that are registered with it. It answers a request with
an error status, or the request does not reach it. A body in the service's own form names the
exception; any other body is the message itself.

Main results:

- `isJobStillRunning_iff`: when a refusal means that the runner works on a job.
-/

namespace RunnerFleet
namespace Actions

open Document

/-- The exception by which the service refuses to remove a runner that works on a job. -/
def jobStillRunning : String := "JobStillRunningException"

/-- An error of the Actions service. -/
inductive Error where
  /-- The service answered with an error status. -/
  | api (status : Nat) (exception : Option String) (message : String)
  /-- There was no answer. -/
  | transport (reason : String)
deriving DecidableEq, Repr

/-- The body of an answer in the service's own form. -/
structure ErrorBody where
  typeName : Option String
  message : Option String

/-- Read the body of an answer. -/
def ErrorBody.reader : Reader ErrorBody :=
  Fields.reader <|
    Fields.build ErrorBody.mk
      |>.and (.withDefault "typeName" (Reader.optional Reader.string) none)
      |>.and (.withDefault "message" (Reader.optional Reader.string) none)

namespace Error

/-- The error that an answer with this status and body stands for. -/
def ofResponse (status : Nat) (body : String) : Error :=
  match Json.decode ErrorBody.reader body with
  | .ok parsed => .api status (parsed.typeName.filter (· ≠ "")) (parsed.message.getD "")
  | .error _ => .api status none (Text.trim body)

/-- Whether the error says that the runner works on a job. -/
def isJobStillRunning : Error → Bool
  | api status exception _ => status = 400 && exception = some jobStillRunning
  | transport _ => false

/-- The text of an error. -/
def message : Error → String
  | api status exception message =>
      "actions service returned " ++ toString status ++ " (" ++
        exception.getD "no exception" ++ "): " ++ message
  | transport reason => "actions service request failed: " ++ reason

/-- Only a bad request naming the one exception means that a job still runs. -/
theorem isJobStillRunning_iff {status : Nat} {exception : Option String} {text : String} :
    (api status exception text).isJobStillRunning = true ↔
      status = 400 ∧ exception = some jobStillRunning := by
  simp [isJobStillRunning]

end Error

/-- How the service answers the removal of each registration. -/
abbrev Service := Int → Except Error Unit

end Actions
end RunnerFleet
