import RunnerFleet.Actions.Error
import RunnerFleet.Store.Error

/-!
# Errors of a reconcile pass

A pass goes on after most errors and reports all of them together at its end.
-/

namespace RunnerFleet
namespace Reconcile

/-- What may go wrong in a pass. -/
inductive Error where
  /-- The store failed where the pass cannot go on, or in the writing of finalizers or counts. -/
  | store (cause : Store.Error)
  /-- A runner could not be created for this runner set. -/
  | createRunner (runnerSet : String) (cause : Store.Error)
  /-- The registration of this runner could not be removed. -/
  | deregister (runner : String) (runnerId : Int) (cause : Actions.Error)
  /-- This runner could not be deleted. -/
  | deleteRunner (runner : String) (cause : Store.Error)
  /-- Several things went wrong. -/
  | several (errors : List Error)

namespace Error

instance : Inhabited Error := ⟨several []⟩

/-- The result of a pass in which these errors came up. -/
def collect : List Error → Except Error Unit
  | [] => .ok ()
  | [e] => .error e
  | errors => .error (several errors)

mutual

/-- How many things went wrong. -/
def count : Error → Nat
  | several errors => countAll errors
  | _ => 1

/-- How many things went wrong in all of these errors. -/
def countAll : List Error → Nat
  | [] => 0
  | e :: rest => count e + countAll rest

end

mutual

/-- The text of an error. -/
def message : Error → String
  | store cause => "fleet store error: " ++ cause.message
  | createRunner runnerSet cause =>
      "failed to create runner for " ++ runnerSet ++ ": " ++ cause.message
  | deregister runner runnerId cause =>
      "failed to deregister runner " ++ runner ++ " (id " ++ toString runnerId ++ "): " ++
        cause.message
  | deleteRunner runner cause => "failed to delete runner " ++ runner ++ ": " ++ cause.message
  | several errors =>
      toString errors.length ++ " errors: " ++ String.intercalate "; " (messages errors)

/-- The texts of these errors. -/
def messages : List Error → List String
  | [] => []
  | e :: rest => message e :: messages rest

end

end Error
end Reconcile
end RunnerFleet
