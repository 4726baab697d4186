import RunnerFleet.Http.Method
import RunnerFleet.Http.Percent
import RunnerFleet.Text.Split

/-!
# Routes

The paths that the interface answers, and what may be asked of each. A name in a path is
percent-encoded. A path ends in a name or a word; nothing may follow it, not even a slash.

Main results:

- `allows_head_iff`: the head of an answer may be asked for exactly where the answer may be.
-/

namespace RunnerFleet
namespace Api

/-- What a path leads to, with the names in it. -/
inductive Route where
  | runnerSets
  | runnerSet (namespaceName name : String)
  | runners (namespaceName name : String)
  | batches (namespaceName name : String)
  | runnerStatus (namespaceName name runner : String)
  | health
deriving DecidableEq, Repr

namespace Route

/-- The path of a target, without its query. -/
def pathOf (target : String) : List Char :=
  target.toList.takeWhile fun c => c != '?' && c != '#'

/-- The route with these parts of a path behind the version; names stand as they are written. -/
def ofParts? : List String → Option Route
  | ["runnersets"] => some runnerSets
  | ["runnersets", namespaceName, name] =>
      if name = "" then none else some (runnerSet namespaceName name)
  | ["runnersets", namespaceName, name, "runners"] => some (runners namespaceName name)
  | ["runnersets", namespaceName, name, "batches"] => some (batches namespaceName name)
  | ["runnersets", namespaceName, name, "runners", runner, "status"] =>
      some (runnerStatus namespaceName name runner)
  | _ => none

/-- The route of a target; names stand as they are written. -/
def ofTarget? (target : String) : Option Route :=
  match (Text.splitAt (· == '/') (pathOf target)).map String.ofList with
  | ["", "healthz"] => some health
  | "" :: "api" :: "v1" :: parts => ofParts? parts
  | _ => none

/-- Whether the route answers requests with this method. -/
def allows : Route → Http.Method → Bool
  | runnerSets, m => m == .get || m == .head || m == .post
  | runnerSet _ _, m => m == .get || m == .head || m == .delete
  | runners _ _, m => m == .get || m == .head
  | batches _ _, m => m == .post
  | runnerStatus _ _ _, m => m == .put
  | health, m => m == .get || m == .head

/-- The name that part of a path stands for; `none` if it is no text. -/
def decodeName? (name : String) : Option String :=
  Http.Percent.decode? name.toList

/-- The route with its names decoded; `none` if one of them is no text. -/
def decoded? : Route → Option Route
  | runnerSets => some runnerSets
  | runnerSet namespaceName name => do
      return runnerSet (← decodeName? namespaceName) (← decodeName? name)
  | runners namespaceName name => do
      return runners (← decodeName? namespaceName) (← decodeName? name)
  | batches namespaceName name => do
      return batches (← decodeName? namespaceName) (← decodeName? name)
  | runnerStatus namespaceName name runner => do
      return runnerStatus (← decodeName? namespaceName) (← decodeName? name) (← decodeName? runner)
  | health => some health

/-- A route answers `HEAD` exactly when it answers `GET`. -/
theorem allows_head_iff (r : Route) : r.allows .head = true ↔ r.allows .get = true := by
  cases r <;> simp [allows]

end Route
end Api
end RunnerFleet
