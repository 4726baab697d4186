/-!
# Request methods

What a request asks for. Names of methods are case-sensitive.

Main results:

- `ofName_name`: each of the methods with a meaning is read from its name.
-/

namespace RunnerFleet
namespace Http

/-- The method of a request. -/
inductive Method where
  | get
  | head
  | post
  | put
  | delete
  /-- Any other method. -/
  | other (name : String)
deriving DecidableEq, Repr

namespace Method

/-- The method with this name. -/
def ofName (name : String) : Method :=
  match name with
  | "GET" => get
  | "HEAD" => head
  | "POST" => post
  | "PUT" => put
  | "DELETE" => delete
  | _ => other name

/-- The name of a method. -/
def name : Method → String
  | get => "GET"
  | head => "HEAD"
  | post => "POST"
  | put => "PUT"
  | delete => "DELETE"
  | other name => name

/-- The known methods are read back from their names. -/
theorem ofName_name {m : Method} (h : ∀ name, m ≠ other name) : ofName m.name = m := by
  cases m with
  | other name => exact absurd rfl (h name)
  | _ => rfl

end Method
end Http
end RunnerFleet
