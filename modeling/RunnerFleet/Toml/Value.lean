import RunnerFleet.Document.Node

/-!
# TOML values

Main results:

- `toNode_table`: a table is read as an object with the same names.
-/

namespace RunnerFleet
namespace Toml

open Document (Node)

/-- A TOML value. -/
inductive Value where
  | string (value : String)
  | integer (value : Int)
  | float (value : Binary64)
  | boolean (value : Bool)
  /-- A date, a time of day, or both, in its normal form. -/
  | datetime (text : String)
  | array (items : List Value)
  /-- A table with its entries in their order; every name occurs once. -/
  | table (entries : List (String × Value))

instance : Inhabited Value := ⟨.table []⟩

/-- The name under which a reader finds the text of a date or time. -/
def datetimeName : String := "$__toml_private_datetime"

namespace Value

mutual

/-- The value as a node. A date or time is an object that holds its text. -/
def toNode : Value → Node
  | string value => .string value
  | integer value => .integer value
  | float value => .float value
  | boolean value => .bool value
  | datetime text => .object [(some datetimeName, .string text)]
  | array items => .array (toNodes items)
  | table entries => .object (toMembers entries)

/-- Values as nodes. -/
def toNodes : List Value → List Node
  | [] => []
  | item :: rest => toNode item :: toNodes rest

/-- Entries of a table as members of an object. -/
def toMembers : List (String × Value) → List (Option String × Node)
  | [] => []
  | (name, value) :: rest => (some name, toNode value) :: toMembers rest

end

/-- A table becomes the object of its entries. -/
@[simp]
theorem toNode_table (entries : List (String × Value)) :
    (table entries).toNode = .object (toMembers entries) := by
  simp [toNode]

end Value
end Toml
end RunnerFleet
