import RunnerFleet.Binary64.Shortest
import RunnerFleet.Json.Quoted

/-!
# JSON values and their text

A value is written without blanks, the members of an object in the order they have in the value.
What is not a finite number is written as `null`.

Main results:

- `render_string`: a text is written as its quotation.
-/

namespace RunnerFleet

/-- A JSON value. -/
inductive Json where
  | null
  | bool (value : Bool)
  | integer (value : Int)
  | float (value : Binary64)
  | string (value : String)
  | array (items : List Json)
  | object (members : List (String × Json))

namespace Json

instance : Inhabited Json := ⟨.null⟩

mutual

/-- The characters of a value's text. -/
def render : Json → List Char
  | null => "null".toList
  | bool value => if value then "true".toList else "false".toList
  | integer value => (toString value).toList
  | float (.finite negative rank) => (Binary64.finite negative rank).decimalText.toList
  | float _ => "null".toList
  | string value => quote value
  | array items => '[' :: renderItems items
  | object members => '\x7b' :: renderMembers members

/-- The items of an array with commas between them, and the bracket that closes it. -/
def renderItems : List Json → List Char
  | [] => [']']
  | [item] => render item ++ [']']
  | item :: rest => render item ++ ',' :: renderItems rest

/-- The members of an object with commas between them, and the brace that closes it. -/
def renderMembers : List (String × Json) → List Char
  | [] => ['\x7d']
  | [(name, value)] => quote name ++ ':' :: render value ++ ['\x7d']
  | (name, value) :: rest => quote name ++ ':' :: render value ++ ',' :: renderMembers rest

end

/-- The text of a value. -/
def text (value : Json) : String :=
  String.ofList value.render

/-- A string renders as its quotation. -/
@[simp]
theorem render_string (value : String) : (string value).render = quote value := by
  simp [render]

end Json
end RunnerFleet
