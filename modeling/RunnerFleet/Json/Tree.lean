import RunnerFleet.Document.Reader
import RunnerFleet.Json.Token

/-!
# From tokens to a document

The tokens are taken in order. What has been read of the arrays and objects that are still open is
kept on a stack, innermost first. At the first token that does not fit, everything that is open ends
with a broken node.
-/

namespace RunnerFleet
namespace Json

open Document (Node Fault Reader)

/-- An array or object that is still open. -/
inductive Frame where
  /-- An array with its items so far, the last one first. -/
  | array (items : List Node)
  /-- An object with its members so far, the last one first, and the name of the next one. -/
  | object (members : List (Option String × Node)) (name : Option String)

/-- What may come next. -/
inductive Stage where
  | value
  /-- The first item of an array, or its end. -/
  | firstItem
  | name
  /-- The first name of an object, or its end. -/
  | firstName
  | colon
  /-- A comma, or the end of what is open. -/
  | separator
  /-- Nothing, as the document is complete. -/
  | nothing (root : Node)

/-- A document, and whether anything comes behind it. -/
structure Tree where
  root : Node
  trailing : Bool

namespace Tree

/-- Close everything that is open behind `node`. -/
def close : List Frame → Node → Node
  | [], node => node
  | .array items :: stack, node => close stack (.array (node :: items).reverse)
  | .object members name :: stack, node => close stack (.object ((name, node) :: members).reverse)

/-- The document whose text stops being well formed here. -/
def abandon : Stage → List Frame → Tree
  | .nothing root, _ => ⟨root, true⟩
  | .value, stack => ⟨close stack .broken, false⟩
  | .colon, stack => ⟨close stack .broken, false⟩
  | _, .object members _ :: stack => ⟨close (.object members none :: stack) .broken, false⟩
  | _, stack => ⟨close stack .broken, false⟩

/-- Put a complete value into what is open. -/
def deliver (node : Node) : List Frame → Stage × List Frame
  | [] => (.nothing node, [])
  | .array items :: stack => (.separator, .array (node :: items) :: stack)
  | .object members name :: stack => (.separator, .object ((name, node) :: members) none :: stack)

/-- The step at a place where a value may stand. -/
def takeValue (token : Token) (stack : List Frame) : Option (Stage × List Frame) :=
  match token with
  | .scalar node => some (deliver node stack)
  | .string (some value) => some (deliver (.string value) stack)
  | .string none => some (deliver .valueless stack)
  | .openArray => some (.firstItem, .array [] :: stack)
  | .openObject => some (.firstName, .object [] none :: stack)
  | _ => none

/-- What a token makes of the stage and of what is open, if it fits. -/
def step (token : Token) : Stage → List Frame → Option (Stage × List Frame)
  | .value, stack => takeValue token stack
  | .firstItem, stack =>
      match token, stack with
      | .closeArray, .array items :: stack => some (deliver (.array items.reverse) stack)
      | _, _ => takeValue token stack
  | .firstName, stack =>
      match token, stack with
      | .closeObject, .object members _ :: stack => some (deliver (.object members.reverse) stack)
      | .string name, .object members _ :: stack => some (.colon, .object members name :: stack)
      | _, _ => none
  | .name, stack =>
      match token, stack with
      | .string name, .object members _ :: stack => some (.colon, .object members name :: stack)
      | _, _ => none
  | .colon, stack =>
      match token with
      | .colon => some (.value, stack)
      | _ => none
  | .separator, stack =>
      match token, stack with
      | .comma, .array _ :: _ => some (.value, stack)
      | .comma, .object _ _ :: _ => some (.name, stack)
      | .closeArray, .array items :: stack => some (deliver (.array items.reverse) stack)
      | .closeObject, .object members _ :: stack => some (deliver (.object members.reverse) stack)
      | _, _ => none
  | .nothing _, _ => none

/-- The document that the tokens make up. -/
def ofTokens : List Token → Stage → List Frame → Tree
  | [], .nothing root, _ => ⟨root, false⟩
  | [], stage, stack => abandon stage stack
  | token :: rest, stage, stack =>
      match step token stage stack with
      | some (stage, stack) => ofTokens rest stage stack
      | none => abandon stage stack

/-- The document in a text. -/
def read (text : String) : Tree :=
  ofTokens (Token.all text.toList) .value []

end Tree

/-- Read a value from a text that holds nothing else. -/
def decode {α : Type} (reader : Reader α) (text : String) : Except Fault α :=
  let tree := Tree.read text
  match reader tree.root with
  | .ok value => if tree.trailing then .error .malformed else .ok value
  | .error fault => .error fault

end Json
end RunnerFleet
