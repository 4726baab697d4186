import RunnerFleet.Binary64.Basic

/-!
# Documents as they were read

A node is a value as some text spells it. Reading a text always gives a node: where the text stops
being well formed the node is `broken`, and everything that encloses that place ends there. So a
broken node is the last thing that a walk in the order of the text comes to.
-/

namespace RunnerFleet
namespace Document

/-- A value as a text spells it. -/
inductive Node where
  | null
  | bool (value : Bool)
  | integer (value : Int)
  | float (value : Binary64)
  | string (value : String)
  /-- A scalar of correct form that stands for no value, such as a number that is too large. -/
  | valueless
  | array (items : List Node)
  /-- Members in the order of the text; a name of correct form that is no text is `none`. -/
  | object (members : List (Option String × Node))
  /-- The place from which on the text is not well formed. -/
  | broken

instance : Inhabited Node := ⟨.null⟩

/-- What is wrong with a document. -/
inductive Fault where
  /-- The text does not follow the grammar, or a value that is needed stands for nothing. -/
  | malformed
  /-- The text is a document, but not of what is to be read. -/
  | mismatched
deriving DecidableEq, Repr

namespace Node

mutual

/-- Whether the text of the node is well formed to its end. -/
def isWhole : Node → Bool
  | array items => allWhole items
  | object members => membersWhole members
  | broken => false
  | _ => true

/-- Whether all of these items are whole. -/
def allWhole : List Node → Bool
  | [] => true
  | item :: rest => isWhole item && allWhole rest

/-- Whether the values of all of these members are whole. -/
def membersWhole : List (Option String × Node) → Bool
  | [] => true
  | (_, value) :: rest => isWhole value && membersWhole rest

end

/-- The fault of a node that is not of the kind that is to be read. -/
def fault : Node → Fault
  | valueless => .malformed
  | broken => .malformed
  | _ => .mismatched

end Node
end Document
end RunnerFleet
