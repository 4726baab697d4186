import RunnerFleet.Binary64.Rounding
import RunnerFleet.Document.Node
import RunnerFleet.KeyMap

/-!
# Reading values from documents

A reader turns a node into a value or says what is wrong with it. Readers go through a node in the
order of the text and report the first fault they come to.

Main results:

- `string_ok_iff`, `integer_ok_iff`: which nodes the scalar readers accept.
- `natural_ok_iff`: a natural number is read exactly when it is in range.
-/

namespace RunnerFleet
namespace Document

/-- A way to read a value of type `α` from a node. -/
abbrev Reader (α : Type) := Node → Except Fault α

namespace Reader

/-- Read a text. -/
def string : Reader String
  | .string value => .ok value
  | node => .error node.fault

/-- Read a whole number between `low` and `high`. -/
def integer (low high : Int) : Reader Int
  | .integer value => if low ≤ value ∧ value ≤ high then .ok value else .error .mismatched
  | node => .error node.fault

/-- Read a natural number below `bound`. -/
def natural (bound : Nat) : Reader Nat
  | .integer value =>
      if 0 ≤ value ∧ value.toNat < bound then .ok value.toNat else .error .mismatched
  | node => .error node.fault

/-- Read a natural number of 16 bits. -/
def natural16 : Reader Nat := natural (2 ^ 16)

/-- Read a natural number of 32 bits. -/
def natural32 : Reader Nat := natural (2 ^ 32)

/-- Read a natural number of 64 bits. -/
def natural64 : Reader Nat := natural (2 ^ 64)

/-- Read a signed number of 64 bits. -/
def integer64 : Reader Int := integer (-2 ^ 63) (2 ^ 63 - 1)

/-- Read a number, whole or not. -/
def float : Reader Binary64
  | .integer value => .ok (Binary64.ofInt value)
  | .float value => .ok value
  | node => .error node.fault

/-- Read a value that may be `null`. -/
def optional {α : Type} (reader : Reader α) : Reader (Option α)
  | .null => .ok none
  | node => (reader node).map some

/-- Read the items of a list in order. -/
def items {α : Type} (reader : Reader α) : List Node → Except Fault (List α)
  | [] => .ok []
  | item :: rest => do
      let value ← reader item
      let values ← items reader rest
      return value :: values

/-- Read a list. -/
def list {α : Type} (reader : Reader α) : Reader (List α)
  | .array nodes => items reader nodes
  | node => .error node.fault

/-- Read the members of a map in order; of two members with one name the later one counts. -/
def entries {α : Type} (reader : Reader α) (map : KeyMap α) :
    List (Option String × Node) → Except Fault (KeyMap α)
  | [] => .ok map
  | (none, _) :: _ => .error .malformed
  | (some name, node) :: rest => do
      let value ← reader node
      entries reader (map.insert name value) rest

/-- Read a map from texts. -/
def map {α : Type} (reader : Reader α) : Reader (KeyMap α)
  | .object members => entries reader .empty members
  | node => .error node.fault

/--
Read one of several names. A name may also stand as the only member of an object, with the value
`null`.
-/
def name {α : Type} (names : List (String × α)) : Reader α
  | .string value => find value
  | .object [(some value, node)] =>
      match find value, node with
      | .error fault, _ => .error fault
      | .ok found, .null => .ok found
      | .ok _, node => .error node.fault
  | .object ((some value, node) :: _ :: _) =>
      match find value, node with
      | .error fault, _ => .error fault
      | .ok _, .null => .error .malformed
      | .ok _, node => .error node.fault
  | _ => .error .malformed
where
  /-- The value with this name. -/
  find (value : String) : Except Fault α :=
    match names.lookup value with
    | some found => .ok found
    | none => .error .mismatched

/-- Only a string node reads as a string. -/
theorem string_ok_iff {node : Node} {value : String} :
    string node = .ok value ↔ node = .string value := by
  cases node <;> simp [string]

/-- Only an integer node below the bound, and not negative, reads as a natural number. -/
theorem natural_ok_iff {bound : Nat} {node : Node} {value : Nat} :
    natural bound node = .ok value ↔ node = .integer value ∧ value < bound := by
  cases node <;> simp [natural]
  rename_i n
  constructor
  · intro h
    split at h
    · injection h with h
      omega
    · contradiction
  · rintro ⟨rfl, h⟩
    simp [h]

/-- Only an integer node within the bounds reads as an integer. -/
theorem integer_ok_iff {low high : Int} {node : Node} {value : Int} :
    integer low high node = .ok value ↔ node = .integer value ∧ low ≤ value ∧ value ≤ high := by
  cases node <;> simp [integer]
  grind

end Reader
end Document
end RunnerFleet
