import RunnerFleet.Document.Reader

/-!
# Records

A record is read from an object by the names of its fields, in whatever order the text has them, or
from an array by their positions. The description of a record lists its fields once; it is filled
while the text is walked, so the first fault of the text is the one that is reported.
-/

namespace RunnerFleet
namespace Document

/-- One field of a record. -/
structure Slot (α : Type) where
  name : String
  read : Reader α
  /-- What stands for the field in an object that does not name it. -/
  unnamed : Option α := none
  /-- What stands for the field in an array that ends before its position. -/
  unplaced : Option α := none
  /-- The value read so far. -/
  held : Option α := none

/-- A field that every object and every array has to give. -/
def Slot.required {α : Type} (name : String) (read : Reader α) : Slot α :=
  { name, read }

/-- A field with a value that stands for it where it is left out. -/
def Slot.withDefault {α : Type} (name : String) (read : Reader α) (value : α) : Slot α :=
  { name, read, unnamed := some value, unplaced := some value }

/-- A field that an object may leave out or give as `null`; an array has to give it. -/
def Slot.nullable {α : Type} (name : String) (read : Reader α) : Slot (Option α) :=
  { name, read := Reader.optional read, unnamed := some none }

/-- The fields of a record in their order, and how their values make up the record. -/
inductive Fields : Type → Type 1 where
  | build {α : Type} (value : α) : Fields α
  | and {α β : Type} (before : Fields (β → α)) (slot : Slot β) : Fields α

namespace Fields

/--
Give the value under `name` to the field of that name. A name that no field has changes nothing and
gives `none`; a field that already holds a value refuses another one.
-/
def fill (name : String) (node : Node) : {α : Type} → Fields α → Except Fault (Option (Fields α))
  | _, build _ => .ok none
  | _, and before slot =>
      if slot.name = name then
        match slot.held with
        | some _ => .error .mismatched
        | none =>
            match slot.read node with
            | .ok value => .ok (some (before.and { slot with held := some value }))
            | .error fault => .error fault
      else
        match before.fill name node with
        | .ok (some filled) => .ok (some (filled.and slot))
        | .ok none => .ok none
        | .error fault => .error fault

/-- The record, once every field that has to be given holds a value. -/
def finish : {α : Type} → Fields α → Except Fault α
  | _, build value => .ok value
  | _, and before slot =>
      match before.finish, slot.held.or slot.unnamed with
      | .ok make, some value => .ok (make value)
      | .ok _, none => .error .mismatched
      | .error fault, _ => .error fault

/-- Fill the record from the members of an object. A member that no field names is passed over. -/
def fillAll {α : Type} (fields : Fields α) : List (Option String × Node) → Except Fault α
  | [] => fields.finish
  | (none, _) :: _ => .error .malformed
  | (some name, node) :: rest =>
      match fields.fill name node with
      | .error fault => .error fault
      | .ok (some filled) => fillAll filled rest
      | .ok none => if node.isWhole then fillAll fields rest else .error .malformed

/-- Fill the record from the items of an array, and give the items that are left. -/
def place : {α : Type} → Fields α → List Node → Except Fault (α × List Node)
  | _, build value, items => .ok (value, items)
  | _, and before slot, items =>
      match before.place items with
      | .error fault => .error fault
      | .ok (make, []) =>
          match slot.unplaced with
          | some value => .ok (make value, [])
          | none => .error .mismatched
      | .ok (make, item :: rest) =>
          match slot.read item with
          | .ok value => .ok (make value, rest)
          | .error fault => .error fault

/--
Read a record. Items beyond its last field are passed over if `spare`, and else are a fault of the
text.
-/
def reader {α : Type} (fields : Fields α) (spare : Bool := false) : Reader α
  | .object members => fields.fillAll members
  | .array items =>
      match fields.place items with
      | .ok (value, []) => .ok value
      | .ok (value, _ :: _) => if spare then .ok value else .error .malformed
      | .error fault => .error fault
  | node => .error node.fault

end Fields
end Document
end RunnerFleet
