import RunnerFleet.Proofs.Document.Records
import RunnerFleet.Proofs.Json.Trees

/-!
# Values that are spelled

A value in JSON spells a value of another type if it is read as that one, from its document and so
from its text.  What scalars, lists, maps and names spell is said here once.  A record is spelled by
an object with a member for each of its fields.

Main results:

- `Spells.decode`: a value is read back from the text of what spells it.
- `Spells.list`, `Spells.map`, `Spells.optional`, `spells_name`: what values of fields are spelled by.
- `Fields.Gives.spells`: an object whose members give the fields of a record spells the record.
-/

namespace RunnerFleet
namespace Document

/-- `reader` takes the JSON value for `value`, and nothing of its text is lost. -/
structure Spells {α : Type} (reader : Reader α) (json : Json) (value : α) : Prop where
  plain : json.Plain
  read : reader json.node = .ok value

/-- A value is read back from the text of what spells it. -/
theorem Spells.decode {α : Type} {reader : Reader α} {json : Json} {value : α}
    (h : Spells reader json value) : Json.decode reader json.text = .ok value := by
  rw [Json.decode_text reader h.plain, h.read]

theorem memberNodes_eq_named (members : List (String × Json)) :
    Json.memberNodes members = named (members.map fun member => (member.1, member.2.node)) := by
  induction members with
  | nil => rfl
  | cons member members ih =>
      rw [Json.memberNodes, ih]
      rfl

namespace Fields

/-! ## Records -/

/--
The members, the last one first, give the fields of the record one after the other, and `value` is the
record that they make up.  A field may be left out if it does not need to be named.
-/
inductive Gives : {α : Type} → Fields α → List (String × Json) → α → Prop where
  | build {α : Type} (value : α) : Gives (build value) [] value
  | named {α β : Type} {before : Fields (β → α)} {slot : Slot β} {members : List (String × Json)}
      {make : β → α} {json : Json} {value : β} (h : Gives before members make)
      (hvalue : Spells slot.read json value) :
      Gives (before.and slot) ((slot.name, json) :: members) (make value)
  | unnamed {α β : Type} {before : Fields (β → α)} {slot : Slot β}
      {members : List (String × Json)} {make : β → α} {value : β} (h : Gives before members make)
      (hvalue : slot.unnamed = some value) :
      Gives (before.and slot) members (make value)

/-- What spells the fields gives them. -/
theorem Gives.given {α : Type} {fields : Fields α} {members : List (String × Json)} {value : α}
    (h : Gives fields members value) :
    Given fields (members.map fun member => (member.1, member.2.node)) value := by
  induction h with
  | build value => exact .build value
  | named _ hvalue ih => exact .named ih hvalue.read
  | unnamed _ hvalue ih => exact .unnamed ih hvalue

theorem Gives.plain {α : Type} {fields : Fields α} {members : List (String × Json)} {value : α}
    (h : Gives fields members value) : ∀ member ∈ members, member.2.Plain := by
  induction h with
  | build value => simp
  | named _ hvalue ih =>
      intro member hmember
      rcases List.mem_cons.1 hmember with rfl | hmember
      · exact hvalue.plain
      · exact ih member hmember
  | unnamed _ _ ih => exact ih

/-- An object whose members give the fields of a record spells the record. -/
theorem Gives.spells {α : Type} {fields : Fields α} {members : List (String × Json)} {value : α}
    {spare : Bool} (h : Gives fields members.reverse value) (hfresh : fields.isFresh = true) :
    Spells (fields.reader spare) (.object members) value := by
  constructor
  · rw [Json.Plain, Json.plainMembers_iff]
    exact fun member hmember => h.plain member (List.mem_reverse.2 hmember)
  · have hgiven := h.given
    rw [List.map_reverse] at hgiven
    rw [Json.node, memberNodes_eq_named]
    exact hgiven.reader hfresh

end Fields

/-! ## The values of fields -/

theorem spells_string (s : String) : Spells Reader.string (.string s) s := by
  refine ⟨trivial, ?_⟩
  rw [Json.node, Reader.string]

theorem spells_natural {n bound : Nat} (h : n < bound) (hbound : bound ≤ 2 ^ 64) :
    Spells (Reader.natural bound) (.integer n) n := by
  constructor
  · rw [Json.Plain]
    exact ⟨by omega, by omega⟩
  · rw [Json.node, Reader.natural_ok_iff]
    exact ⟨rfl, h⟩

theorem spells_integer64 {n : Int} (h : -2 ^ 63 ≤ n ∧ n < 2 ^ 63) :
    Spells Reader.integer64 (.integer n) n := by
  constructor
  · rw [Json.Plain]
    exact ⟨by omega, by omega⟩
  · rw [Json.node, Reader.integer64, Reader.integer_ok_iff]
    exact ⟨rfl, by omega, by omega⟩

/-- A name spells the value it stands for. -/
theorem spells_name {α : Type} {names : List (String × α)} {label : String} {value : α}
    (h : names.lookup label = some value) : Spells (Reader.name names) (.string label) value := by
  refine ⟨trivial, ?_⟩
  rw [Json.node, Reader.name, Reader.name.find, h]

/-- What is missing is spelled by `null`. -/
theorem spells_null {α : Type} (reader : Reader α) : Spells (Reader.optional reader) .null none := by
  refine ⟨trivial, ?_⟩
  rw [Json.node, Reader.optional]

/-- What need not be there is spelled like what has to be, unless that is `null`. -/
theorem Spells.optional {α : Type} {reader : Reader α} {json : Json} {value : α}
    (h : Spells reader json value) (hnull : json ≠ .null) :
    Spells (Reader.optional reader) json (some value) := by
  refine ⟨h.plain, ?_⟩
  unfold Reader.optional
  split
  · rename_i heq
    cases json <;> simp [Json.node] at heq hnull
  · rw [h.read]
    rfl

/-- A list is spelled by the array of what spells its items. -/
theorem Spells.list {α : Type} {reader : Reader α} {toJson : α → Json} {values : List α}
    (h : ∀ v ∈ values, Spells reader (toJson v) v) :
    Spells (Reader.list reader) (.array (values.map toJson)) values := by
  constructor
  · rw [Json.Plain, Json.plainItems_iff]
    intro item hitem
    obtain ⟨v, hv, rfl⟩ := List.mem_map.1 hitem
    exact (h v hv).plain
  · rw [Json.node, Reader.list, Json.itemNodes_eq_map]
    induction values with
    | nil => rfl
    | cons v values ih =>
        have hrest := ih fun w hw => h w (List.mem_cons_of_mem _ hw)
        simp only [List.map_cons, Reader.items, (h v List.mem_cons_self).read, hrest]
        rfl

/-! ## Maps -/

/-- A map is spelled by the object of what spells its values. -/
theorem Spells.map {α : Type} {reader : Reader α} {toJson : α → Json} {m : KeyMap α}
    (h : ∀ e ∈ m.entries, Spells reader (toJson e.2) e.2) :
    Spells (Reader.map reader) (.object (m.entries.map fun e => (e.1, toJson e.2))) m := by
  constructor
  · rw [Json.Plain, Json.plainMembers_iff]
    intro member hmember
    obtain ⟨e, he, rfl⟩ := List.mem_map.1 hmember
    exact (h e he).plain
  · rw [Json.node, memberNodes_eq_named, List.map_map]
    exact map_entries (fun value => (toJson value).node) fun e he => (h e he).read

end Document
end RunnerFleet
