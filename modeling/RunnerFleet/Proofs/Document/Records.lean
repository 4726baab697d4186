import RunnerFleet.Document.Fields

/-!
# Records and maps that are read back

A record is read from an object with a member for each of its fields: the reader fills its
description from the members one by one, and looks for fields without a value at the end.  So the
argument goes along the description, and holds for every description with different names.  A map is
put together from the members of an object one by one.

Main results:

- `Fields.Given.reader`: an object whose members give the fields of a record is read as the record.
- `map_entries`: an object with the entries of a map is read as the map.
-/

namespace RunnerFleet
namespace Document

/-- Members with names of correct form. -/
def named (members : List (String × Node)) : List (Option String × Node) :=
  members.map fun member => (some member.1, member.2)

namespace Fields

/-! ## Filling a description -/

/-- The names of the fields, the last one first. -/
def names : {α : Type} → Fields α → List String
  | _, build _ => []
  | _, and before slot => slot.name :: before.names

/-- Whether the fields have different names, and no values yet. -/
def isFresh : {α : Type} → Fields α → Bool
  | _, build _ => true
  | _, and before slot =>
      !before.names.contains slot.name && slot.held.isNone && before.isFresh

theorem isFresh_and {α β : Type} {before : Fields (β → α)} {slot : Slot β}
    (h : (before.and slot).isFresh = true) :
    slot.name ∉ before.names ∧ slot.held = none ∧ before.isFresh = true := by
  simpa [isFresh, and_assoc] using h

/-- Every one of the members finds its field, and `filled` is what they make of the description. -/
inductive Takes : {α : Type} → Fields α → List (String × Node) → Fields α → Prop where
  | nil {α : Type} (fields : Fields α) : Takes fields [] fields
  | cons {α : Type} {fields next filled : Fields α} {name : String} {node : Node}
      {rest : List (String × Node)} (hfill : fields.fill name node = .ok (some next))
      (hrest : Takes next rest filled) : Takes fields ((name, node) :: rest) filled

/-- Once every member has found its field, what is left is to finish. -/
theorem Takes.fillAll_eq {α : Type} {fields filled : Fields α} {members : List (String × Node)}
    (h : Takes fields members filled) : fields.fillAll (named members) = filled.finish := by
  induction h with
  | nil fields => rw [named, List.map_nil, fillAll]
  | cons hfill _ ih =>
      simp only [named, List.map_cons, fillAll, hfill]
      exact ih

theorem Takes.append {α : Type} {fields next filled : Fields α}
    {members more : List (String × Node)} (h : Takes fields members next)
    (hmore : Takes next more filled) : Takes fields (members ++ more) filled := by
  induction h with
  | nil fields => exact hmore
  | cons hfill _ ih => exact .cons hfill (ih hmore)

/-- A field is not touched by members with other names. -/
theorem Takes.beside {α β : Type} {before filled : Fields (β → α)} {members : List (String × Node)}
    (h : Takes before members filled) {slot : Slot β}
    (hnames : ∀ member ∈ members, member.1 ≠ slot.name) :
    Takes (before.and slot) members (filled.and slot) := by
  induction h with
  | nil fields => exact .nil _
  | cons hfill _ ih =>
      have hname := hnames _ List.mem_cons_self
      have hrest := ih fun member hmember => hnames member (List.mem_cons_of_mem _ hmember)
      refine .cons ?_ hrest
      rw [fill, if_neg (Ne.symm hname), hfill]

/-! ## Giving every field -/

/--
The members, the last one first, give the fields of the record one after the other, and `value` is
the record that they make up.  A field may be left out if it does not need to be named.
-/
inductive Given : {α : Type} → Fields α → List (String × Node) → α → Prop where
  | build {α : Type} (value : α) : Given (build value) [] value
  | named {α β : Type} {before : Fields (β → α)} {slot : Slot β} {members : List (String × Node)}
      {make : β → α} {node : Node} {value : β} (h : Given before members make)
      (hvalue : slot.read node = .ok value) :
      Given (before.and slot) ((slot.name, node) :: members) (make value)
  | unnamed {α β : Type} {before : Fields (β → α)} {slot : Slot β}
      {members : List (String × Node)} {make : β → α} {value : β} (h : Given before members make)
      (hvalue : slot.unnamed = some value) :
      Given (before.and slot) members (make value)

/-- No other member bears the name of a field. -/
theorem Given.name_mem {α : Type} {fields : Fields α} {members : List (String × Node)} {value : α}
    (h : Given fields members value) : ∀ member ∈ members, member.1 ∈ fields.names := by
  induction h with
  | build value => simp
  | named h _ ih =>
      intro member hmember
      rcases List.mem_cons.1 hmember with rfl | hmember
      · exact List.mem_cons_self
      · exact List.mem_cons_of_mem _ (ih member hmember)
  | unnamed h _ ih => exact fun member hmember => List.mem_cons_of_mem _ (ih member hmember)

/-- The members of the fields before a field leave it without a value. -/
theorem Given.beside {α β : Type} {before filled : Fields (β → α)} {slot : Slot β}
    {members : List (String × Node)} {make : β → α} (h : Given before members make)
    (hname : slot.name ∉ before.names) (htakes : Takes before members.reverse filled) :
    Takes (before.and slot) members.reverse (filled.and slot) := by
  refine htakes.beside fun member hmember heq => hname ?_
  exact heq ▸ h.name_mem member (List.mem_reverse.1 hmember)

/-- Members that give the fields leave a description that finishes with the record. -/
theorem Given.exists_takes {α : Type} {fields : Fields α} {members : List (String × Node)}
    {value : α} (h : Given fields members value) (hfresh : fields.isFresh = true) :
    ∃ filled, Takes fields members.reverse filled ∧ filled.finish = .ok value := by
  induction h with
  | build value => exact ⟨_, .nil _, rfl⟩
  | @named _ _ before slot members make node value h hvalue ih =>
      obtain ⟨hslot, hheld, hbefore⟩ := isFresh_and hfresh
      obtain ⟨filled, htakes, hfinish⟩ := ih hbefore
      have hfill : (filled.and slot).fill slot.name node =
          .ok (some (filled.and { slot with held := some value })) := by
        simp only [fill, if_true, hheld, hvalue]
      refine ⟨filled.and { slot with held := some value }, ?_, ?_⟩
      · rw [List.reverse_cons]
        exact (h.beside hslot htakes).append (.cons hfill (.nil _))
      · simp only [finish, hfinish, Option.some_or]
  | @unnamed _ _ before slot members make value h hvalue ih =>
      obtain ⟨hslot, hheld, hbefore⟩ := isFresh_and hfresh
      obtain ⟨filled, htakes, hfinish⟩ := ih hbefore
      refine ⟨_, h.beside hslot htakes, ?_⟩
      simp only [finish, hfinish, hheld, hvalue, Option.none_or]

/-- An object whose members give the fields of a record is read as the record. -/
theorem Given.reader {α : Type} {fields : Fields α} {members : List (String × Node)} {value : α}
    {spare : Bool} (h : Given fields members.reverse value) (hfresh : fields.isFresh = true) :
    fields.reader spare (.object (Document.named members)) = .ok value := by
  obtain ⟨filled, htakes, hfinish⟩ := h.exists_takes hfresh
  rw [List.reverse_reverse] at htakes
  rw [Fields.reader, htakes.fillAll_eq, hfinish]

end Fields

/-! ## Maps -/

/-- Members that are read one by one are put into the map in the order of the text. -/
theorem entries_eq_foldl {α : Type} {reader : Reader α} {toNode : α → Node}
    {listed : List (String × α)} (h : ∀ e ∈ listed, reader (toNode e.2) = .ok e.2)
    (m : KeyMap α) :
    Reader.entries reader m (named (listed.map fun e => (e.1, toNode e.2))) =
      .ok (listed.foldl (fun m e => m.insert e.1 e.2) m) := by
  induction listed generalizing m with
  | nil => rw [List.map_nil, named, List.map_nil, Reader.entries, List.foldl_nil]
  | cons e listed ih =>
      have hrest := ih (fun e he => h e (List.mem_cons_of_mem _ he)) (m.insert e.1 e.2)
      rw [List.map_cons, named, List.map_cons, ← named, Reader.entries, h e List.mem_cons_self,
        List.foldl_cons, ← hrest]
      rfl

end Document

namespace KeyMap

variable {α : Type}

theorem get?_foldl_insert {listed : List (String × α)}
    (hsorted : listed.Pairwise fun a b => a.1 < b.1) (m : KeyMap α) (key : String) :
    (listed.foldl (fun m e => m.insert e.1 e.2) m).get? key = (listed.lookup key).or (m.get? key) := by
  induction listed generalizing m with
  | nil => rfl
  | cons e listed ih =>
      obtain ⟨hfirst, hrest⟩ := List.pairwise_cons.1 hsorted
      rw [List.foldl_cons, ih hrest, get?_insert, lookup_cons_eq_ite]
      by_cases hkey : key = e.1
      · -- the later entries have greater keys
        have hnone : listed.lookup key = none := by
          rw [List.lookup_eq_none_iff]
          intro entry hentry
          have hlt := hfirst entry hentry
          rw [← hkey] at hlt
          have hne : key ≠ entry.1 := fun heq => String.lt_irrefl entry.1 (heq ▸ hlt)
          exact bne_iff_ne.2 hne
        rw [if_pos hkey, if_pos hkey, hnone, Option.none_or, Option.some_or]
      · rw [if_neg hkey, if_neg hkey]

/-- A map is built again from its entries. -/
theorem foldl_insert_entries (m : KeyMap α) :
    m.entries.foldl (fun m e => m.insert e.1 e.2) empty = m := by
  refine ext_get? fun key => ?_
  rw [get?_foldl_insert m.sorted, get?_empty, Option.or_none, get?]

end KeyMap

namespace Document

/-- An object with the entries of a map is read as the map. -/
theorem map_entries {α : Type} {reader : Reader α} (toNode : α → Node) {m : KeyMap α}
    (h : ∀ e ∈ m.entries, reader (toNode e.2) = .ok e.2) :
    Reader.map reader (.object (named (m.entries.map fun e => (e.1, toNode e.2)))) = .ok m := by
  rw [Reader.map, entries_eq_foldl h, KeyMap.foldl_insert_entries]

end Document
end RunnerFleet
