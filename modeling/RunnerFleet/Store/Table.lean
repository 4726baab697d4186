import RunnerFleet.Store.Error
import RunnerFleet.Store.Event

/-!
# Tables of objects

What runner sets and runners have in common in the store. An object is stored once, is then changed
in place, and leaves its table when its removal was requested and no finalizer is left. Every change
of a table comes with the event that announces it.

Main results:

- `insertNew_eq_error_iff`, `modify_eq_error_iff`, `remove_eq_error_iff`: when a change is refused.
-/

namespace RunnerFleet

/-- Objects that a table of the store may hold. -/
class Stored (α : Type) where
  kind : ResourceKind
  metadata : α → Metadata
  withMetadata : α → Metadata → α
  /-- The key of the runner set that owns the object, for runners. -/
  ownerKey : α → Option String

instance : Stored RunnerSet where
  kind := .runnerSet
  metadata s := s.metadata
  withMetadata s m := { s with metadata := m }
  ownerKey _ := none

instance : Stored Runner where
  kind := .runner
  metadata r := r.metadata
  withMetadata r m := { r with metadata := m }
  ownerKey r := r.ownerKey

/-- What the store takes from outside for a write: a fresh identifier, and the time. -/
structure Stamp where
  uid : String
  now : Timestamp

namespace Store

variable {α : Type} [Stored α]

/-- What an accepted request made of a table. -/
structure Change (α β : Type) where
  answer : β
  table : KeyMap α
  /-- The announcement of the write, if there was one. -/
  event : Option WatchEvent

/-- The announcement that `action` befell `object`. -/
def announce (object : α) (action : WatchAction) : WatchEvent where
  kind := Stored.kind α
  action := action
  key := (Stored.metadata object).key
  owner := Stored.ownerKey object

/-- Change the metadata of an object. -/
def mapMetadata (object : α) (change : Metadata → Metadata) : α :=
  Stored.withMetadata object (change (Stored.metadata object))

/-- The metadata of an object that is new in the store. An earlier creation time is kept. -/
def stampNew (stamp : Stamp) (m : Metadata) : Metadata :=
  { m with
    uid := stamp.uid
    creation := some (m.creation.getD stamp.now)
    deletion := none
    resourceVersion := 1 }

/-- Store a new object under `key`. -/
def insertNew (table : KeyMap α) (key : String) (object : α) (stamp : Stamp) :
    Except Error (Change α α) :=
  match table.get? key with
  | some _ => .error (.alreadyExists key)
  | none =>
      let object := mapMetadata object (stampNew stamp)
      .ok ⟨object, table.insert key object, some (announce object .added)⟩

/--
Change the object under `key`. If its removal was requested and it has no finalizer left, it leaves
the table, and the answer is `none`.
-/
def modify (table : KeyMap α) (key : String) (change : α → α) :
    Except Error (Change α (Option α)) :=
  match table.get? key with
  | none => .error (.notFound key)
  | some object =>
      let object := mapMetadata (change object) fun m =>
        { m with resourceVersion := m.resourceVersion + 1 }
      let m := Stored.metadata object
      if m.isDeleting && m.finalizers.isEmpty then
        .ok ⟨none, table.erase key, some (announce object .deleted)⟩
      else .ok ⟨some object, table.insert key object, some (announce object .modified)⟩

/--
Request the removal of the object under `key`. Without finalizers it leaves the table at once, and
the answer is `none`; with finalizers the request is noted, unless it was noted before.
-/
def remove (table : KeyMap α) (key : String) (now : Timestamp) :
    Except Error (Change α (Option α)) :=
  match table.get? key with
  | none => .error (.notFound key)
  | some object =>
      let m := Stored.metadata object
      if m.finalizers.isEmpty then
        .ok ⟨none, table.erase key, some (announce object .deleted)⟩
      else if m.isDeleting then .ok ⟨some object, table, none⟩
      else
        let object := mapMetadata object fun m =>
          { m with deletion := some now, resourceVersion := m.resourceVersion + 1 }
        .ok ⟨some object, table.insert key object, some (announce object .modified)⟩

/-! ## When a change is refused -/

/-- A creation is refused exactly when its key is taken. -/
theorem insertNew_eq_error_iff {table : KeyMap α} {key : String} {object : α} {stamp : Stamp}
    {e : Error} :
    insertNew table key object stamp = .error e ↔
      (table.get? key).isSome ∧ e = .alreadyExists key := by
  unfold insertNew
  split <;> rename_i h <;> simp [h, eq_comm]

/-- A change is refused exactly when there is nothing to change. -/
theorem modify_eq_error_iff {table : KeyMap α} {key : String} {change : α → α} {e : Error} :
    modify table key change = .error e ↔ table.get? key = none ∧ e = .notFound key := by
  unfold modify
  split <;> rename_i h
  · simp [h, eq_comm]
  · simp only [h]
    split <;> simp

/-- A removal is refused exactly when there is nothing to remove. -/
theorem remove_eq_error_iff {table : KeyMap α} {key : String} {now : Timestamp} {e : Error} :
    remove table key now = .error e ↔ table.get? key = none ∧ e = .notFound key := by
  unfold remove
  split <;> rename_i h
  · simp [h, eq_comm]
  · simp only [h]
    split
    · simp
    · split <;> simp

end Store
end RunnerFleet
