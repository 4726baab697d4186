import RunnerFleet.KeyMap
import RunnerFleet.Text.Blank
import RunnerFleet.Timestamp.Basic

/-!
# Names, keys and metadata

Every stored object carries metadata: its name in a namespace, labels, annotations, the finalizers
that keep it from being removed, the object that owns it, and what the store notes about its life.

The version of an object is kept in 64 bits.  It is one when the object is stored and grows by one
with each write, so that the limit is beyond all writes that are ever made; it is not modelled here.

Main results:

- `isValidName_ne_empty`: a valid name is not empty.
-/

namespace RunnerFleet

/-- Whether a text may be a name or a namespace: not blank, and without the marks that part keys. -/
def isValidName (name : String) : Bool :=
  !Text.isBlankText name && !name.toList.any fun c => c == '/' || c == ':'

/-- A valid name is not empty. -/
theorem isValidName_ne_empty {name : String} (h : isValidName name = true) : name ≠ "" := by
  rintro rfl
  exact absurd h (by decide)

/-- The object that owns another one. -/
structure OwnerReference where
  kind : String
  name : String
  uid : String
deriving DecidableEq

/-- What every stored object carries. -/
structure Metadata where
  name : String
  namespaceName : String
  /-- Given by the store when the object is created. -/
  uid : String := ""
  labels : KeyMap String := .empty
  annotations : KeyMap String := .empty
  /-- Who still has to agree before the object may be removed. -/
  finalizers : List String := []
  owner : Option OwnerReference := none
  /-- Given by the store when the object is created. -/
  creation : Option Timestamp := none
  /-- Set by the store when removal is requested while there are finalizers. -/
  deletion : Option Timestamp := none
  /-- Counts the writes to the object. -/
  resourceVersion : Nat := 0
deriving DecidableEq

namespace Metadata

/-- The key of an object: its namespace and its name. -/
def key (m : Metadata) : String :=
  m.namespaceName ++ "/" ++ m.name

/-- Whether removal of the object was requested. -/
def isDeleting (m : Metadata) : Bool :=
  m.deletion.isSome

/-- Whether the object holds this finalizer. -/
def hasFinalizer (m : Metadata) (finalizer : String) : Bool :=
  m.finalizers.contains finalizer

end Metadata
end RunnerFleet
