/-!
# Errors of the store

Main results:

- `Error.isNotFound_iff`: only the error of a missing object is one of a missing object.
-/

namespace RunnerFleet
namespace Store

/-- What may go wrong in the store. -/
inductive ErrorKind where
  | openFailed
  | transaction
  | table
  | read
  | write
  | serialize
  | deserialize
  | notFound
  | alreadyExists
  | invalid
deriving DecidableEq, Repr

/-- The words in front of an error's detail. -/
def ErrorKind.lead : ErrorKind → String
  | openFailed => "failed to open database: "
  | transaction => "transaction error: "
  | table => "table error: "
  | read => "read error: "
  | write => "write error: "
  | serialize => "serialization error: "
  | deserialize => "deserialization error: "
  | notFound => "not found: "
  | alreadyExists => "already exists: "
  | invalid => "invalid object: "

/-- An error of the store: what went wrong, and with what. -/
structure Error where
  kind : ErrorKind
  detail : String
deriving DecidableEq, Repr

namespace Error

/-- There is no object under this key. -/
def notFound (key : String) : Error :=
  ⟨.notFound, key⟩

/-- There already is an object under this key. -/
def alreadyExists (key : String) : Error :=
  ⟨.alreadyExists, key⟩

/-- A runner that nothing owns cannot be stored. -/
def noOwner (runner : String) : Error :=
  ⟨.invalid, "runner " ++ runner ++ " has no owner"⟩

/-- The text of an error. -/
def message (e : Error) : String :=
  e.kind.lead ++ e.detail

/-- Whether the error is that of a missing object. -/
def isNotFound (e : Error) : Bool :=
  e.kind = .notFound

/-- What counts as not found is the one kind of error, whatever its detail. -/
theorem isNotFound_iff {e : Error} : e.isNotFound = true ↔ e = notFound e.detail := by
  obtain ⟨kind, detail⟩ := e
  simp [isNotFound, notFound]

end Error
end Store
end RunnerFleet
