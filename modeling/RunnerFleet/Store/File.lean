import RunnerFleet.Json.Tree
import RunnerFleet.Store.Operation

/-!
# The file of a store

A store is kept as one JSON text with a member for each table. An empty file is a store without
objects. Anything else that is no such text is not opened.

Main results:

- `ofText_error`: a file that is refused cannot be opened, whatever is in it.
-/

namespace RunnerFleet
namespace Store

open Document

/-- The tables of a store as a value. -/
def toJson (s : Store) : Json :=
  .object
    [("runner_sets", .object (s.sets.entries.map fun entry => (entry.1, entry.2.toJson))),
      ("runners", .object (s.runners.entries.map fun entry => (entry.1, entry.2.toJson)))]

/-- The text of a store. -/
def text (s : Store) : String :=
  s.toJson.text

/-- Read the tables of a store. -/
def reader : Reader Store :=
  Fields.reader <|
    Fields.build Store.mk
      |>.and (.required "runner_sets" (Reader.map RunnerSet.reader))
      |>.and (.required "runners" (Reader.map Runner.reader))

/-- The file cannot be opened as a store. -/
def cannotOpen (reason : String) : Error :=
  ⟨.openFailed, reason⟩

/-- The store in a file with this text. -/
def ofText (text : String) : Except Error Store :=
  if text = "" then .ok {}
  else
    match Json.decode reader text with
    | .ok store => .ok store
    | .error _ => .error (cannotOpen "not a store")

/-- A text that is no store is refused with one and the same error. -/
theorem ofText_error {text : String} {e : Error} (h : ofText text = .error e) :
    e = cannotOpen "not a store" := by
  unfold ofText at h
  split at h
  · contradiction
  · split at h
    · contradiction
    · injection h with h
      exact h.symm

end Store
end RunnerFleet
