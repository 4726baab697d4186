import RunnerFleet.Config.Basic
import RunnerFleet.Document.Fields
import RunnerFleet.Json.Tree
import RunnerFleet.Resource.Wire
import RunnerFleet.Toml.Printer
import RunnerFleet.Toml.Reader

/-!
# Configurations as text

A configuration is read from a TOML file or from JSON; parts that have a natural default may be left
out. It is written as TOML, if its numbers are no larger than the format allows.

Main results:

- `toToml_isSome_iff`: which configurations can be written.
-/

namespace RunnerFleet
namespace Config

open Document

/-! ## Reading -/

/-- Read the part with the runner set and its bounds. -/
def Group.reader (spare : Bool) : Reader Group :=
  Fields.reader
    (Fields.build Group.mk
      |>.and (.required "name" Reader.string)
      |>.and (.required "namespace" Reader.string)
      |>.and (.withDefault "min_runners" Reader.natural32 0)
      |>.and (.nullable "max_runners" Reader.natural32)
      |>.and (.withDefault "scale_up_factor" Reader.float Binary64.one))
    spare

/-- Read the part with what runners are made from. -/
def Template.reader (spare : Bool) : Reader Template :=
  Fields.reader
    (Fields.build Template.mk
      |>.and (.withDefault "image" Reader.string defaultImage)
      |>.and (.withDefault "labels" KeyMap.textReader .empty)
      |>.and (.withDefault "env" KeyMap.textReader .empty))
    spare

/-- Read the part with how the controller runs its passes. -/
def Passes.reader (spare : Bool) : Reader Passes :=
  Fields.reader
    (Fields.build Passes.mk
      |>.and (.withDefault "max_concurrent_reconciles" Reader.natural64 2)
      |>.and (.withDefault "requeue_base_ms" Reader.natural64 500)
      |>.and (.withDefault "requeue_max_ms" Reader.natural64 60000))
    spare

/-- Read the part with where the Actions service is. -/
def Service.reader (spare : Bool) : Reader Service :=
  Fields.reader
    (Fields.build Service.mk
      |>.and (.required "base_url" Reader.string)
      |>.and (.withDefault "token_env" Reader.string defaultTokenVariable))
    spare

/-- Read a configuration. Where a part is given as an array, `spare` tells whether items beyond its
last field are passed over. -/
def reader (spare : Bool) : Reader Config :=
  Fields.reader
    (Fields.build Config.mk
      |>.and (.required "scale_set" (Group.reader spare))
      |>.and (.withDefault "runner" (Template.reader spare) {})
      |>.and (.withDefault "controller" (Passes.reader spare) {})
      |>.and (.nullable "actions" (Service.reader spare)))
    spare

/-- The configuration in a JSON text. -/
def ofJson (text : String) : Except Fault Config :=
  Json.decode (reader false) text

/-- The configuration that a TOML value stands for. -/
def ofValue (value : Toml.Value) : Except Fault Config :=
  reader true value.toNode

/-- The configuration in a TOML text. -/
def ofToml (text : String) : Except Fault Config :=
  match Toml.read text with
  | some value => ofValue value
  | none => .error .malformed

/-- What may go wrong when a configuration is loaded from a file. -/
inductive LoadError where
  /-- The file holds no configuration. -/
  | unreadable
  /-- The configuration is not valid. -/
  | invalid (problem : Problem)

/-- Load a configuration from the text of a file. -/
def load (text : String) : Except LoadError Config :=
  match ofToml text with
  | .error _ => .error .unreadable
  | .ok config =>
      match config.validate with
      | .ok () => .ok config
      | .error problem => .error (.invalid problem)

/-! ## Writing -/

/-- A map of texts as a table. -/
def mapValue (m : KeyMap String) : Toml.Value :=
  .table (m.entries.map fun entry => (entry.1, .string entry.2))

/-- The entries of the part with the runner set and its bounds. -/
def Group.tableEntries (g : Group) : List (String × Toml.Value) :=
  [("name", .string g.name), ("namespace", .string g.namespaceName),
    ("min_runners", .integer g.minRunners)] ++
  (g.maxRunners.toList.map fun (n : Nat) => ("max_runners", Toml.Value.integer n)) ++
  [("scale_up_factor", .float g.factor)]

/-- The entries of the part with what runners are made from. -/
def Template.tableEntries (t : Template) : List (String × Toml.Value) :=
  [("image", .string t.image), ("labels", mapValue t.labels), ("env", mapValue t.env)]

/-- The entries of the part with how the controller runs its passes. -/
def Passes.tableEntries (p : Passes) : List (String × Toml.Value) :=
  [("max_concurrent_reconciles", .integer p.maxConcurrent),
    ("requeue_base_ms", .integer p.requeueBase), ("requeue_max_ms", .integer p.requeueMax)]

/-- The entries of the part with where the Actions service is. -/
def Service.tableEntries (s : Service) : List (String × Toml.Value) :=
  [("base_url", .string s.baseUrl), ("token_env", .string s.tokenVariable)]

/-- The entries of a configuration. -/
def tableEntries (c : Config) : List (String × Toml.Value) :=
  [("scale_set", .table c.group.tableEntries), ("runner", .table c.template.tableEntries),
    ("controller", .table c.passes.tableEntries)] ++
  c.service.toList.map fun s => ("actions", .table s.tableEntries)

/-- The configuration as a TOML value. -/
def toValue (c : Config) : Toml.Value :=
  .table c.tableEntries

/-- The numbers of a configuration. -/
def numbers (c : Config) : List Nat :=
  [c.group.minRunners] ++ c.group.maxRunners.toList ++
    [c.passes.maxConcurrent, c.passes.requeueBase, c.passes.requeueMax]

/-- The configuration as a TOML text, unless a number does not fit into signed 64 bits. -/
def toToml (c : Config) : Option String :=
  if c.numbers.all (· < 2 ^ 63) then some c.toValue.text else none

/-- A configuration can be written exactly when each of its numbers fits a signed 64-bit integer. -/
theorem toToml_isSome_iff {c : Config} : c.toToml.isSome ↔ ∀ n ∈ c.numbers, n < 2 ^ 63 := by
  unfold toToml
  split <;> rename_i h
  · simpa using h
  · simpa using h

end Config
end RunnerFleet
