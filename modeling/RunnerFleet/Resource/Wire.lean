import RunnerFleet.Document.Fields
import RunnerFleet.Json.Value
import RunnerFleet.Resource.Runner
import RunnerFleet.Timestamp.Text

/-!
# Resources as JSON

How runner sets and runners are written as JSON values, and how they are read back from documents.
Fields that have a natural default may be left out by whoever writes a document; a written value has
all of them, apart from a message that is not there.

Main results:

- `RunnerPhase.find_label`: a phase is read back from its name.
-/

namespace RunnerFleet

open Document

/-! ## Shared parts -/

/-- Read a moment from its text. -/
def Timestamp.reader : Reader Timestamp
  | .string text =>
      match Timestamp.ofText? text with
      | some moment => .ok moment
      | none => .error .mismatched
  | node => .error node.fault

/-- A moment as a JSON value. -/
def Timestamp.toJson (t : Timestamp) : Json :=
  .string t.text

/-- The value, or `null` where there is none. -/
def Json.ofOption {α : Type} (toJson : α → Json) : Option α → Json
  | some value => toJson value
  | none => .null

/-- A map of texts as a JSON object. -/
def KeyMap.toJson (m : KeyMap String) : Json :=
  .object (m.entries.map fun entry => (entry.1, .string entry.2))

/-- Read a map of texts. -/
def KeyMap.textReader : Reader (KeyMap String) :=
  Reader.map Reader.string

/-! ## Metadata -/

namespace OwnerReference

/-- Read a reference to an owner. -/
def reader : Reader OwnerReference :=
  Fields.reader <|
    Fields.build OwnerReference.mk
      |>.and (.required "kind" Reader.string)
      |>.and (.required "name" Reader.string)
      |>.and (.required "uid" Reader.string)

/-- A reference to an owner as a JSON value. -/
def toJson (r : OwnerReference) : Json :=
  .object [("kind", .string r.kind), ("name", .string r.name), ("uid", .string r.uid)]

end OwnerReference

namespace Metadata

/-- Read the metadata of an object. -/
def reader : Reader Metadata :=
  Fields.reader <|
    Fields.build Metadata.mk
      |>.and (.required "name" Reader.string)
      |>.and (.required "namespace" Reader.string)
      |>.and (.withDefault "uid" Reader.string "")
      |>.and (.withDefault "labels" KeyMap.textReader .empty)
      |>.and (.withDefault "annotations" KeyMap.textReader .empty)
      |>.and (.withDefault "finalizers" (Reader.list Reader.string) [])
      |>.and (.withDefault "owner" (Reader.optional OwnerReference.reader) none)
      |>.and (.withDefault "creation_timestamp" (Reader.optional Timestamp.reader) none)
      |>.and (.withDefault "deletion_timestamp" (Reader.optional Timestamp.reader) none)
      |>.and (.withDefault "resource_version" Reader.natural64 0)

/-- The metadata of an object as a JSON value. -/
def toJson (m : Metadata) : Json :=
  .object
    [("name", .string m.name),
      ("namespace", .string m.namespaceName),
      ("uid", .string m.uid),
      ("labels", m.labels.toJson),
      ("annotations", m.annotations.toJson),
      ("finalizers", .array (m.finalizers.map .string)),
      ("owner", .ofOption OwnerReference.toJson m.owner),
      ("creation_timestamp", .ofOption Timestamp.toJson m.creation),
      ("deletion_timestamp", .ofOption Timestamp.toJson m.deletion),
      ("resource_version", .integer m.resourceVersion)]

end Metadata

/-! ## Runner sets -/

namespace RunnerTemplate

/-- Read a template. -/
def reader : Reader RunnerTemplate :=
  Fields.reader <|
    Fields.build RunnerTemplate.mk
      |>.and (.required "image" Reader.string)
      |>.and (.withDefault "labels" KeyMap.textReader .empty)
      |>.and (.withDefault "env" KeyMap.textReader .empty)

/-- A template as a JSON value. -/
def toJson (t : RunnerTemplate) : Json :=
  .object [("image", .string t.image), ("labels", t.labels.toJson), ("env", t.env.toJson)]

end RunnerTemplate

namespace RunnerSetSpec

/-- Read what is asked of a runner set. -/
def reader : Reader RunnerSetSpec :=
  Fields.reader <|
    Fields.build RunnerSetSpec.mk
      |>.and (.required "replicas" Reader.natural32)
      |>.and (.withDefault "patch_id" Reader.integer64 0)
      |>.and (.required "runner_template" RunnerTemplate.reader)

/-- What is asked of a runner set, as a JSON value. -/
def toJson (s : RunnerSetSpec) : Json :=
  .object
    [("replicas", .integer s.replicas),
      ("patch_id", .integer s.patchId),
      ("runner_template", s.template.toJson)]

end RunnerSetSpec

namespace RunnerSetStatus

/-- Read the counts of a runner set. -/
def reader : Reader RunnerSetStatus :=
  Fields.reader <|
    Fields.build RunnerSetStatus.mk
      |>.and (.required "current_replicas" Reader.natural32)
      |>.and (.required "pending_runners" Reader.natural32)
      |>.and (.required "running_runners" Reader.natural32)
      |>.and (.required "failed_runners" Reader.natural32)

/-- The counts of a runner set as a JSON value. -/
def toJson (s : RunnerSetStatus) : Json :=
  .object
    [("current_replicas", .integer s.current),
      ("pending_runners", .integer s.pending),
      ("running_runners", .integer s.running),
      ("failed_runners", .integer s.failed)]

end RunnerSetStatus

namespace RunnerSet

/-- Read a runner set. -/
def reader : Reader RunnerSet :=
  Fields.reader <|
    Fields.build RunnerSet.mk
      |>.and (.required "metadata" Metadata.reader)
      |>.and (.required "spec" RunnerSetSpec.reader)
      |>.and (.withDefault "status" RunnerSetStatus.reader {})

/-- A runner set as a JSON value. -/
def toJson (s : RunnerSet) : Json :=
  .object
    [("metadata", s.metadata.toJson), ("spec", s.spec.toJson), ("status", s.status.toJson)]

end RunnerSet

/-! ## Runners -/

namespace RunnerPhase

/-- The name of a phase. -/
def label : RunnerPhase → String
  | pending => "pending"
  | running => "running"
  | succeeded => "succeeded"
  | failed => "failed"
  | unknown => "unknown"

/-- All phases with their names. -/
def labels : List (String × RunnerPhase) :=
  [pending, running, succeeded, failed, unknown].map fun phase => (phase.label, phase)

/-- Read a phase from its name. -/
def reader : Reader RunnerPhase :=
  Reader.name labels

/-- Every phase is found under its own label. -/
@[simp]
theorem find_label (phase : RunnerPhase) : labels.lookup phase.label = some phase := by
  cases phase <;> decide

end RunnerPhase

namespace RunnerStatus

/-- Read what is known of a runner. -/
def reader : Reader RunnerStatus :=
  Fields.reader <|
    Fields.build RunnerStatus.mk
      |>.and (.withDefault "phase" RunnerPhase.reader .pending)
      |>.and (.withDefault "runner_id" Reader.integer64 0)
      |>.and (.withDefault "job_request_id" Reader.integer64 0)
      |>.and (.withDefault "message" (Reader.optional Reader.string) none)

/-- What is known of a runner, as a JSON value. -/
def toJson (s : RunnerStatus) : Json :=
  .object <|
    [("phase", .string s.phase.label),
      ("runner_id", .integer s.runnerId),
      ("job_request_id", .integer s.jobRequestId)] ++
    s.message.toList.map fun message => ("message", .string message)

end RunnerStatus

namespace Runner

/-- Read the part of a runner that holds its template. -/
def specReader : Reader RunnerTemplate :=
  Fields.reader <|
    Fields.build id
      |>.and (.required "template" RunnerTemplate.reader)

/-- Read a runner. -/
def reader : Reader Runner :=
  Fields.reader <|
    Fields.build Runner.mk
      |>.and (.required "metadata" Metadata.reader)
      |>.and (.required "spec" specReader)
      |>.and (.withDefault "status" RunnerStatus.reader {})

/-- A runner as a JSON value. -/
def toJson (r : Runner) : Json :=
  .object
    [("metadata", r.metadata.toJson),
      ("spec", .object [("template", r.template.toJson)]),
      ("status", r.status.toJson)]

end Runner
end RunnerFleet
