import RunnerFleet.Resource.Wire

/-!
# Events of the store

Every write to the store is announced by one event, which says what happened to which object. An
event leads to the runner set that it concerns: the set itself, or the owner of the runner.
-/

namespace RunnerFleet

open Document

/-- The kinds of stored objects. -/
inductive ResourceKind where
  | runnerSet
  | runner
deriving DecidableEq, Repr

/-- What a write made of an object. -/
inductive WatchAction where
  | added
  | modified
  | deleted
deriving DecidableEq, Repr

/-- The announcement of a write. -/
structure WatchEvent where
  kind : ResourceKind
  action : WatchAction
  /-- The key of the object. -/
  key : String
  /-- The key of the runner set that owns the object, for runners. -/
  owner : Option String
deriving DecidableEq

namespace ResourceKind

/-- The name of a kind. -/
def label : ResourceKind → String
  | runnerSet => "runner_set"
  | runner => "runner"

/-- Read a kind from its name. -/
def reader : Reader ResourceKind :=
  Reader.name ([runnerSet, runner].map fun kind => (kind.label, kind))

end ResourceKind

namespace WatchAction

/-- The name of an action. -/
def label : WatchAction → String
  | added => "added"
  | modified => "modified"
  | deleted => "deleted"

/-- Read an action from its name. -/
def reader : Reader WatchAction :=
  Reader.name ([added, modified, deleted].map fun action => (action.label, action))

end WatchAction

namespace WatchEvent

/-- The runner set that an event concerns, if any. -/
def runnerSetKey (e : WatchEvent) : Option String :=
  match e.kind with
  | .runnerSet => some e.key
  | .runner => e.owner

/-- Read an event. -/
def reader : Reader WatchEvent :=
  Fields.reader <|
    Fields.build WatchEvent.mk
      |>.and (.required "kind" ResourceKind.reader)
      |>.and (.required "action" WatchAction.reader)
      |>.and (.required "key" Reader.string)
      |>.and (.nullable "owner" Reader.string)

/-- An event as a JSON value. -/
def toJson (e : WatchEvent) : Json :=
  .object
    [("kind", .string e.kind.label),
      ("action", .string e.action.label),
      ("key", .string e.key),
      ("owner", .ofOption .string e.owner)]

end WatchEvent
end RunnerFleet
