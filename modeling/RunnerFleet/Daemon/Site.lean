import RunnerFleet.Api.Handler
import RunnerFleet.Controller.Inbox
import RunnerFleet.Reconcile.Environment
import RunnerFleet.Reconcile.Pass
import RunnerFleet.Scaling.Listener

/-!
# Where a daemon works

A site is the store that daemons work on, one after the other, with what they need from outside: the
Actions service, a source of identifiers and times, and a clock in milliseconds. What is written to
the store is announced to the inbox of the daemon that runs, if one does.
-/

namespace RunnerFleet
namespace Daemon

/-- A store and what surrounds it. -/
structure Site where
  store : Store := {}
  /-- The events for the controller that runs. -/
  inbox : Option Controller.Inbox := none
  service : Actions.Service := fun _ => .ok ()
  /-- The identifiers and times that writes take. -/
  stamps : Nat → Stamp
  /-- The suffixes that the names of new runners take. -/
  suffixes : Nat → String
  /-- How many stamps were taken. -/
  stampsTaken : Nat := 0
  /-- How many suffixes were taken. -/
  suffixesTaken : Nat := 0
  /-- The milliseconds that have passed. -/
  now : Nat := 0
  /-- The removals of registrations with the time of each, the last one first. -/
  removals : List (Nat × Int) := []

namespace Site

/-- The stamp of the next write. -/
def stamp (s : Site) : Stamp :=
  s.stamps s.stampsTaken

/-- Announce events. -/
def announce (s : Site) (events : List WatchEvent) : Site :=
  { s with inbox := s.inbox.map fun inbox => inbox.add events }

/-- Carry out an operation on the store. -/
def perform (s : Site) (op : Store.Operation) : Except Store.Error op.Answer × Site :=
  let o := s.store.perform s.stamp op
  (o.result, { s with store := o.store, stampsTaken := s.stampsTaken + 1 }.announce o.events)

/-- Answer a request to the interface. -/
def respond (s : Site) (queues : Api.Queues) (request : Api.Request) :
    Option Api.Response × Api.Queues × Site :=
  let o := Api.State.respond ⟨s.store, queues⟩ s.stamp request
  (o.response, o.state.queues,
    { s with store := o.state.store, stampsTaken := s.stampsTaken + 1 }.announce o.events)

/-- The registration that a call removes. -/
def removed? : Reconcile.Call → Option Int
  | .deregister id => some id
  | _ => none

/-- Whether a call creates a runner. -/
def isCreation : Reconcile.Call → Bool
  | .createRunner _ => true
  | _ => false

/-- Run a pass over a runner set; tells whether it went well. -/
def runPass (s : Site) (key : String) : Bool × Site :=
  let environment : Reconcile.Environment :=
    { store := s.store, service := s.service, stamps := s.stamps, clock := s.stampsTaken }
  let program := Reconcile.pass (fun i => s.suffixes (s.suffixesTaken + i)) key
  let (result, after) := program.run Reconcile.Environment.answer environment
  let site := { s with
    store := after.store
    stampsTaken := after.clock
    suffixesTaken := s.suffixesTaken + (after.calls.filter isCreation).length
    removals := (after.calls.filterMap removed?).map (fun id => (s.now, id)) ++ s.removals }
  (result.isOk, site.announce after.events)

/-- Write a scaling decision to a runner set. -/
def writePatch (key : String) (patch : ScalePatch) : StateM Site (Except Store.Error Unit) :=
  fun s =>
    let (result, s) := s.perform (.patchSpec key patch.replicas patch.patchId)
    (result.map fun _ => (), s)

/-- Let a listener take reports, one after the other. -/
def listen (s : Site) (key : String) (l : Scaling.Listener) (batches : List JobBatch) :
    Scaling.Listener × Site :=
  batches.foldl
    (fun (l, s) batch =>
      let ((_, l), s) := ((Scaling.Listener.process (writePatch key) l batch).run s).run
      (l, s)) (l, s)

end Site
end Daemon
end RunnerFleet
