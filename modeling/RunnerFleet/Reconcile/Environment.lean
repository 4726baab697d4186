import RunnerFleet.Reconcile.Program
import RunnerFleet.Store.Operation

/-!
# What answers the calls of a pass

Calls are answered by the store and by the Actions service. In an environment with faults some of
the calls to the store fail without reaching it; this is also how the errors of the database under
the store show themselves to a pass.
-/

namespace RunnerFleet
namespace Reconcile

/-- The answer to a call, the store after it, and the events it announced. -/
structure Reply (c : Call) where
  answer : c.Answer
  store : Store
  events : List WatchEvent

/-- The answer of the store to a call. -/
def Reply.ofOutcome {c : Call} {β : Type} (o : Store.Outcome β)
    (answer : Except Store.Error β → c.Answer) : Reply c :=
  ⟨answer o.result, o.store, o.events⟩

/-- Answer a call. -/
def Call.perform (service : Actions.Service) (stamp : Stamp) (s : Store) : (c : Call) → Reply c
  | .getSet key => .ofOutcome (s.perform stamp (.getSet key)) id
  | .listRunners key => .ofOutcome (s.perform stamp (.listRunners key)) id
  | .createRunner runner => .ofOutcome (s.perform stamp (.createRunner runner)) id
  | .deleteRunner owner name =>
      .ofOutcome (s.perform stamp (.deleteRunner owner name)) fun r => r.map fun _ => ()
  | .updateStatus key status =>
      .ofOutcome (s.perform stamp (.updateSetStatus key status)) fun r => r.map fun _ => ()
  | .setFinalizers key finalizers =>
      .ofOutcome (s.perform stamp (.setSetFinalizers key finalizers)) fun r => r.map fun _ => ()
  | .deregister runnerId => ⟨service runnerId, s, []⟩

/-! ## Faults -/

/-- The kinds of calls to the store. -/
inductive Method where
  | getSet
  | listRunners
  | createRunner
  | deleteRunner
  | updateStatus
  | setFinalizers
deriving DecidableEq, Repr

/-- The kind of a call, if it goes to the store. -/
def Call.method : Call → Option Method
  | getSet _ => some .getSet
  | listRunners _ => some .listRunners
  | createRunner _ => some .createRunner
  | deleteRunner _ _ => some .deleteRunner
  | updateStatus _ _ => some .updateStatus
  | setFinalizers _ _ => some .setFinalizers
  | deregister _ => none

/-- The answer to a call that fails with this error of the store, if the store is what it goes to. -/
def Call.failWith (e : Store.Error) : (c : Call) → Option c.Answer
  | getSet _ => some (.error e)
  | listRunners _ => some (.error e)
  | createRunner _ => some (.error e)
  | deleteRunner _ _ => some (.error e)
  | updateStatus _ _ => some (.error e)
  | setFinalizers _ _ => some (.error e)
  | deregister _ => none

/-- Which calls of one kind fail, and how. -/
structure Fault where
  method : Method
  /-- The numbers of the calls that fail, counted from one; `none` stands for all of them. -/
  calls : Option (List Nat)
  error : Store.Error
  /-- How many calls of the kind there were. -/
  seen : Nat := 0

/-- Whether the next call of the kind fails. -/
def Fault.strikesNext (f : Fault) : Bool :=
  match f.calls with
  | none => true
  | some calls => calls.contains (f.seen + 1)

/-- The faults of an environment, at most one for each kind of call. -/
abbrev FaultPlan := List Fault

namespace FaultPlan

/-- Set the fault for a kind of call in place of an earlier one. -/
def set (plan : FaultPlan) (fault : Fault) : FaultPlan :=
  fault :: plan.filter (·.method ≠ fault.method)

/-- The error with which the next call of a kind fails, if it does, and the plan after the call. -/
def next (plan : FaultPlan) (method : Method) : Option Store.Error × FaultPlan :=
  (plan.findSome? fun f => if f.method = method ∧ f.strikesNext then some f.error else none,
    plan.map fun f => if f.method = method then { f with seen := f.seen + 1 } else f)

end FaultPlan

/-- An environment in which calls may fail, with a record of what happened in it. -/
structure Environment where
  store : Store
  service : Actions.Service
  faults : FaultPlan := []
  /-- The identifiers and times that writes take. -/
  stamps : Nat → Stamp
  /-- How many calls took a stamp. -/
  clock : Nat := 0
  /-- The calls so far, the last one first. -/
  calls : List Call := []
  /-- The events so far, in order. -/
  events : List WatchEvent := []

namespace Environment

/-- Answer a call without a fault. -/
def serve (env : Environment) (c : Call) : c.Answer × Environment :=
  let reply := c.perform env.service (env.stamps env.clock) env.store
  (reply.answer,
    { env with
      store := reply.store
      clock := env.clock + 1
      calls := c :: env.calls
      events := env.events ++ reply.events })

/-- Answer a call: by its fault, if it has one, and else by the store or the service. -/
def answer (c : Call) (env : Environment) : c.Answer × Environment :=
  match c.method with
  | none => env.serve c
  | some method =>
      let (fault, faults) := env.faults.next method
      let env := { env with faults }
      match fault.bind fun e => c.failWith e with
      | some failure => (failure, { env with calls := c :: env.calls })
      | none => env.serve c

end Environment
end Reconcile
end RunnerFleet
