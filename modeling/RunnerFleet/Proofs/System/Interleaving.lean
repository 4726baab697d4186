import RunnerFleet.Api.Handler
import RunnerFleet.Proofs.Reconcile.Answers
import RunnerFleet.Reconcile.Pass

/-!
# Everything that writes to one store

Requests, listeners and passes work on one store at the same time.  A pass takes one step when one
of its calls is answered; between two calls anything else may happen.  For each runner set at most
one pass is in progress.  A call may fail without effect, and a pass may be cut off before any call.

Main results:

- `advance_cases`: a pass goes on only with an answer to its next call.
- `of_get?_resume`: which passes are in progress after one of them went on.
- `run_append`: a longer history is a shorter one that goes on.
-/

namespace RunnerFleet

open Reconcile

/-- The interface with its store, and the passes in progress with what each has yet to do. -/
structure System where
  api : Api.State
  passes : KeyMap (Program (Except Reconcile.Error Unit)) := .empty

namespace System

/-- What may happen next. -/
inductive Event where
  /-- The interface answers a request. -/
  | request (stamp : Stamp) (request : Api.Request)
  /-- A daemon stores its runner set, and opens the queue of its listener. -/
  | provide (stamp : Stamp) (set : RunnerSet) (capacity : Nat)
  /-- The listener of a runner set takes its reports, and writes a decision. -/
  | decide (stamp : Stamp) (key : String) (patch : ScalePatch)
  /-- A pass over a runner set begins, unless one is in progress. -/
  | begin (key : String) (suffix : Nat → String)
  /-- The next call of the pass over a runner set is answered. -/
  | serve (key : String) (service : Actions.Service) (stamp : Stamp)
  /-- The next call of the pass over a runner set fails. -/
  | fail (key : String) (e : Store.Error)
  /-- The pass over a runner set is cut off. -/
  | abandon (key : String)

/-- The passes in progress after one of them went on; one that is over is gone. -/
def resume (passes : KeyMap (Program (Except Reconcile.Error Unit))) (key : String) :
    Program (Except Reconcile.Error Unit) → KeyMap (Program (Except Reconcile.Error Unit))
  | .done _ => passes.erase key
  | .call c next => passes.insert key (.call c next)

/-- The pass over a runner set goes on with the answer to its next call, if there is one. -/
def advance (sys : System) (key : String) (answer : (c : Call) → Option (c.Answer × Store)) :
    System :=
  match (sys.passes.get? key).bind (Program.answerNext answer) with
  | some (_, rest, store) => { api := { sys.api with store }, passes := resume sys.passes key rest }
  | none => sys

/-- What becomes of everything when something happens. -/
def step (sys : System) : Event → System
  | .request stamp request => { sys with api := (sys.api.respond stamp request).state }
  | .provide stamp set capacity =>
      { sys with
        api :=
          { store := (sys.api.store.perform stamp (.createSet set)).store
            queues := sys.api.queues.register set.key capacity } }
  | .decide stamp key patch =>
      { sys with
        api :=
          { store :=
              (sys.api.store.perform stamp (.patchSpec key patch.replicas patch.patchId)).store
            queues := (sys.api.queues.drain key).2 } }
  | .begin key suffix =>
      if sys.passes.contains key then sys
      else { sys with passes := sys.passes.insert key (pass suffix key) }
  | .serve key service stamp =>
      sys.advance key fun c =>
        let reply := c.perform service stamp sys.api.store
        some (reply.answer, reply.store)
  | .fail key e => sys.advance key fun c => (c.failWith e).map fun answer => (answer, sys.api.store)
  | .abandon key => { sys with passes := sys.passes.erase key }

/-- Everything after these events, from an empty store. -/
def run (events : List Event) : System :=
  events.foldl step { api := {} }

/-- If a pass goes on, its next call was answered. -/
theorem advance_cases (sys : System) (key : String)
    (answer : (c : Call) → Option (c.Answer × Store)) :
    sys.advance key answer = sys ∨
      ∃ c next reply store, sys.passes.get? key = some (.call c next) ∧
        answer c = some (reply, store) ∧
        sys.advance key answer =
          { api := { sys.api with store }, passes := resume sys.passes key (next reply) } := by
  unfold advance
  split
  · rename_i e rest store hgone
    obtain ⟨p, hpass, hnext⟩ := Option.bind_eq_some_iff.1 hgone
    obtain ⟨c, next, reply, after, rfl, hreply, heq⟩ := Program.answerNext_eq_some hnext
    cases heq
    exact Or.inr ⟨c, next, reply, store, hpass, hreply, rfl⟩
  · exact Or.inl rfl

/-- A pass that is in progress after one went on is what is left of that one, or another that was in
progress before. -/
theorem of_get?_resume {passes : KeyMap (Program (Except Reconcile.Error Unit))} {key k : String}
    {p q : Program (Except Reconcile.Error Unit)} (h : (resume passes key p).get? k = some q) :
    k = key ∧ q = p ∨ k ≠ key ∧ passes.get? k = some q := by
  cases p with
  | done result =>
      exact Or.inr (KeyMap.get?_erase_eq_some_iff.1 h)
  | call c next =>
      exact KeyMap.get?_insert_eq_some_iff.1 h

theorem run_append (events : List Event) (event : Event) :
    run (events ++ [event]) = (run events).step event := by
  rw [run, List.foldl_append]
  rfl

end System
end RunnerFleet
