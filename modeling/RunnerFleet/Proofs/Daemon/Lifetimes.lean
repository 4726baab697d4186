import RunnerFleet.Config.Basic
import RunnerFleet.Proofs.Reconcile.Answers
import RunnerFleet.Reconcile.Pass
import RunnerFleet.Scaling.Listener

/-!
# Lifetimes of daemons over one store

One daemon after the other serves the same runner set.  Each starts with a listener that has decided
nothing yet, and finds the set as the one before has left it.  While it lives, its listener takes
reports and writes decisions, passes go on call by call, and the runners report.

Beside the state proper, three notes are kept that no step looks at: which decision is stored, which
decisions were written, and for which decision each runner was created.

Main results:

- `takeBatch_applied`, `takeBatch_failed`, `takeBatch_written`, `takeBatch_rejected`: what becomes of
  a report.
- `advance_cases`: a pass goes on only with an answer to its next call.
-/

namespace RunnerFleet
namespace Daemon

open Reconcile

/-- The configurations of the daemons, one after the other; all are for the same runner set. -/
structure Plan where
  config : Nat → Config
  sameSet : ∀ i, (config i).runnerSet.key = (config 0).runnerSet.key

namespace Plan

/-- The key of the runner set that is served. -/
def key (plan : Plan) : String :=
  (plan.config 0).runnerSet.key

/-- The bounds of a lifetime. -/
def bounds (plan : Plan) (lifetime : Nat) : Scaling.Bounds :=
  (plan.config lifetime).bounds

@[simp]
theorem key_runnerSet (plan : Plan) (lifetime : Nat) :
    (plan.config lifetime).runnerSet.key = plan.key :=
  plan.sameSet lifetime

end Plan

/-- A decision, and the lifetime in which it was made. -/
structure Origin where
  lifetime : Nat
  patch : ScalePatch
deriving DecidableEq

/-- A pass in progress: what it has yet to do, and the decision that it has read. -/
structure Progress where
  program : Program (Except Reconcile.Error Unit)
  read : Option Origin := none

/-- What is left of a pass; nothing if it is over. -/
def Progress.remaining : Progress → Option Progress
  | ⟨.done _, _⟩ => none
  | ⟨.call c next, read⟩ => some ⟨.call c next, read⟩

/-- The store with the daemon that lives now. -/
structure Lives where
  store : Store := {}
  lifetime : Nat := 0
  listener : Scaling.Listener
  pass : Option Progress := none
  /-- Which decision is stored. -/
  current : Origin
  /-- The decisions that were written, in order. -/
  written : List Origin := []
  /-- For which decision each runner was created, by its key. -/
  origins : KeyMap Origin := .empty

namespace Lives

/-- What may happen next. -/
inductive Event where
  /-- The listener takes a report; its write fails if there is an error. -/
  | batch (stamp : Stamp) (batch : JobBatch) (fault : Option Store.Error)
  /-- A runner reports its status. -/
  | report (stamp : Stamp) (name : String) (status : RunnerStatus)
  /-- A pass begins, unless one is in progress. -/
  | begin (suffix : Nat → String)
  /-- The next call of the pass is answered. -/
  | serve (service : Actions.Service) (stamp : Stamp)
  /-- The next call of the pass fails. -/
  | fail (e : Store.Error)
  /-- The pass is cut off. -/
  | abandon
  /-- The daemon ends, and the next one starts. -/
  | restart (stamp : Stamp)

/-! ## Listeners -/

/-- Write a decision, unless that fails. -/
def write (key : String) (stamp : Stamp) (fault : Option Store.Error) (patch : ScalePatch) :
    StateM Store (Except Store.Error Unit) :=
  fun s =>
    match fault with
    | some e => (.error e, s)
    | none =>
        let o := s.perform stamp (.patchSpec key patch.replicas patch.patchId)
        (o.result.map fun _ => (), o.store)

/-- The listener takes a report. -/
def takeBatch (plan : Plan) (l : Lives) (stamp : Stamp) (batch : JobBatch)
    (fault : Option Store.Error) : Lives :=
  let ((result, listener), store) :=
    ((Scaling.Listener.process (write plan.key stamp fault) l.listener batch).run l.store).run
  match result with
  | .ok patch =>
      { l with
        store
        listener
        current := ⟨l.lifetime, patch⟩
        written := l.written ++ [⟨l.lifetime, patch⟩] }
  | .error _ => { l with store, listener }

/-! ## Passes -/

/-- What a pass has read, after one more exchange: what is asked for by the set, and in which
lifetime that was decided. -/
def noteRead (current : Origin) (read : Option Origin) : Exchange → Option Origin
  | ⟨.getSet _, .ok (some set)⟩ =>
      some ⟨current.lifetime, ⟨set.spec.replicas, set.spec.patchId⟩⟩
  | _ => read

/-- The notes about runners, after one more exchange of a pass that has read this decision. -/
def noteCreated (key : String) (read : Option Origin) (origins : KeyMap Origin) :
    Exchange → KeyMap Origin
  | ⟨.createRunner r, .ok _⟩ =>
      match read with
      | some origin => origins.insert (Store.runnerKey key r.name) origin
      | none => origins
  | _ => origins

/-- The pass goes on with the answer to its next call, if there is one. -/
def advance (plan : Plan) (l : Lives) (answer : (c : Call) → Option (c.Answer × Store)) : Lives :=
  match l.pass with
  | some ⟨program, read⟩ =>
      match program.answerNext answer with
      | some (e, rest, store) =>
          { l with
            store
            pass := Progress.remaining ⟨rest, noteRead l.current read e⟩
            origins := noteCreated plan.key read l.origins e }
      | none => l
  | none => l

/-! ## Lifetimes -/

/-- A daemon starts with this number: it stores its runner set unless it is there, and its listener
has decided nothing yet. -/
def launch (plan : Plan) (l : Lives) (lifetime : Nat) (stamp : Stamp) : Lives :=
  let listener := { bounds := plan.bounds lifetime }
  match l.store.getSet plan.key with
  | some _ => { l with lifetime, listener, pass := none }
  | none =>
      { l with
        store := (l.store.perform stamp (.createSet (plan.config lifetime).runnerSet)).store
        lifetime
        listener
        pass := none
        current := ⟨lifetime, ⟨0, 0⟩⟩ }

/-- The first daemon starts on an empty store. -/
def first (plan : Plan) (stamp : Stamp) : Lives :=
  launch plan { listener := { bounds := plan.bounds 0 }, current := ⟨0, ⟨0, 0⟩⟩ } 0 stamp

/-- What becomes of everything when something happens. -/
def step (plan : Plan) (l : Lives) : Event → Lives
  | .batch stamp batch fault => l.takeBatch plan stamp batch fault
  | .report stamp name status =>
      { l with store := (l.store.perform stamp (.updateRunnerStatus plan.key name status)).store }
  | .begin suffix =>
      match l.pass with
      | some _ => l
      | none => { l with pass := some { program := Reconcile.pass suffix plan.key } }
  | .serve service stamp =>
      l.advance plan fun c =>
        let reply := c.perform service stamp l.store
        some (reply.answer, reply.store)
  | .fail e => l.advance plan fun c => (c.failWith e).map fun answer => (answer, l.store)
  | .abandon => { l with pass := none }
  | .restart stamp => l.launch plan (l.lifetime + 1) stamp

/-- Everything after these events, since the first daemon has started. -/
def run (plan : Plan) (stamp : Stamp) (events : List Event) : Lives :=
  events.foldl (step plan) (first plan stamp)

/-- The same set for every daemon, with these bounds. -/
def samePlan (minRunners maxRunners : Nat) : Plan where
  config _ := { group := { name := "linux", namespaceName := "ci", minRunners, maxRunners } }
  sameSet _ := rfl

/-! ## What may come of a step -/

section Cases

variable (plan : Plan) (l : Lives) (stamp : Stamp) (batch : JobBatch)

/-- A decision equal to the last one written is not written again. -/
theorem takeBatch_applied (fault : Option Store.Error)
    (h : l.listener.applied = some (l.listener.decisionFor batch)) :
    l.takeBatch plan stamp batch fault =
      { l with
        listener := { l.listener with decision := some (l.listener.decisionFor batch) }
        current := ⟨l.lifetime, l.listener.decisionFor batch⟩
        written := l.written ++ [⟨l.lifetime, l.listener.decisionFor batch⟩] } := by
  rw [takeBatch, Scaling.Listener.process_of_applied _ h]
  rfl

/-- A decision whose write fails is made, but not written. -/
theorem takeBatch_failed (e : Store.Error)
    (h : l.listener.applied ≠ some (l.listener.decisionFor batch)) :
    l.takeBatch plan stamp batch (some e) =
      { l with
        listener := { l.listener with decision := some (l.listener.decisionFor batch) } } := by
  rw [takeBatch, Scaling.Listener.process_run, if_neg h]
  rfl

/-- A decision whose write is accepted is stored. -/
theorem takeBatch_written (h : l.listener.applied ≠ some (l.listener.decisionFor batch))
    {new : RunnerSet}
    (hok : (l.store.perform stamp (.patchSpec plan.key (l.listener.decisionFor batch).replicas
      (l.listener.decisionFor batch).patchId)).result = .ok new) :
    l.takeBatch plan stamp batch none =
      { l with
        store := (l.store.perform stamp (.patchSpec plan.key
          (l.listener.decisionFor batch).replicas (l.listener.decisionFor batch).patchId)).store
        listener :=
          { l.listener with
            decision := some (l.listener.decisionFor batch)
            applied := some (l.listener.decisionFor batch) }
        current := ⟨l.lifetime, l.listener.decisionFor batch⟩
        written := l.written ++ [⟨l.lifetime, l.listener.decisionFor batch⟩] } := by
  rw [takeBatch, Scaling.Listener.process_run, if_neg h]
  simp only [write, StateT.run, hok]
  rfl

/-- A decision whose write is rejected is made, but not written. -/
theorem takeBatch_rejected (h : l.listener.applied ≠ some (l.listener.decisionFor batch))
    {e : Store.Error}
    (herror : (l.store.perform stamp (.patchSpec plan.key (l.listener.decisionFor batch).replicas
      (l.listener.decisionFor batch).patchId)).result = .error e) :
    l.takeBatch plan stamp batch none =
      { l with
        store := (l.store.perform stamp (.patchSpec plan.key
          (l.listener.decisionFor batch).replicas (l.listener.decisionFor batch).patchId)).store
        listener := { l.listener with decision := some (l.listener.decisionFor batch) } } := by
  rw [takeBatch, Scaling.Listener.process_run, if_neg h]
  simp only [write, StateT.run, herror]
  rfl

/-- A report leaves the store as it is, or writes the decision that it leads to. -/
theorem takeBatch_cases (fault : Option Store.Error) :
    ∃ store listener current written,
      l.takeBatch plan stamp batch fault = { l with store, listener, current, written } ∧
        listener.bounds = l.listener.bounds ∧
        (store = l.store ∨ store = (l.store.perform stamp (.patchSpec plan.key
          (l.listener.decisionFor batch).replicas (l.listener.decisionFor batch).patchId)).store) := by
  by_cases happlied : l.listener.applied = some (l.listener.decisionFor batch)
  · rw [takeBatch_applied plan l stamp batch fault happlied]
    exact ⟨_, _, _, _, rfl, rfl, Or.inl rfl⟩
  · cases fault with
    | some e =>
        rw [takeBatch_failed plan l stamp batch e happlied]
        exact ⟨_, _, _, _, rfl, rfl, Or.inl rfl⟩
    | none =>
        cases hresult : (l.store.perform stamp (.patchSpec plan.key
            (l.listener.decisionFor batch).replicas
            (l.listener.decisionFor batch).patchId)).result with
        | ok new =>
            rw [takeBatch_written plan l stamp batch happlied hresult]
            exact ⟨_, _, _, _, rfl, rfl, Or.inr rfl⟩
        | error e =>
            rw [takeBatch_rejected plan l stamp batch happlied hresult]
            exact ⟨_, _, _, _, rfl, rfl, Or.inr rfl⟩

/-- If the pass goes on, its next call was answered. -/
theorem advance_cases (answer : (c : Call) → Option (c.Answer × Store)) :
    l.advance plan answer = l ∨
      ∃ c next read reply store, l.pass = some ⟨.call c next, read⟩ ∧
        answer c = some (reply, store) ∧
        l.advance plan answer =
          { l with
            store
            pass := Progress.remaining ⟨next reply, noteRead l.current read ⟨c, reply⟩⟩
            origins := noteCreated plan.key read l.origins ⟨c, reply⟩ } := by
  unfold advance
  split
  · rename_i program read hpass
    split
    · rename_i e rest store hgone
      obtain ⟨c, next, reply, after, rfl, hreply, heq⟩ := Program.answerNext_eq_some hgone
      cases heq
      exact Or.inr ⟨c, next, read, reply, store, hpass, hreply, rfl⟩
    · exact Or.inl rfl
  · exact Or.inl rfl

end Cases

end Lives
end Daemon
end RunnerFleet
