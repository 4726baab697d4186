import RunnerFleet.Api.Handler

/-!
# What requests do to the store

A request that changes the store does so by one operation: it stores a new runner set, requests the
removal of one, or records the status of a runner.  What it announces is what that operation
announces.

Main results:

- `touched_respond`: a request leaves the store alone, or carries out one of these operations.
- `respond_store_congr`: what becomes of the store does not depend on the queues.
-/

namespace RunnerFleet
namespace Api

/-- The route that a request addresses, with the names in it decoded. -/
def Request.route? (r : Request) : Option Route :=
  (Route.ofTarget? r.target).bind Route.decoded?

/-- The operations by which a request may change the store, by the route that it addresses. -/
inductive Writes (request : Request) : Route → Store.Operation → Prop where
  | createSet (set : RunnerSet) (posted : request.method = .post) :
      Writes request .runnerSets (.createSet set)
  | deleteSet (namespaceName name : String) (deleted : request.method = .delete) :
      Writes request (.runnerSet namespaceName name) (.deleteSet (State.setKey namespaceName name))
  | updateRunnerStatus (namespaceName name runner : String) (status : RunnerStatus) :
      Writes request (.runnerStatus namespaceName name runner)
        (.updateRunnerStatus (State.setKey namespaceName name) runner status)

/-- A request may change the store by this operation. -/
def Request.MayWrite (request : Request) (op : Store.Operation) : Prop :=
  ∃ route, request.route? = some route ∧ Writes request route op

/-- An outcome leaves the store alone, or is that of one operation that may be asked for. -/
def Touched (allowed : Store.Operation → Prop) (stamp : Stamp) (before : Store) (o : Outcome) :
    Prop :=
  o.state.store = before ∧ o.events = [] ∨
    ∃ op, allowed op ∧ o.state.store = (before.perform stamp op).store ∧
      o.events = (before.perform stamp op).events

namespace State

variable {stamp : Stamp} {allowed : Store.Operation → Prop}

theorem touched_reply (s : State) (response : Response) :
    Touched allowed stamp s.store (s.reply response) :=
  Or.inl ⟨rfl, rfl⟩

theorem touched_ask (s : State) {op : Store.Operation} (h : allowed op)
    (reply : op.Answer → Response) : Touched allowed stamp s.store (s.ask stamp op reply) :=
  Or.inr ⟨op, h, rfl, rfl⟩

theorem touched_withBody {α : Type} {s : State} {request : Request} {reader : Document.Reader α}
    {next : α → Outcome} (h : ∀ a, Touched allowed stamp s.store (next a)) :
    Touched allowed stamp s.store (s.withBody request reader next) := by
  unfold withBody
  split
  · exact h _
  · exact touched_reply s _

theorem touched_createSet (s : State) {set : RunnerSet} (h : allowed (.createSet set)) :
    Touched allowed stamp s.store (s.createSet stamp set) := by
  unfold createSet
  dsimp only
  split
  · exact touched_reply s _
  · split
    · exact touched_reply s _
    · exact touched_ask s h _

theorem touched_submitBatch (s : State) (key : String) (batch : JobBatch) :
    Touched allowed stamp s.store (s.submitBatch key batch) := by
  unfold submitBatch
  split <;> exact Or.inl ⟨rfl, rfl⟩

/-- What a request of each route does to the store. -/
theorem touched_handle (s : State) (request : Request) (route : Route) :
    Touched (Writes request route) stamp s.store (s.handle stamp request route) := by
  cases route with
  | runnerSets =>
      rw [handle]
      split
      · rename_i hpost
        exact touched_withBody fun set => touched_createSet s (.createSet set hpost)
      · exact touched_reply s _
  | runnerSet namespaceName name =>
      rw [handle]
      split
      · rename_i hdelete
        exact touched_ask s (.deleteSet namespaceName name hdelete) _
      · unfold showSet
        split <;> exact touched_reply s _
  | runners namespaceName name =>
      rw [handle, listRunners]
      split <;> exact touched_reply s _
  | batches namespaceName name =>
      exact touched_withBody (touched_submitBatch s _)
  | runnerStatus namespaceName name runner =>
      exact touched_withBody fun status =>
        touched_ask s (.updateRunnerStatus namespaceName name runner status) _
  | health => exact touched_reply s _

theorem Touched.mono {allowed' : Store.Operation → Prop} {before : Store} {o : Outcome}
    (h : Touched allowed stamp before o) (himp : ∀ op, allowed op → allowed' op) :
    Touched allowed' stamp before o :=
  h.imp_right fun ⟨op, hop, heffect⟩ => ⟨op, himp op hop, heffect⟩

/-- A request leaves the store alone, or changes it by one of the operations that it may ask for. -/
theorem touched_respond (s : State) (stamp : Stamp) (request : Request) :
    Touched request.MayWrite stamp s.store (s.respond stamp request) := by
  have hfull : Touched request.MayWrite stamp s.store (s.respondInFull stamp request) := by
    unfold respondInFull
    split
    · exact touched_reply s _
    · rename_i route htarget
      split
      · exact touched_reply s _
      · split
        · exact touched_reply s _
        · rename_i decoded hdecoded
          have hroute : request.route? = some decoded :=
            Option.bind_eq_some_iff.2 ⟨route, htarget, hdecoded⟩
          exact Touched.mono (touched_handle s request decoded)
            fun op hop => ⟨decoded, hroute, hop⟩
  unfold respond
  dsimp only
  split <;> exact hfull

/-! ## Queues -/

/-- What a request of each route makes of the store does not depend on the queues. -/
theorem handle_store_congr (store : Store) (queues queues' : Queues) (request : Request)
    (route : Route) :
    (handle ⟨store, queues⟩ stamp request route).state.store =
      (handle ⟨store, queues'⟩ stamp request route).state.store := by
  cases route with
  | runnerSets =>
      simp only [handle, withBody, createSet, listSets]
      repeat' split
      all_goals rfl
  | runnerSet namespaceName name =>
      simp only [handle, deleteSet, showSet]
      repeat' split
      all_goals rfl
  | runners namespaceName name =>
      simp only [handle, listRunners]
      split <;> rfl
  | batches namespaceName name =>
      simp only [handle, withBody, submitBatch]
      repeat' split
      all_goals rfl
  | runnerStatus namespaceName name runner =>
      simp only [handle, withBody, reportStatus]
      split <;> rfl
  | health => rfl

/-- What a request makes of the store does not depend on the queues. -/
theorem respond_store_congr (store : Store) (queues queues' : Queues) (stamp : Stamp)
    (request : Request) :
    (respond ⟨store, queues⟩ stamp request).state.store =
      (respond ⟨store, queues'⟩ stamp request).state.store := by
  have hfull : (respondInFull ⟨store, queues⟩ stamp request).state.store =
      (respondInFull ⟨store, queues'⟩ stamp request).state.store := by
    simp only [respondInFull]
    repeat' split
    · rfl
    · rfl
    · rfl
    · exact handle_store_congr store queues queues' request _
  simp only [respond]
  split <;> exact hfull

end State
end Api
end RunnerFleet
