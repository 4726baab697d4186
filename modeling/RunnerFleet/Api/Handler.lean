import RunnerFleet.Api.Message
import RunnerFleet.Api.Queues
import RunnerFleet.Api.Route
import RunnerFleet.Store.Operation

/-!
# Answers to requests

A request names a route and what is asked of it. Unknown routes and methods are answered first, then
a path with names that are no text, then a body that cannot be read. What is left asks the store, or
sends a report to the queue of a listener.

Main results:

- `allows_decoded`: decoding the names of a route leaves what may be asked of it.
-/

namespace RunnerFleet
namespace Api

/-- What the interface works on. -/
structure State where
  store : Store := {}
  queues : Queues := .empty

/-- The response to a request, and what it changed. -/
structure Outcome where
  /-- There is no response while the request waits for room in a queue. -/
  response : Option Response
  state : State
  events : List WatchEvent := []

namespace State

/-- Answer without a change. -/
def reply (s : State) (response : Response) : Outcome :=
  ⟨some response, s, []⟩

/-- Ask the store, and turn its answer into the response. -/
def ask (s : State) (stamp : Stamp) (op : Store.Operation) (reply : op.Answer → Response) :
    Outcome :=
  let o := s.store.perform stamp op
  let response :=
    match o.result with
    | .ok answer => reply answer
    | .error e => .ofStoreError e
  ⟨some response, { s with store := o.store }, o.events⟩

/-- The key of the runner set with these names. -/
def setKey (namespaceName name : String) : String :=
  namespaceName ++ "/" ++ name

/-! ## What is asked -/

/-- There is no such runner set. -/
def noSet : Response := .error 404 "runner set not found"

/-- List all runner sets. -/
def listSets (s : State) : Outcome :=
  s.reply (.data 200 (.array (s.store.sets.values.map RunnerSet.toJson)))

/-- Show a runner set. -/
def showSet (s : State) (key : String) : Outcome :=
  match s.store.getSet key with
  | some set => s.reply (.data 200 set.toJson)
  | none => s.reply noSet

/-- List the runners of a runner set. -/
def listRunners (s : State) (key : String) : Outcome :=
  match s.store.getSet key with
  | some _ => s.reply (.data 200 (.array ((s.store.runnersOf key).map Runner.toJson)))
  | none => s.reply noSet

/-- Store a new runner set, if its names are such that its key is its own. -/
def createSet (s : State) (stamp : Stamp) (set : RunnerSet) : Outcome :=
  let m := set.metadata
  if m.name = "" || m.namespaceName = "" then
    s.reply (.error 400 "name and namespace are required")
  else if !isValidName m.name || !isValidName m.namespaceName then
    s.reply (.error 400 "name and namespace must not contain '/' or ':'")
  else s.ask stamp (.createSet set) fun created => .data 201 created.toJson

/-- Request the removal of a runner set. -/
def deleteSet (s : State) (stamp : Stamp) (key : String) : Outcome :=
  s.ask stamp (.deleteSet key) fun
    | some set => .data 202 set.toJson
    | none => .data 200 (.string "deleted")

/-- Record the status that a runner reports. -/
def reportStatus (s : State) (stamp : Stamp) (key runner : String) (status : RunnerStatus) :
    Outcome :=
  s.ask stamp (.updateRunnerStatus key runner status) fun updated => .data 200 updated.toJson

/-- Send a report to the listener of a runner set. -/
def submitBatch (s : State) (key : String) (batch : JobBatch) : Outcome :=
  match s.queues.send? key batch with
  | none => s.reply (.error 409 ("no listener for runner set " ++ key))
  | some (.accepted queues) =>
      ⟨some (.data 202 batch.toJson), { s with queues }, []⟩
  | some .full => ⟨none, s, []⟩
  | some .closed => s.reply (.error 503 "listener is not running")

/-! ## Requests -/

/-- Go on with the body of a request. -/
def withBody {α : Type} (s : State) (request : Request) (reader : Document.Reader α)
    (next : α → Outcome) : Outcome :=
  match request.read reader with
  | .ok a => next a
  | .error rejection => s.reply (.rejected rejection)

/-- Answer a request whose route allows its method; the names of the route are decoded. -/
def handle (s : State) (stamp : Stamp) (request : Request) : Route → Outcome
  | .runnerSets =>
      if request.method = .post then
        s.withBody request RunnerSet.reader (s.createSet stamp)
      else s.listSets
  | .runnerSet namespaceName name =>
      if request.method = .delete then s.deleteSet stamp (setKey namespaceName name)
      else s.showSet (setKey namespaceName name)
  | .runners namespaceName name => s.listRunners (setKey namespaceName name)
  | .batches namespaceName name =>
      s.withBody request JobBatch.reader (s.submitBatch (setKey namespaceName name))
  | .runnerStatus namespaceName name runner =>
      s.withBody request RunnerStatus.reader (s.reportStatus stamp (setKey namespaceName name) runner)
  | .health => s.reply (.data 200 (.string "ok"))

/-- Answer a request with a body, if the response has one. -/
def respondInFull (s : State) (stamp : Stamp) (request : Request) : Outcome :=
  match Route.ofTarget? request.target with
  | none => s.reply { status := 404 }
  | some route =>
      if !route.allows request.method then s.reply { status := 405 }
      else
        match route.decoded? with
        | none => s.reply (.rejected .badPath)
        | some route => s.handle stamp request route

/-- Answer a request. One that asks for the head of a response gets no body. -/
def respond (s : State) (stamp : Stamp) (request : Request) : Outcome :=
  let o := s.respondInFull stamp request
  if request.method = .head then { o with response := o.response.map Response.headOnly } else o

/-- Percent-decoding a route changes the names in it, not the methods it allows. -/
theorem allows_decoded {route decoded : Route} (h : route.decoded? = some decoded)
    (m : Http.Method) : decoded.allows m = route.allows m := by
  cases route with
  | runnerSets =>
      injection h with h
      rw [← h]
  | health =>
      injection h with h
      rw [← h]
  | runnerStatus _ _ _ =>
      simp only [Route.decoded?, Option.bind_eq_bind, Option.bind_eq_some_iff, Option.pure_def,
        Option.some.injEq] at h
      obtain ⟨_, _, _, _, _, _, rfl⟩ := h
      rfl
  | runnerSet _ _ =>
      simp only [Route.decoded?, Option.bind_eq_bind, Option.bind_eq_some_iff, Option.pure_def,
        Option.some.injEq] at h
      obtain ⟨_, _, _, _, rfl⟩ := h
      rfl
  | runners _ _ =>
      simp only [Route.decoded?, Option.bind_eq_bind, Option.bind_eq_some_iff, Option.pure_def,
        Option.some.injEq] at h
      obtain ⟨_, _, _, _, rfl⟩ := h
      rfl
  | batches _ _ =>
      simp only [Route.decoded?, Option.bind_eq_bind, Option.bind_eq_some_iff, Option.pure_def,
        Option.some.injEq] at h
      obtain ⟨_, _, _, _, rfl⟩ := h
      rfl

end State
end Api
end RunnerFleet
