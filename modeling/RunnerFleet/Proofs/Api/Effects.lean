import RunnerFleet.Proofs.Api.Requests
import RunnerFleet.Proofs.Store.Atomicity

/-!
# Requests are carried out whole or not at all

The status of a response says what came of the request.  An error means that nothing was changed and
nothing announced.  Success means that the one thing that was asked for was done: one place of the
store was written, or one report was put at the end of one queue; where something was only asked, or
a removal was requested again, nothing was changed.

Main results:

- `settles_ask`: an operation of the store is carried out whole, or answered by an error.
- `settles_handle`, `settles_respond`: how a request is settled.
- `isAccepted_createSet_iff`: which runner sets are stored.
- `requests_all_or_nothing`: what each status says, for every request.
-/

namespace RunnerFleet
namespace Api

/-- Whether the response says that the request was carried out. -/
def Response.isSuccess (r : Response) : Bool :=
  200 ≤ r.status ∧ r.status < 300

/-- An error is no success. -/
theorem Response.isSuccess_of_isError {r : Response} (h : r.isError = true) :
    r.isSuccess = false := by
  simp only [isError, decide_eq_true_eq] at h
  simp only [isSuccess, decide_eq_false_iff_not]
  omega

/-- The response to the request says that it was carried out. -/
def Outcome.IsAccepted (o : Outcome) : Prop :=
  ∃ response, o.response = some response ∧ response.isSuccess = true

namespace State

/-! ## Effects -/

/-- Nothing was changed, and nothing announced. -/
structure Untouched (before after : State) (events : List WatchEvent) : Prop where
  state : after = before
  events : events = []

/-- One place of the store was written, which is announced once; all else is as before. -/
structure WritesOnce (place : Store.Place) (before after : State) (events : List WatchEvent) :
    Prop where
  queues : after.queues = before.queues
  others : ∀ p, p ≠ place → after.store.look p = before.store.look p
  changed : after.store.look place ≠ before.store.look place
  announced : ∃ e, events = [e] ∧ Store.Tells e (before.store.look place) (after.store.look place)

/-- One report was put at the end of the queue of one runner set; all else is as before. -/
structure Appends (key : String) (batch : JobBatch) (before after : State)
    (events : List WatchEvent) : Prop where
  store : after.store = before.store
  queue : ∃ q, before.queues.get? key = some q ∧
    after.queues.get? key = some { q with batches := q.batches ++ [batch] }
  others : ∀ k, k ≠ key → after.queues.get? k = before.queues.get? k
  events : events = []

/-- The runner set is stored, its removal was requested, and finalizers still hold it. -/
def AwaitsRemoval (s : State) (key : String) : Prop :=
  ∃ set, s.store.getSet key = some set ∧ set.metadata.isWaiting = true

/-- A runner set may be stored: its names are valid, and its key is free. -/
structure Accepts (s : State) (set : RunnerSet) : Prop where
  name : isValidName set.metadata.name = true
  namespaceName : isValidName set.metadata.namespaceName = true
  free : s.store.getSet set.key = none

/-- What comes of a request that is carried out, by the route that it addresses. -/
def Effect (request : Request) (before after : State) (events : List WatchEvent) : Route → Prop
  | .runnerSets =>
      if request.method = .post then
        ∃ set, request.read RunnerSet.reader = .ok set ∧ before.Accepts set ∧
          WritesOnce (.sets set.key) before after events
      else Untouched before after events
  | .runnerSet namespaceName name =>
      if request.method = .delete then
        (before.AwaitsRemoval (setKey namespaceName name) → Untouched before after events) ∧
          (¬ before.AwaitsRemoval (setKey namespaceName name) →
            WritesOnce (.sets (setKey namespaceName name)) before after events)
      else Untouched before after events
  | .runnerStatus namespaceName name runner =>
      WritesOnce (.runners (Store.runnerKey (setKey namespaceName name) runner)) before after events
  | .batches namespaceName name =>
      ∃ batch, request.read JobBatch.reader = .ok batch ∧
        Appends (setKey namespaceName name) batch before after events
  | .runners _ _ | .health => Untouched before after events

/-- How a request is settled: it is refused, waits for room in a queue, or is carried out. -/
inductive Settles (s : State) (o : Outcome) (effect : State → List WatchEvent → Prop) : Prop where
  | refused {response : Response} (answered : o.response = some response)
      (error : response.isError = true) (untouched : Untouched s o.state o.events)
  | waits (unanswered : o.response = none) (untouched : Untouched s o.state o.events)
  | done {response : Response} (answered : o.response = some response)
      (success : response.isSuccess = true) (effect : effect o.state o.events)

section Settles

variable {s : State} {effect : State → List WatchEvent → Prop}

theorem settles_reply_of_isError {response : Response} (h : response.isError = true) :
    Settles s (s.reply response) effect :=
  .refused rfl h ⟨rfl, rfl⟩

theorem settles_reply_of_isSuccess {response : Response} (h : response.isSuccess = true)
    (heffect : effect s []) : Settles s (s.reply response) effect :=
  .done rfl h heffect

theorem Settles.mono {o : Outcome} {effect' : State → List WatchEvent → Prop}
    (h : Settles s o effect) (himp : ∀ after events, effect after events → effect' after events) :
    Settles s o effect' := by
  cases h with
  | refused answered error untouched => exact .refused answered error untouched
  | waits unanswered untouched => exact .waits unanswered untouched
  | done answered success heffect => exact .done answered success (himp _ _ heffect)

/-- The head of a response says the same. -/
theorem Settles.headOnly {o : Outcome} (h : Settles s o effect) :
    Settles s { o with response := o.response.map Response.headOnly } effect := by
  cases h with
  | @refused response answered error untouched =>
      have answered' : o.response.map Response.headOnly = some response.headOnly := by
        rw [answered, Option.map_some]
      exact .refused answered' error untouched
  | waits unanswered untouched => exact .waits (by rw [unanswered, Option.map_none]) untouched
  | @done response answered success heffect =>
      have answered' : o.response.map Response.headOnly = some response.headOnly := by
        rw [answered, Option.map_some]
      exact .done answered' success heffect

/-- Where there is no success nothing was changed. -/
theorem Settles.untouched {o : Outcome} (h : Settles s o effect)
    (hfailed : ∀ response, o.response = some response → response.isSuccess = false) :
    Untouched s o.state o.events := by
  cases h with
  | refused answered error untouched => exact untouched
  | waits unanswered untouched => exact untouched
  | done answered success => exact absurd success (by simp [hfailed _ answered])

/-- Where there is success the request was carried out. -/
theorem Settles.carriedOut {o : Outcome} (h : Settles s o effect) {response : Response}
    (answered : o.response = some response) (hsuccess : response.isSuccess = true) :
    effect o.state o.events := by
  cases h with
  | refused answered' error untouched =>
      obtain rfl := Option.some.inj (answered.symm.trans answered')
      rw [Response.isSuccess_of_isError error] at hsuccess
      cases hsuccess
  | waits unanswered untouched => cases answered.symm.trans unanswered
  | done _ _ heffect => exact heffect

/-- A request whose body is needed is settled if every body is that can be read. -/
theorem settles_withBody {α : Type} {request : Request} {reader : Document.Reader α}
    {next : α → Outcome}
    (h : ∀ a, request.read reader = .ok a → Settles s (next a) effect) :
    Settles s (s.withBody request reader next) effect := by
  unfold withBody
  cases hread : request.read reader with
  | ok a => exact h a hread
  | error rejection =>
      refine settles_reply_of_isError ?_
      cases rejection <;> rfl

end Settles

/-! ## Requests of the store -/

section Ask

variable {s : State} {stamp : Stamp} {op : Store.Operation} {reply : op.Answer → Response}

theorem ask_of_ok {answer : op.Answer} (h : (s.store.perform stamp op).result = .ok answer) :
    s.ask stamp op reply = ⟨some (reply answer), { s with store := (s.store.perform stamp op).store },
      (s.store.perform stamp op).events⟩ := by
  simp only [ask, h]

theorem ask_of_error {e : Store.Error} (h : (s.store.perform stamp op).result = .error e) :
    s.ask stamp op reply = ⟨some (.ofStoreError e),
      { s with store := (s.store.perform stamp op).store }, (s.store.perform stamp op).events⟩ := by
  simp only [ask, h]

end Ask

/-- The removal of a runner set is requested again exactly if it awaits its removal. -/
theorem repeats_deleteSet_iff (s : State) (key : String) :
    (Store.Operation.deleteSet key).repeats s.store = true ↔ s.AwaitsRemoval key := by
  rw [Store.repeats_iff rfl]
  constructor
  · rintro ⟨-, old, hold, hwaiting⟩
    obtain ⟨set, hset, rfl⟩ := Option.map_eq_some_iff.1 hold
    exact ⟨set, hset, hwaiting⟩
  · rintro ⟨set, hset, hwaiting⟩
    exact ⟨rfl, .set set, Option.map_eq_some_iff.2 ⟨set, hset, rfl⟩, hwaiting⟩

section Store

variable {s : State} (hs : s.store.Reachable) (stamp : Stamp)
include hs

/-- An operation of the store is carried out whole, or answered by an error. -/
theorem settles_ask (op : Store.Operation) {request : Store.Request} {place : Store.Place}
    (h : op.request = some (request, place)) {reply : op.Answer → Response}
    (hreply : ∀ answer, (reply answer).isSuccess = true) :
    Settles s (s.ask stamp op reply) fun after events =>
      if op.repeats s.store then Untouched s after events
      else op.isRefused s.store = false ∧ WritesOnce place s after events := by
  have hacts := Store.perform_acts hs.sound stamp h
  cases hresult : (s.store.perform stamp op).result with
  | error e =>
      obtain ⟨-, hstore, hevents⟩ := hacts.of_error hresult
      rw [ask_of_error hresult, hstore, hevents]
      exact .refused rfl (Response.isError_ofStoreError e) ⟨rfl, rfl⟩
  | ok answer =>
      obtain ⟨hothers, -, hplace⟩ := hacts.of_ok hresult
      have hannounced := Store.announced_of_ok hs.sound stamp h hresult
      rw [ask_of_ok hresult]
      refine .done rfl (hreply answer) ?_
      split
      · rename_i hrepeats
        rw [if_pos hrepeats] at hannounced
        obtain ⟨-, hstore, hevents⟩ := hannounced
        rw [hstore, hevents]
        exact ⟨rfl, rfl⟩
      · rename_i hfirst
        rw [if_neg hfirst] at hannounced
        obtain ⟨e, hevents, htells⟩ := hannounced
        refine ⟨Store.not_isRefused_of_becomes h hplace, rfl, hothers, hplace.changes ?_, e,
          hevents, htells⟩
        rw [hevents]
        exact List.cons_ne_nil e []

/-- A new runner set is stored if it may be. -/
theorem settles_createSet (set : RunnerSet) :
    Settles s (s.createSet stamp set) fun after events =>
      s.Accepts set ∧ WritesOnce (.sets set.key) s after events := by
  unfold createSet
  dsimp only
  split
  · exact settles_reply_of_isError rfl
  · split
    · exact settles_reply_of_isError rfl
    · rename_i hvalid
      simp only [Bool.or_eq_true, Bool.not_eq_true', not_or, Bool.not_eq_false] at hvalid
      refine (settles_ask hs stamp (.createSet set) rfl fun _ => rfl).mono
        fun after events heffect => ?_
      obtain ⟨hfree, hwrites⟩ := heffect
      refine ⟨⟨hvalid.1, hvalid.2, ?_⟩, hwrites⟩
      exact Option.map_eq_none_iff.1 (Option.isSome_eq_false_iff.1 hfree |> Option.isNone_iff_eq_none.1)

/-- The removal of a runner set is requested once. -/
theorem settles_deleteSet (key : String) :
    Settles s (s.deleteSet stamp key) fun after events =>
      (s.AwaitsRemoval key → Untouched s after events) ∧
        (¬ s.AwaitsRemoval key → WritesOnce (.sets key) s after events) := by
  have hrepeats := repeats_deleteSet_iff s key
  refine (settles_ask hs stamp (.deleteSet key) rfl fun answer => ?_).mono
    fun after events heffect => ⟨fun hawaits => ?_, fun hfirst => ?_⟩
  · cases answer <;> rfl
  · rwa [if_pos (hrepeats.2 hawaits)] at heffect
  · rw [if_neg (mt hrepeats.1 hfirst)] at heffect
    exact heffect.2

/-- The status of a runner is recorded. -/
theorem settles_reportStatus (key runner : String) (status : RunnerStatus) :
    Settles s (s.reportStatus stamp key runner status)
      (WritesOnce (.runners (Store.runnerKey key runner)) s) :=
  (settles_ask hs stamp (.updateRunnerStatus key runner status) rfl fun _ => rfl).mono
    fun _ _ heffect => heffect.2

end Store

/-- A report is put at the end of the queue that it is for. -/
theorem settles_submitBatch (s : State) (key : String) (batch : JobBatch) :
    Settles s (s.submitBatch key batch) (Appends key batch s) := by
  unfold submitBatch Queues.send?
  cases hqueue : s.queues.get? key with
  | none => exact settles_reply_of_isError rfl
  | some q =>
      rw [Option.map_some]
      cases hsend : q.send batch with
      | full => exact .waits rfl ⟨rfl, rfl⟩
      | closed => exact settles_reply_of_isError rfl
      | accepted q' =>
          obtain ⟨-, -, rfl⟩ := Queue.send_accepted_iff.1 hsend
          refine .done rfl rfl ⟨rfl, ⟨q, hqueue, ?_⟩, fun k hk => ?_, rfl⟩
          · simp
          · simp [hk]

/-! ## Requests by their routes -/

section Handle

variable {s : State} (hs : s.store.Reachable) (stamp : Stamp) (request : Request)
include hs

/-- How a request is settled whose route allows its method. -/
theorem settles_handle (route : Route) :
    Settles s (s.handle stamp request route) fun after events =>
      Effect request s after events route := by
  cases route with
  | runnerSets =>
      simp only [handle, Effect]
      split
      · refine settles_withBody fun set hread => ?_
        exact (settles_createSet hs stamp set).mono fun _ _ h => ⟨set, hread, h.1, h.2⟩
      · exact settles_reply_of_isSuccess rfl ⟨rfl, rfl⟩
  | runnerSet namespaceName name =>
      simp only [handle, Effect]
      split
      · exact settles_deleteSet hs stamp _
      · unfold showSet
        split
        · exact settles_reply_of_isSuccess rfl ⟨rfl, rfl⟩
        · exact settles_reply_of_isError rfl
  | runners namespaceName name =>
      rw [handle, listRunners]
      split
      · exact settles_reply_of_isSuccess rfl ⟨rfl, rfl⟩
      · exact settles_reply_of_isError rfl
  | batches namespaceName name =>
      refine settles_withBody fun batch hread => ?_
      exact (settles_submitBatch s _ batch).mono fun _ _ h => ⟨batch, hread, h⟩
  | runnerStatus namespaceName name runner =>
      exact settles_withBody fun status _ => settles_reportStatus hs stamp _ runner status
  | health => exact settles_reply_of_isSuccess rfl ⟨rfl, rfl⟩

/-- How a request is settled; only one that addresses a route is carried out. -/
theorem settles_respondInFull :
    Settles s (s.respondInFull stamp request) fun after events =>
      ∃ route, request.route? = some route ∧ route.allows request.method = true ∧
        Effect request s after events route := by
  unfold respondInFull
  split
  · exact settles_reply_of_isError rfl
  · rename_i written htarget
    split
    · exact settles_reply_of_isError rfl
    · rename_i hallowed
      split
      · exact settles_reply_of_isError rfl
      · rename_i route hdecoded
        refine (settles_handle hs stamp request route).mono fun after events heffect => ?_
        refine ⟨route, ?_, ?_, heffect⟩
        · rw [Request.route?, htarget, Option.bind_some, hdecoded]
        · rw [allows_decoded hdecoded]
          simpa using hallowed

theorem settles_respond :
    Settles s (s.respond stamp request) fun after events =>
      ∃ route, request.route? = some route ∧ route.allows request.method = true ∧
        Effect request s after events route := by
  have hfull := settles_respondInFull hs stamp request
  unfold respond
  dsimp only
  split
  · exact hfull.headOnly
  · exact hfull

/-- A request that only asks changes nothing. -/
theorem untouched_of_asking (h : request.method = .get ∨ request.method = .head) :
    Untouched s (s.respond stamp request).state (s.respond stamp request).events := by
  have hpost : request.method ≠ .post := by rcases h with h | h <;> simp [h]
  have hput : request.method ≠ .put := by rcases h with h | h <;> simp [h]
  have hdelete : request.method ≠ .delete := by rcases h with h | h <;> simp [h]
  cases settles_respond hs stamp request with
  | refused _ _ untouched => exact untouched
  | waits _ untouched => exact untouched
  | done _ _ heffect =>
      obtain ⟨route, -, hallowed, heffect⟩ := heffect
      cases route with
      | runnerSets => rwa [Effect, if_neg hpost] at heffect
      | runnerSet _ _ => rwa [Effect, if_neg hdelete] at heffect
      | runners _ _ | health => exact heffect
      | batches _ _ => exact absurd (by simpa [Route.allows] using hallowed) hpost
      | runnerStatus _ _ _ => exact absurd (by simpa [Route.allows] using hallowed) hput

end Handle

/-! ## Which runner sets are stored -/

theorem respond_of_route? (s : State) (stamp : Stamp) {request : Request} {route : Route}
    (h : request.route? = some route) (hallowed : route.allows request.method = true)
    (hhead : request.method ≠ .head) : s.respond stamp request = s.handle stamp request route := by
  obtain ⟨written, htarget, hdecoded⟩ := Option.bind_eq_some_iff.1 h
  rw [allows_decoded hdecoded] at hallowed
  unfold respond respondInFull
  rw [if_neg hhead, htarget]
  dsimp only
  rw [hallowed, hdecoded]
  rfl

/-- A runner set that may be stored is. -/
theorem isAccepted_createSet (s : State) (stamp : Stamp) {set : RunnerSet} (h : s.Accepts set) :
    (s.createSet stamp set).IsAccepted := by
  have hname := isValidName_ne_empty h.name
  have hspace := isValidName_ne_empty h.namespaceName
  have hfree : s.store.sets.get? set.key = none := h.free
  refine ⟨.data 201 (Store.created stamp set).toJson, ?_, rfl⟩
  simp [createSet, hname, hspace, h.name, h.namespaceName, ask, Store.perform, Store.settleSets,
    Store.insertNew, hfree, Store.created]

/-- A request to store a runner set is carried out exactly if its body can be read as a set that may
be stored. -/
theorem isAccepted_respond_iff {s : State} (hs : s.store.Reachable) (stamp : Stamp)
    {request : Request} (hroute : request.route? = some .runnerSets)
    (hmethod : request.method = .post) :
    (s.respond stamp request).IsAccepted ↔
      ∃ set, request.read RunnerSet.reader = .ok set ∧ s.Accepts set := by
  constructor
  · rintro ⟨response, answered, success⟩
    obtain ⟨route, hroute', -, heffect⟩ :=
      (settles_respond hs stamp request).carriedOut answered success
    obtain rfl := Option.some.inj (hroute.symm.trans hroute')
    rw [Effect, if_pos hmethod] at heffect
    obtain ⟨set, hread, haccepts, -⟩ := heffect
    exact ⟨set, hread, haccepts⟩
  · rintro ⟨set, hread, haccepts⟩
    have hhead : request.method ≠ .head := by simp [hmethod]
    rw [respond_of_route? s stamp hroute (by rw [hmethod]; rfl) hhead, handle, if_pos hmethod,
      withBody, hread]
    exact isAccepted_createSet s stamp haccepts

/-- An error, and a request that only asks, change nothing.  A request that is carried out does the
one thing that its route asks for.  A runner set is stored exactly if the body is called JSON, is
small enough and can be read as a runner set, its names are valid, and its key is free. -/
theorem requests_all_or_nothing {s : State} (hs : s.store.Reachable) (stamp : Stamp)
    (request : Request) :
    let o := s.respond stamp request
    (∀ response, o.response = some response → 400 ≤ response.status → o.state = s ∧ o.events = []) ∧
    (o.response = none → o.state = s ∧ o.events = []) ∧
    (request.method = .get ∨ request.method = .head → o.state = s ∧ o.events = []) ∧
    (o.IsAccepted →
      (request.method = .post → request.route? = some .runnerSets →
        ∃ set, request.read RunnerSet.reader = .ok set ∧
          WritesOnce (.sets set.key) s o.state o.events) ∧
      (∀ namespaceName name, request.method = .delete →
        request.route? = some (.runnerSet namespaceName name) →
        (s.AwaitsRemoval (setKey namespaceName name) → o.state = s ∧ o.events = []) ∧
          (¬ s.AwaitsRemoval (setKey namespaceName name) →
            WritesOnce (.sets (setKey namespaceName name)) s o.state o.events)) ∧
      (∀ namespaceName name runner, request.method = .put →
        request.route? = some (.runnerStatus namespaceName name runner) →
        WritesOnce (.runners (Store.runnerKey (setKey namespaceName name) runner)) s o.state
          o.events) ∧
      (∀ namespaceName name, request.method = .post →
        request.route? = some (.batches namespaceName name) →
        ∃ batch, request.read JobBatch.reader = .ok batch ∧
          Appends (setKey namespaceName name) batch s o.state o.events)) ∧
    (request.method = .post → request.route? = some .runnerSets →
      (o.IsAccepted ↔ ∃ set, request.isJson = true ∧
        request.body.utf8ByteSize ≤ Request.sizeLimit ∧
        Json.decode RunnerSet.reader request.body = .ok set ∧
        isValidName set.metadata.name = true ∧ isValidName set.metadata.namespaceName = true ∧
        s.store.getSet set.key = none)) := by
  intro o
  have hsettles := settles_respond hs stamp request
  refine ⟨fun response answered herror => ?_, fun unanswered => ?_, fun hasks => ?_,
    fun ⟨response, answered, success⟩ => ?_, fun hmethod hroute => ?_⟩
  · have huntouched := hsettles.untouched fun r hr => ?_
    · exact ⟨huntouched.state, huntouched.events⟩
    · obtain rfl := Option.some.inj (answered.symm.trans hr)
      exact Response.isSuccess_of_isError (decide_eq_true herror)
  · have huntouched := hsettles.untouched fun r hr => nomatch unanswered.symm.trans hr
    exact ⟨huntouched.state, huntouched.events⟩
  · have huntouched := untouched_of_asking hs stamp request hasks
    exact ⟨huntouched.state, huntouched.events⟩
  · obtain ⟨route, hroute, -, heffect⟩ := hsettles.carriedOut answered success
    rw [hroute]
    refine ⟨fun hmethod h => ?_, fun namespaceName name hmethod h => ?_,
      fun namespaceName name runner _ h => ?_, fun namespaceName name _ h => ?_⟩
    · obtain rfl := Option.some.inj h
      rw [Effect, if_pos hmethod] at heffect
      obtain ⟨set, hread, -, hwrites⟩ := heffect
      exact ⟨set, hread, hwrites⟩
    · obtain rfl := Option.some.inj h
      rw [Effect, if_pos hmethod] at heffect
      exact ⟨fun hawaits => ⟨(heffect.1 hawaits).state, (heffect.1 hawaits).events⟩, heffect.2⟩
    · obtain rfl := Option.some.inj h
      exact heffect
    · obtain rfl := Option.some.inj h
      exact heffect
  · rw [isAccepted_respond_iff hs stamp hroute hmethod]
    refine exists_congr fun set => ?_
    rw [Request.read_eq_ok_iff, and_assoc, and_assoc]
    refine and_congr_right fun _ => and_congr_right fun _ => and_congr_right fun _ => ?_
    exact ⟨fun h => ⟨h.name, h.namespaceName, h.free⟩, fun ⟨h₁, h₂, h₃⟩ => ⟨h₁, h₂, h₃⟩⟩

/-- One runner set, whose listener has room for a single report. -/
def oneListener : State where
  store := Store.ofOperations
    [.createSet
      { metadata := { name := "linux", namespaceName := "ci", finalizers := ["archive"] }
        spec := { replicas := 0, template := { image := "image" } } }]
  queues := Queues.register .empty "ci/linux" 1

/-- A report for this set, whose name is percent-encoded in part. -/
def encodedReport : Request where
  method := .post
  target := "/api/v1/runnersets/ci/lin%75x/batches?now"
  contentType := some "application/json"
  body := "\x7b\"acquired\": 3\x7d"

/-- A request for the removal of this set. -/
def plainRemoval : Request where
  method := .delete
  target := "/api/v1/runnersets/ci/linux"
  contentType := none
  body := ""

/-- The listener after this report. -/
def fullListener : State :=
  (oneListener.respond Stamp.sample encodedReport).state

/-- The report reaches the queue of the set, a second one waits for room and changes nothing, and the
request for the removal of the set is written once. -/
theorem oneListener_all_or_nothing :
    (∃ batch, Appends "ci/linux" batch oneListener fullListener
      (oneListener.respond Stamp.sample encodedReport).events) ∧
    (fullListener.respond Stamp.sample encodedReport).state = fullListener ∧
    WritesOnce (.sets "ci/linux") oneListener
      (oneListener.respond Stamp.sample plainRemoval).state
      (oneListener.respond Stamp.sample plainRemoval).events := by
  have hreached : oneListener.store.Reachable := Store.reachable_ofOperations _
  have hfull : fullListener.store.Reachable := by
    have hstore : fullListener.store = oneListener.store := by decide +kernel
    rw [hstore]
    exact hreached
  have hreport : (oneListener.respond Stamp.sample encodedReport).IsAccepted :=
    (Option.any_eq_true _ _).1 (by decide +kernel)
  have hremoval : (oneListener.respond Stamp.sample plainRemoval).IsAccepted :=
    (Option.any_eq_true _ _).1 (by decide +kernel)
  have hnone : (fullListener.respond Stamp.sample encodedReport).response = none :=
    Option.isNone_iff_eq_none.1 (by decide +kernel)
  have hfirst : ¬ oneListener.AwaitsRemoval "ci/linux" := by
    rw [← repeats_deleteSet_iff]
    decide +kernel
  obtain ⟨-, -, -, hdone, -⟩ := requests_all_or_nothing hreached Stamp.sample encodedReport
  obtain ⟨batch, -, happends⟩ := (hdone hreport).2.2.2 "ci" "linux" rfl (by decide +kernel)
  obtain ⟨-, hwaits, -⟩ := requests_all_or_nothing hfull Stamp.sample encodedReport
  obtain ⟨-, -, -, hremoved, -⟩ := requests_all_or_nothing hreached Stamp.sample plainRemoval
  obtain ⟨-, hwrites⟩ := (hremoved hremoval).2.1 "ci" "linux" rfl (by decide +kernel)
  exact ⟨⟨batch, happends⟩, (hwaits hnone).1, hwrites hfirst⟩

end State
end Api
end RunnerFleet
