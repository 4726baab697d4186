import RunnerFleet.Controller.Inbox
import RunnerFleet.Controller.Loop
import RunnerFleet.Proofs.Reconcile.Answers
import RunnerFleet.Proofs.Store.Announcement
import RunnerFleet.Reconcile.Pass

/-!
# The controller at work

The controller watches a store that others write to at the same time.  A write is carried out first
and announced later; announcements are kept in the controller's inbox, which may drop the oldest of
them and then says so.  The controller takes one message after the other, starts passes while there
is room for them, and waits before it tries a failed one again.  Passes go on call by call, and
their own writes are announced like all others.

Beside the state proper, what happened is noted: all that is carried out on the store, and the
beginning and the end of every pass.  No step looks at these notes.

Main results:

- `tell_changed`, `tell_ended`: what becomes of the controller when it takes a message.
- `start_cases`: a pass starts over the first runner set in the queue, and only if there is room.
- `advance_cases`: a pass goes on only with an answer to its next call.
- `move_step`: all that a step can do.
-/

namespace RunnerFleet
namespace Controller

open Reconcile

/-! ## Notes -/

/-- Something that happened. -/
inductive Occurrence where
  /-- Something was carried out on the store, by whomever. -/
  | wrote (before after : Store)
  /-- A pass over the runner set with this key has begun. -/
  | began (key : String)
  /-- A pass over the runner set with this key has ended. -/
  | ended (key : String) (ok : Bool)

/-- The runner set, or a runner of it, was written since the latest pass over it began; or no pass
over it has begun at all.  The latest occurrence comes first. -/
def Stale (key : String) : List Occurrence → Prop
  | [] => True
  | .wrote before after :: earlier => Store.Touches key before after ∨ Stale key earlier
  | .began k :: earlier => k ≠ key ∧ Stale key earlier
  | .ended _ _ :: earlier => Stale key earlier

/-- The latest pass over the runner set has ended with errors. -/
def Failed (key : String) : List Occurrence → Prop
  | [] => False
  | .wrote _ _ :: earlier => Failed key earlier
  | .began k :: earlier => k ≠ key ∧ Failed key earlier
  | .ended k ok :: earlier => if k = key then ok = false else Failed key earlier

/-! ## The state -/

/-- A pass that has begun: the runner set that it is over, and what it has yet to do. -/
structure Task where
  key : String
  program : Program (Except Reconcile.Error Unit)

/-- A store with the controller that watches it. -/
structure Watch where
  store : Store := {}
  /-- The announcements of writes that were not sent yet. -/
  unsent : List WatchEvent := []
  /-- The announcements on their way to the controller, once it has subscribed to them. -/
  inbox : Option Inbox := none
  /-- Whether the controller has listed the runner sets that it found when it began. -/
  listed : Bool := false
  loop : Loop
  /-- The passes that the controller takes for running; it has yet to notice the end of those with
  nothing to do. -/
  tasks : List Task := []
  /-- The runner sets with a failed pass for which the time to wait is not over. -/
  timers : List String := []
  /-- The runner sets for which it is over, without the controller knowing yet. -/
  retries : List String := []
  history : List Occurrence := []

/-- The inbox of one who has just subscribed. -/
def Inbox.empty : Inbox where
  events := []
  length_le := Nat.zero_le inboxCapacity

/-- The inbox after the notice that events are missing was taken. -/
def Inbox.resume (inbox : Inbox) : Inbox :=
  { inbox with lagged := false }

/-- The inbox without its oldest event. -/
def Inbox.rest (inbox : Inbox) : Inbox where
  events := inbox.events.tail
  lagged := inbox.lagged
  length_le := by
    have h := inbox.length_le
    rw [List.length_tail]
    omega

/-- The inbox after its oldest event has gone missing. -/
def Inbox.lose (inbox : Inbox) : Inbox :=
  { inbox.rest with lagged := true }

/-- The runner set whose pass an effect starts. -/
def Effect.started? : Effect → Option String
  | .startPass key => some key
  | .retryAfter _ _ => none

/-- The runner set whose pass an effect puts off. -/
def Effect.delayed? : Effect → Option String
  | .startPass _ => none
  | .retryAfter _ key => some key

/-- Starting one pass takes the first key of the queue. -/
theorem Loop.fill_one (l : Loop) :
    l.fill 1 =
      match l.queue.next with
      | none => (l, [])
      | some (key, queue) =>
          ({ l with queue, running := l.running + 1 }, [.startPass key]) := by
  rw [fill]
  cases l.queue.next <;> rfl

namespace Watch

/-- What may happen next. -/
inductive Event where
  /-- Somebody carries out an operation. -/
  | write (stamp : Stamp) (op : Store.Operation)
  /-- One of the announcements that were not sent is sent. -/
  | send (index : Nat)
  /-- The oldest announcement on its way goes missing. -/
  | lose
  /-- The controller subscribes to announcements. -/
  | subscribe
  /-- The controller lists the runner sets that there are when it begins. -/
  | list
  /-- The controller takes what is next in its inbox. -/
  | hear
  /-- The controller starts a pass, if one is due and there is room for it. -/
  | start (suffix : Nat → String)
  /-- The next call of a pass is answered. -/
  | serve (index : Nat) (service : Actions.Service) (stamp : Stamp)
  /-- The next call of a pass fails. -/
  | fail (index : Nat) (e : Store.Error)
  /-- The controller notices that a pass is over. -/
  | join (index : Nat)
  /-- The time to wait after a failed pass is over. -/
  | expire (index : Nat)
  /-- The controller is told of a time to wait that is over. -/
  | retry

/-! ## Single steps -/

/-- The store is changed, and what announces the change is yet to be sent. -/
def commit (w : Watch) (after : Store) (events : List WatchEvent) : Watch :=
  { w with
    store := after
    unsent := w.unsent ++ events
    history := .wrote w.store after :: w.history }

/-- The controller takes a message. -/
def tell (w : Watch) (message : Message) : Watch :=
  let (loop, effects) := w.loop.note message
  { w with loop, timers := w.timers ++ effects.filterMap Effect.delayed? }

/-- The keys of all runner sets that there are. -/
def setKeys (w : Watch) : List String :=
  w.store.sets.values.map RunnerSet.key

/-- The controller takes what is next in its inbox: that something is missing, or an event. -/
def hear (w : Watch) (inbox : Inbox) : Watch :=
  if inbox.lagged then { w.tell (.listed w.setKeys) with inbox := some inbox.resume }
  else
    match inbox.events with
    | [] => w
    | e :: _ => { w.tell (.changed e) with inbox := some inbox.rest }

/-- A pass over a runner set begins. -/
def begin (suffix : Nat → String) (w : Watch) (key : String) : Watch :=
  { w with
    tasks := w.tasks ++ [⟨key, pass suffix key⟩]
    history := .began key :: w.history }

/-- The controller starts the next pass, if there is room for one. -/
def start (w : Watch) (suffix : Nat → String) : Watch :=
  if w.loop.running < w.loop.settings.maxConcurrent then
    let (loop, effects) := w.loop.fill 1
    (effects.filterMap Effect.started?).foldl (begin suffix) { w with loop }
  else w

/-- What is noted when a pass has this left to do. -/
def noteEnd (key : String) : Program (Except Reconcile.Error Unit) → List Occurrence
  | .done result => [.ended key result.isOk]
  | .call _ _ => []

/-- A pass goes on after a call that has changed the store. -/
def proceed (w : Watch) (index : Nat) (key : String)
    (rest : Program (Except Reconcile.Error Unit)) (after : Store) (events : List WatchEvent) :
    Watch :=
  let w := w.commit after events
  { w with
    tasks := w.tasks.set index ⟨key, rest⟩
    history := noteEnd key rest ++ w.history }

/-- A pass goes on with the answer to its next call, if there is one. -/
def advance (w : Watch) (index : Nat)
    (answer : (c : Call) → Option (c.Answer × Store × List WatchEvent)) : Watch :=
  match w.tasks[index]? with
  | some ⟨key, program⟩ =>
      match program.answerNext answer with
      | some (_, rest, after, events) => w.proceed index key rest after events
      | none => w
  | none => w

/-- The controller notices that a pass is over. -/
def join (w : Watch) (index : Nat) : Watch :=
  match w.tasks[index]? with
  | some ⟨key, .done result⟩ =>
      { w.tell (.ended key result.isOk) with tasks := w.tasks.eraseIdx index }
  | _ => w

/-! ## All steps -/

/-- What becomes of everything when something happens; nothing, if it cannot happen now. -/
def step (w : Watch) : Event → Watch
  | .write stamp op =>
      let o := w.store.perform stamp op
      w.commit o.store o.events
  | .send index =>
      match w.unsent[index]? with
      | some e =>
          { w with
            unsent := w.unsent.eraseIdx index
            inbox := w.inbox.map fun inbox => inbox.add [e] }
      | none => w
  | .lose => { w with inbox := w.inbox.map Inbox.lose }
  | .subscribe => if w.inbox.isSome then w else { w with inbox := some .empty }
  | .list =>
      if w.inbox.isSome ∧ w.listed = false then { w.tell (.listed w.setKeys) with listed := true }
      else w
  | .hear =>
      match w.inbox with
      | some inbox => if w.listed then w.hear inbox else w
      | none => w
  | .start suffix => if w.listed then w.start suffix else w
  | .serve index service stamp =>
      w.advance index fun c =>
        let reply := c.perform service stamp w.store
        some (reply.answer, reply.store, reply.events)
  | .fail index e =>
      w.advance index fun c => (c.failWith e).map fun answer => (answer, w.store, [])
  | .join index => w.join index
  | .expire index =>
      match w.timers[index]? with
      | some key => { w with timers := w.timers.eraseIdx index, retries := w.retries ++ [key] }
      | none => w
  | .retry =>
      match w.retries with
      | key :: rest => { w.tell (.retry key) with retries := rest }
      | [] => w

/-- Everything after these events.  At first the store is empty, and the controller has not begun;
what others write before it begins is what it finds. -/
def run (settings : Settings) (events : List Event) : Watch :=
  events.foldl step { loop := { settings } }

/-! ## What may come of a step -/

/-- The controller notes that these runner sets need a pass. -/
def note (w : Watch) (keys : List String) : Watch :=
  { w with loop := { w.loop with queue := w.loop.queue.addAll keys } }

@[simp]
theorem tell_listed (w : Watch) (keys : List String) : w.tell (.listed keys) = w.note keys := by
  simp [tell, note, Loop.note]

/-- Of an event the controller notes the runner set that the event leads to. -/
@[simp]
theorem tell_changed (w : Watch) (e : WatchEvent) :
    w.tell (.changed e) = w.note e.runnerSetKey.toList := by
  cases h : e.runnerSetKey <;> simp [tell, note, Loop.note, WorkQueue.addAll, h]

@[simp]
theorem tell_retry (w : Watch) (key : String) : w.tell (.retry key) = w.note [key] := by
  simp [tell, note, Loop.note, WorkQueue.addAll]

/-- When a pass is over it is taken off the queue, and put off if it has failed. -/
theorem tell_ended (w : Watch) (key : String) (ok : Bool) :
    w.tell (.ended key ok) =
      { w with
        loop :=
          { w.loop with
            queue := (w.loop.queue.done key ok).2
            running := w.loop.running - 1 }
        timers := w.timers ++ if ok then [] else [key] } := by
  cases ok <;> rfl

/-- The controller starts no pass, or one over the first runner set in the queue. -/
theorem start_cases (w : Watch) (suffix : Nat → String) :
    w.start suffix = w ∨
      ∃ key queue, w.loop.running < w.loop.settings.maxConcurrent ∧
        w.loop.queue.next = some (key, queue) ∧
        w.start suffix =
          begin suffix { w with loop := { w.loop with queue, running := w.loop.running + 1 } }
            key := by
  unfold start
  split
  · rename_i hroom
    rw [Loop.fill_one]
    cases hnext : w.loop.queue.next with
    | none => exact Or.inl rfl
    | some entry => exact Or.inr ⟨entry.1, entry.2, hroom, rfl, rfl⟩
  · exact Or.inl rfl

/-- If a pass goes on, its next call was answered. -/
theorem advance_cases (w : Watch) (index : Nat)
    (answer : (c : Call) → Option (c.Answer × Store × List WatchEvent)) :
    w.advance index answer = w ∨
      ∃ key c next reply after events, w.tasks[index]? = some ⟨key, .call c next⟩ ∧
        answer c = some (reply, after, events) ∧
        w.advance index answer = w.proceed index key (next reply) after events := by
  unfold advance
  split
  · rename_i key program htask
    split
    · rename_i e rest after events hgone
      obtain ⟨c, next, reply, came, rfl, hreply, heq⟩ := Program.answerNext_eq_some hgone
      cases heq
      exact Or.inr ⟨key, c, next, reply, after, events, htask, hreply, rfl⟩
    · exact Or.inl rfl
  · exact Or.inl rfl

/-- If a pass is noticed to be over, it had nothing left to do. -/
theorem join_cases (w : Watch) (index : Nat) :
    w.join index = w ∨
      ∃ key result, w.tasks[index]? = some ⟨key, .done result⟩ ∧
        w.join index =
          { w.tell (.ended key result.isOk) with tasks := w.tasks.eraseIdx index } := by
  unfold join
  split
  · rename_i key result htask
    exact Or.inr ⟨key, result, htask, rfl⟩
  · exact Or.inl rfl

/-- What a step makes of everything.  The calls of passes are answered as they are carried out, or
fail without effect. -/
inductive Move (w : Watch) : Watch → Prop where
  /-- What was to happen cannot happen now. -/
  | idle : Move w w
  | write (stamp : Stamp) (op : Store.Operation) :
      Move w (w.commit (w.store.perform stamp op).store (w.store.perform stamp op).events)
  | send {index : Nat} {e : WatchEvent} (found : w.unsent[index]? = some e) :
      Move w
        { w with
          unsent := w.unsent.eraseIdx index
          inbox := w.inbox.map fun inbox => inbox.add [e] }
  | lose : Move w { w with inbox := w.inbox.map Inbox.lose }
  | subscribe (absent : w.inbox = none) : Move w { w with inbox := some .empty }
  | list (subscribed : w.inbox.isSome = true) : Move w { w.note w.setKeys with listed := true }
  | resync {inbox : Inbox} (subscribed : w.inbox = some inbox) :
      Move w { w.note w.setKeys with inbox := some inbox.resume }
  | hear {inbox : Inbox} {e : WatchEvent} {rest : List WatchEvent}
      (subscribed : w.inbox = some inbox) (next : inbox.events = e :: rest) :
      Move w { w.note e.runnerSetKey.toList with inbox := some inbox.rest }
  | start {key : String} {queue : WorkQueue} (suffix : Nat → String)
      (room : w.loop.running < w.loop.settings.maxConcurrent)
      (next : w.loop.queue.next = some (key, queue)) :
      Move w (begin suffix
        { w with loop := { w.loop with queue, running := w.loop.running + 1 } } key)
  | serve {index : Nat} {key : String} {c : Call} {next : c.Answer → Program _}
      (service : Actions.Service) (stamp : Stamp)
      (task : w.tasks[index]? = some ⟨key, .call c next⟩) :
      Move w (w.proceed index key (next (c.perform service stamp w.store).answer)
        (c.perform service stamp w.store).store (c.perform service stamp w.store).events)
  | fail {index : Nat} {key : String} {c : Call} {next : c.Answer → Program _} {e : Store.Error}
      {answer : c.Answer} (task : w.tasks[index]? = some ⟨key, .call c next⟩)
      (failed : c.failWith e = some answer) :
      Move w (w.proceed index key (next answer) w.store [])
  | join {index : Nat} {key : String} {result : Except Reconcile.Error Unit}
      (task : w.tasks[index]? = some ⟨key, .done result⟩) :
      Move w
        { w with
          loop :=
            { w.loop with
              queue := (w.loop.queue.done key result.isOk).2
              running := w.loop.running - 1 }
          timers := w.timers ++ if result.isOk then [] else [key]
          tasks := w.tasks.eraseIdx index }
  | expire {index : Nat} {key : String} (found : w.timers[index]? = some key) :
      Move w { w with timers := w.timers.eraseIdx index, retries := w.retries ++ [key] }
  | retry {key : String} {rest : List String} (next : w.retries = key :: rest) :
      Move w { w.note [key] with retries := rest }

theorem move_hear {w : Watch} {inbox : Inbox} (h : w.inbox = some inbox) :
    w.Move (w.hear inbox) := by
  unfold hear
  split
  · rw [tell_listed]
    exact .resync h
  · split
    · exact .idle
    · rename_i e rest hnext
      rw [tell_changed]
      exact .hear h hnext

/-- Whatever happens, it is one of these moves. -/
theorem move_step (w : Watch) (event : Event) : w.Move (w.step event) := by
  cases event with
  | write stamp op => exact .write stamp op
  | send index =>
      unfold step
      dsimp only
      split
      · rename_i e hfound
        exact .send hfound
      · exact .idle
  | lose => exact .lose
  | subscribe =>
      unfold step
      dsimp only
      split
      · exact .idle
      · rename_i habsent
        exact .subscribe (Option.not_isSome_iff_eq_none.1 habsent)
  | list =>
      unfold step
      dsimp only
      split
      · rename_i hready
        rw [tell_listed]
        exact .list hready.1
      · exact .idle
  | hear =>
      unfold step
      dsimp only
      split
      · rename_i inbox hinbox
        split
        · exact move_hear hinbox
        · exact .idle
      · exact .idle
  | start suffix =>
      unfold step
      dsimp only
      split
      · rcases w.start_cases suffix with heq | ⟨key, queue, hroom, hnext, heq⟩
        · rw [heq]
          exact .idle
        · rw [heq]
          exact .start suffix hroom hnext
      · exact .idle
  | serve index service stamp =>
      unfold step
      dsimp only
      rcases w.advance_cases index _ with heq | ⟨key, c, next, reply, after, events, ht, hr, heq⟩
      · rw [heq]
        exact .idle
      · rw [heq]
        cases hr
        exact .serve service stamp ht
  | fail index e =>
      unfold step
      dsimp only
      rcases w.advance_cases index _ with heq | ⟨key, c, next, reply, after, events, ht, hr, heq⟩
      · rw [heq]
        exact .idle
      · rw [heq]
        obtain ⟨answer, hfailed, hanswer⟩ := Option.map_eq_some_iff.1 hr
        cases hanswer
        exact .fail ht hfailed
  | join index =>
      rcases w.join_cases index with heq | ⟨key, result, htask, heq⟩
      · change w.Move (w.join index)
        rw [heq]
        exact .idle
      · change w.Move (w.join index)
        rw [heq, tell_ended]
        exact .join htask
  | expire index =>
      unfold step
      dsimp only
      split
      · rename_i key hfound
        exact .expire hfound
      · exact .idle
  | retry =>
      unfold step
      dsimp only
      split
      · rename_i key rest hnext
        rw [tell_retry]
        exact .retry hnext
      · exact .idle

end Watch
end Controller
end RunnerFleet
