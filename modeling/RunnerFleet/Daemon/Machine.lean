import RunnerFleet.Config.Basic
import RunnerFleet.Controller.Loop
import RunnerFleet.Daemon.Site

/-!
# Daemons

A daemon serves one configured runner set: its listener turns reports about jobs into scaling
decisions, its controller runs passes over every runner set that changes, and its interface answers
requests. Time passes only while the daemon waits. Before it does, everything that can run runs:
the controller takes what it has heard, the listener takes its reports, and passes run one after the
other.

Main results:

- `wait_now`: waiting takes the time that it says.
-/

namespace RunnerFleet
namespace Daemon

open Controller (Loop Inbox Message Effect)

/-- How many reports wait for a listener at most. -/
def queueDepth : Nat := 64

/-- A runner set whose pass is to be tried again. -/
structure Timer where
  /-- The time at which the wait is over. -/
  due : Nat
  key : String

/-- A daemon that runs. -/
structure Running where
  /-- The runner set that is served. -/
  key : String
  queues : Api.Queues
  listener : Scaling.Listener
  loop : Loop
  /-- The runner sets whose passes are to run, in the order in which they started. -/
  passes : List String := []
  /-- The passes that are over, and whether they went well. -/
  ended : List (String × Bool) := []
  /-- The runner sets for which the time to wait is over. -/
  retries : List String := []
  timers : List Timer := []

/-- A site with the daemon that runs at it, if any. -/
structure Machine where
  site : Site
  daemon : Option Running := none

/-! ## Single steps -/

/-- Carry out what the controller asks for. -/
def Running.apply (d : Running) (now : Nat) : Effect → Running
  | .startPass key => { d with passes := d.passes ++ [key] }
  | .retryAfter delay key =>
      { d with timers := d.timers ++ [⟨now + delay.toMillis, key⟩] }

/-- Let the controller take a message. -/
def Running.tell (d : Running) (now : Nat) (message : Message) : Running :=
  let (loop, effects) := d.loop.step message
  effects.foldl (fun d effect => d.apply now effect) { d with loop }

/-- The keys of all runner sets. -/
def Site.setKeys (s : Site) : List String :=
  s.store.sets.values.map RunnerSet.key

/-- What the controller hears next from the store. -/
def Site.heard (s : Site) : List Message :=
  match s.inbox with
  | none => [.listed s.setKeys]
  | some inbox =>
      (if inbox.lagged then [Message.listed s.setKeys] else []) ++ inbox.events.map .changed

/-- Let the controller take all that it has heard. It lists the runner sets when it begins. -/
def Running.control (d : Running) (s : Site) : Running × Site :=
  let messages := s.heard ++ d.retries.map .retry ++ d.ended.map fun (key, ok) => .ended key ok
  let d := { d with retries := [], ended := [] }
  (messages.foldl (fun d message => d.tell s.now message) d, { s with inbox := some {} })

/-- Let the listener take all of its reports. -/
def Running.scale (d : Running) (s : Site) : Running × Site :=
  let (batches, queues) := d.queues.drain d.key
  let (listener, s) := s.listen d.key d.listener batches
  ({ d with queues, listener }, s)

/-- Run the passes that have started. -/
def Running.runPasses (d : Running) (s : Site) : Running × Site :=
  d.passes.foldl
    (fun (d, s) key =>
      let (ok, s) := s.runPass key
      ({ d with ended := d.ended ++ [(key, ok)] }, s)) ({ d with passes := [] }, s)

/-- Let everything that can run do so once. -/
def Running.round (d : Running) (s : Site) : Running × Site :=
  let (d, s) := d.control s
  let (d, s) := d.scale s
  d.runPasses s

/-- Whether there is nothing to do. -/
def Running.isIdle (d : Running) (s : Site) : Bool :=
  match s.inbox with
  | none => false
  | some inbox =>
      !inbox.lagged && inbox.events.isEmpty && d.retries.isEmpty && d.ended.isEmpty &&
        d.passes.isEmpty &&
        match d.queues.get? d.key with
        | some queue => queue.batches.isEmpty
        | none => true

/-! ## Time -/

/-- How many rounds may follow each other while no time passes. -/
def roundLimit : Nat := 100000

/-- Let everything run until there is nothing to do, for at most this many rounds. -/
def Running.settle (d : Running) (s : Site) : Nat → Running × Site
  | 0 => (d, s)
  | rounds + 1 =>
      if d.isIdle s then (d, s)
      else
        let (d, s) := d.round s
        d.settle s rounds

/-- End the waits that are due. -/
def Running.expire (d : Running) (now : Nat) : Running :=
  let (due, later) := d.timers.partition fun timer => timer.due ≤ now
  { d with timers := later, retries := d.retries ++ due.map Timer.key }

/-- The earliest time before `limit` at which a wait is over. -/
def Running.nextDue? (d : Running) (limit : Nat) : Option Nat :=
  ((d.timers.map Timer.due).filter (· < limit)).min?

/-- Let time pass up to `limit`, with at most this many stops on the way. -/
def Running.runUntil (d : Running) (s : Site) (limit : Nat) : Nat → Running × Site
  | 0 => (d, { s with now := limit })
  | stops + 1 =>
      let (d, s) := (d.expire s.now).settle s roundLimit
      match d.nextDue? limit with
      | none => (d, { s with now := limit })
      | some due => d.runUntil { s with now := Nat.max s.now due } limit stops

namespace Machine

/-- Let this many milliseconds pass. -/
def wait (m : Machine) (millis : Nat) : Machine :=
  if millis = 0 then m
  else
    let limit := m.site.now + millis
    match m.daemon with
    | none => { m with site := { m.site with now := limit } }
    | some d =>
        let (d, site) := d.runUntil m.site limit (millis + 1)
        ⟨site, some d⟩

/-! ## Life and death -/

/-- Store the configured runner set unless it is there. -/
def ensureSet (s : Site) (c : Config) : Site :=
  match s.store.getSet c.runnerSet.key with
  | some _ => s
  | none => (s.perform (.createSet c.runnerSet)).2

/-- Start a daemon in place of one that may run. -/
def start (m : Machine) (c : Config) : Machine where
  site := ensureSet { m.site with inbox := none } c
  daemon := some
    { key := c.runnerSet.key
      queues := Api.Queues.register .empty c.runnerSet.key queueDepth
      listener := { bounds := c.bounds }
      loop := { settings := c.settings } }

/--
Stop the daemon. A controller that has not begun to listen still lists the runner sets and runs the
first passes; passes that have started are finished, and no others start.
-/
def stop (m : Machine) : Machine :=
  match m.daemon with
  | none => m
  | some d =>
      let (d, s) := if m.site.inbox.isNone then d.control m.site else (d, m.site)
      let (_, s) := d.runPasses s
      ⟨{ s with inbox := none }, none⟩

/-! ## Requests -/

/-- Answer a request to the interface; `none` if no daemon runs. -/
def respond (m : Machine) (request : Api.Request) : Option (Option Api.Response) × Machine :=
  match m.daemon with
  | none => (none, m)
  | some d =>
      let (response, queues, site) := m.site.respond d.queues request
      (some response, ⟨site, some { d with queues }⟩)

/-- Carry out an operation on the store. -/
def perform (m : Machine) (op : Store.Operation) : Except Store.Error op.Answer × Machine :=
  let (result, site) := m.site.perform op
  (result, { m with site })

/-- The removals of registrations so far, the first one first, and the machine without them. -/
def takeRemovals (m : Machine) : List (Nat × Int) × Machine :=
  (m.site.removals.reverse, { m with site := { m.site with removals := [] } })

/-- A run up to a moment leaves the clock at that moment. -/
@[simp]
theorem runUntil_now (d : Running) (s : Site) (limit stops : Nat) :
    (d.runUntil s limit stops).2.now = limit := by
  induction stops generalizing d s with
  | zero => rfl
  | succ stops ih =>
      simp only [Running.runUntil]
      split
      · rfl
      · exact ih _ _

/-- Waiting moves the clock by exactly the time waited. -/
@[simp]
theorem wait_now (m : Machine) (millis : Nat) :
    (m.wait millis).site.now = m.site.now + millis := by
  unfold wait
  split
  · rename_i h
    omega
  · split
    · rfl
    · exact runUntil_now _ _ _ _

end Machine
end Daemon
end RunnerFleet
