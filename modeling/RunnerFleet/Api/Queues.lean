import RunnerFleet.KeyMap
import RunnerFleet.Scaling.Decision

/-!
# Queues of listeners

Reports about jobs wait in the queue of the listener of their runner set, which holds a limited
number of them. A listener that has ended takes no more. A later queue for a runner set takes the
place of the one before.

Main results:

- `Queue.send_accepted_iff`: a report is accepted exactly by an open queue with room.
-/

namespace RunnerFleet
namespace Api

/-- The queue of one listener; the oldest report comes first. -/
structure Queue where
  capacity : Nat
  batches : List JobBatch := []
  isOpen : Bool := true
deriving DecidableEq, Repr

/-- What becomes of a report that is sent to a queue. -/
inductive Delivery (α : Type) where
  | accepted (queue : α)
  /-- There is no room; the sender waits. -/
  | full
  /-- The listener has ended. -/
  | closed

namespace Queue

/-- Send a report. -/
def send (q : Queue) (batch : JobBatch) : Delivery Queue :=
  if !q.isOpen then .closed
  else if q.batches.length < q.capacity then
    .accepted { q with batches := q.batches ++ [batch] }
  else .full

/-- Take every report out of the queue. -/
def drain (q : Queue) : List JobBatch × Queue :=
  (q.batches, { q with batches := [] })

/-- End the listener of the queue; reports that wait are lost. -/
def close (q : Queue) : Queue :=
  { q with batches := [], isOpen := false }

/-- A batch is accepted exactly while the queue is open and has room, and it then stands last. -/
theorem send_accepted_iff {q q' : Queue} {batch : JobBatch} :
    q.send batch = .accepted q' ↔
      q.isOpen = true ∧ q.batches.length < q.capacity ∧
        q' = { q with batches := q.batches ++ [batch] } := by
  unfold send
  cases h : q.isOpen
  · simp
  · by_cases room : q.batches.length < q.capacity
    · simp [room, eq_comm]
    · simp [room]

end Queue

/-- The queues of all listeners, by runner set. -/
abbrev Queues := KeyMap Queue

namespace Queues

/-- Give a runner set a new queue. -/
def register (queues : Queues) (key : String) (capacity : Nat) : Queues :=
  queues.insert key { capacity }

/-- Send a report to the listener of a runner set; `none` if it has none. -/
def send? (queues : Queues) (key : String) (batch : JobBatch) : Option (Delivery Queues) :=
  (queues.get? key).map fun q =>
    match q.send batch with
    | .accepted q => .accepted (queues.insert key q)
    | .full => .full
    | .closed => .closed

/-- The reports that wait for the listener of a runner set, and the queues without them. -/
def drain (queues : Queues) (key : String) : List JobBatch × Queues :=
  match queues.get? key with
  | some q => (q.drain.1, queues.insert key q.drain.2)
  | none => ([], queues)

/-- End the listener of a runner set; tells whether there was one. -/
def close (queues : Queues) (key : String) : Bool × Queues :=
  match queues.get? key with
  | some q => (q.isOpen, queues.insert key q.close)
  | none => (false, queues)

end Queues
end Api
end RunnerFleet
