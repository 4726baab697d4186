import RunnerFleet.KeySet

/-!
# The work queue

The queue holds the keys of the runner sets that need a pass, each of them once, in the order in
which they came. A key whose pass is under way does not enter the queue; it is marked, and enters
once the pass is over.

How often the passes of a key failed in a row is counted in 32 bits.  The failure that such a count
cannot hold begins it again at zero; a build that checks its arithmetic stops there instead
(`WorkQueue.isFull`).

Main results:

- `add_of_inFlight`: a key whose pass is under way is only marked.
-/

namespace RunnerFleet
namespace Controller

/-- A count of 32 bits is read as the number that it stands for. -/
instance failureCountCoe : Coe UInt32 Nat where
  coe := UInt32.toNat

/-- Which keys need a pass, and which have one under way. -/
structure WorkQueue where
  /-- The keys in the queue, the next one first. -/
  ready : List String := []
  /-- The keys in the queue. -/
  queued : KeySet := .empty
  /-- The keys whose pass is under way. -/
  inFlight : KeySet := .empty
  /-- The keys that need another pass after the one under way. -/
  dirty : KeySet := .empty
  /-- How many passes of a key failed since the last one that did not. -/
  failures : KeyMap UInt32 := .empty

namespace WorkQueue

/-- Note that a key needs a pass. -/
def add (q : WorkQueue) (key : String) : WorkQueue :=
  if q.inFlight.contains key then { q with dirty := q.dirty.add key }
  else if q.queued.contains key then q
  else { q with ready := q.ready ++ [key], queued := q.queued.add key }

/-- Note that these keys need a pass. -/
def addAll (q : WorkQueue) (keys : List String) : WorkQueue :=
  keys.foldl add q

/-- Take the next key, whose pass is then under way. -/
def next (q : WorkQueue) : Option (String × WorkQueue) :=
  match q.ready with
  | [] => none
  | key :: ready =>
      some (key,
        { q with ready, queued := q.queued.remove key, inFlight := q.inFlight.add key })

/-- The count of failures of a key after one more. -/
def countFailure (q : WorkQueue) (key : String) : UInt32 :=
  (q.failures.get? key).getD 0 + 1

/-- Note that the pass of a key is over, and how often it has failed if it did. -/
def done (q : WorkQueue) (key : String) (ok : Bool) : Option UInt32 × WorkQueue :=
  let count := if ok then none else some (q.countFailure key)
  let failures :=
    match count with
    | none => q.failures.erase key
    | some n => q.failures.insert key n
  let q' := { q with inFlight := q.inFlight.remove key, failures }
  (count,
    if q.dirty.contains key then add { q' with dirty := q.dirty.remove key } key else q')

/-- A key whose pass is under way is marked, and does not enter the queue. -/
theorem add_of_inFlight {q : WorkQueue} {key : String} (h : q.inFlight.contains key = true) :
    q.add key = { q with dirty := q.dirty.add key } := by
  simp [add, h]

end WorkQueue
end Controller
end RunnerFleet
