import RunnerFleet.Reconcile.Error
import RunnerFleet.Resource.Runner

/-!
# Programs that make calls

A reconcile pass is a program that makes calls to the store and to the Actions service, one after
the other, and goes on with each answer as it comes. What answers the calls is not part of the
program: the store itself, a store that fails now and then, or anything that happens between two
calls.

Main results:

- `run_done`, `run_call`: how a program is run against whatever answers its calls.
- `bind_assoc`: programs in a row may be grouped in any way.
-/

namespace RunnerFleet
namespace Reconcile

/-- The calls of a pass. -/
inductive Call where
  | getSet (key : String)
  | listRunners (key : String)
  | createRunner (runner : Runner)
  | deleteRunner (ownerKey name : String)
  | updateStatus (key : String) (status : RunnerSetStatus)
  | setFinalizers (key : String) (finalizers : List String)
  /-- Ask the Actions service to remove a registration. -/
  | deregister (runnerId : Int)

/-- What a call is answered with. -/
abbrev Call.Answer : Call → Type
  | getSet _ => Except Store.Error (Option RunnerSet)
  | listRunners _ => Except Store.Error (List Runner)
  | createRunner _ => Except Store.Error Runner
  | deleteRunner _ _ => Except Store.Error Unit
  | updateStatus _ _ => Except Store.Error Unit
  | setFinalizers _ _ => Except Store.Error Unit
  | deregister _ => Except Actions.Error Unit

/-- A program that makes calls and ends with an `α`. -/
inductive Program (α : Type) where
  | done (value : α)
  | call (c : Call) (next : c.Answer → Program α)

namespace Program

variable {α β γ : Type}

/-- Go on with another program. -/
def bind : Program α → (α → Program β) → Program β
  | done value, next => next value
  | call c rest, next => call c fun answer => (rest answer).bind next

instance : Monad Program where
  pure := done
  bind := bind

/-- Programs in sequence may be grouped either way. -/
theorem bind_assoc (p : Program α) (f : α → Program β) (g : β → Program γ) :
    (p.bind f).bind g = p.bind fun value => (f value).bind g := by
  induction p with
  | done value => rfl
  | call c rest ih => simp only [bind, ih]

/-- Run a program against something with a state that answers its calls. -/
def run {σ : Type} (answer : (c : Call) → σ → c.Answer × σ) : Program α → σ → α × σ
  | done value, state => (value, state)
  | call c next, state =>
      let (reply, state) := answer c state
      run answer (next reply) state

/-- A finished program asks nothing and changes nothing. -/
@[simp]
theorem run_done {σ : Type} (answer : (c : Call) → σ → c.Answer × σ) (value : α) (state : σ) :
    (done value).run answer state = (value, state) :=
  rfl

/-- A call is answered first, and the rest runs on in the state the answer left. -/
@[simp]
theorem run_call {σ : Type} (answer : (c : Call) → σ → c.Answer × σ) (c : Call)
    (next : c.Answer → Program α) (state : σ) :
    (call c next).run answer state =
      (next (answer c state).1).run answer (answer c state).2 :=
  rfl

/-! ## Single calls -/

/-- Look up a runner set. -/
def getSet (key : String) : Program (Except Store.Error (Option RunnerSet)) :=
  call (.getSet key) done

/-- List the runners of a set. -/
def listRunners (key : String) : Program (Except Store.Error (List Runner)) :=
  call (.listRunners key) done

/-- Create a runner. -/
def createRunner (runner : Runner) : Program (Except Store.Error Runner) :=
  call (.createRunner runner) done

/-- Delete a runner. -/
def deleteRunner (ownerKey name : String) : Program (Except Store.Error Unit) :=
  call (.deleteRunner ownerKey name) done

/-- Write the counts of a runner set. -/
def updateStatus (key : String) (status : RunnerSetStatus) : Program (Except Store.Error Unit) :=
  call (.updateStatus key status) done

/-- Write the finalizers of a runner set. -/
def setFinalizers (key : String) (finalizers : List String) : Program (Except Store.Error Unit) :=
  call (.setFinalizers key finalizers) done

/-- Remove a registration. -/
def deregister (runnerId : Int) : Program (Except Actions.Error Unit) :=
  call (.deregister runnerId) done

end Program
end Reconcile
end RunnerFleet
