import RunnerFleet.Controller.Backoff
import RunnerFleet.Controller.WorkQueue
import RunnerFleet.Store.Event

/-!
# The controller

The controller turns what it hears into passes. It notes which runner sets need a pass, starts
passes as long as fewer than the allowed number run, and asks for a retry after a while where a pass
failed. Starting passes and waiting are effects that something else carries out.

Main results:

- `step_running_le`: never more passes run than are allowed.
-/

namespace RunnerFleet
namespace Controller

/-- What the controller hears. -/
inductive Message where
  /-- All runner sets that there are. -/
  | listed (keys : List String)
  | changed (event : WatchEvent)
  /-- The time to wait after a failure is over. -/
  | retry (key : String)
  /-- A pass is over. -/
  | ended (key : String) (ok : Bool)

/-- What the controller asks for. -/
inductive Effect where
  | startPass (key : String)
  | retryAfter (delay : Duration) (key : String)

/-- The state of the controller. -/
structure Loop where
  settings : Settings
  queue : WorkQueue := {}
  /-- How many passes run. -/
  running : Nat := 0

namespace Loop

/-- Note what a message says. -/
def note (l : Loop) : Message → Loop × List Effect
  | .listed keys => ({ l with queue := l.queue.addAll keys }, [])
  | .changed event =>
      match event.runnerSetKey with
      | some key => ({ l with queue := l.queue.add key }, [])
      | none => (l, [])
  | .retry key => ({ l with queue := l.queue.add key }, [])
  | .ended key ok =>
      let (failures, queue) := l.queue.done key ok
      ({ l with queue, running := l.running - 1 },
        failures.toList.map fun n : UInt32 => .retryAfter (l.settings.delay n) key)

/-- Start up to this many passes. -/
def fill (l : Loop) : Nat → Loop × List Effect
  | 0 => (l, [])
  | free + 1 =>
      match l.queue.next with
      | none => (l, [])
      | some (key, queue) =>
          let (l, effects) := fill { l with queue, running := l.running + 1 } free
          (l, .startPass key :: effects)

/-- How many passes can start: there is room for them, and there are keys that need one. -/
def startable (l : Loop) : Nat :=
  Nat.min (l.settings.maxConcurrent - l.running) l.queue.ready.length

/-- Take a message. -/
def step (l : Loop) (message : Message) : Loop × List Effect :=
  let (l, noted) := l.note message
  let (l, started) := l.fill l.startable
  (l, noted ++ started)

/-- Starting passes leaves the settings alone. -/
@[simp]
theorem fill_settings (l : Loop) (free : Nat) : (l.fill free).1.settings = l.settings := by
  induction free generalizing l with
  | zero => rfl
  | succ free ih =>
      simp only [fill]
      split
      · rfl
      · exact ih _

/-- No more passes start than there are free slots. -/
theorem fill_running_le (l : Loop) (free : Nat) :
    (l.fill free).1.running ≤ l.running + free := by
  induction free generalizing l with
  | zero => exact Nat.le_refl _
  | succ free ih =>
      simp only [fill]
      split
      · exact Nat.le_add_right _ _
      · rename_i key queue _
        have rest := ih { l with queue, running := l.running + 1 }
        exact Nat.le_trans rest (Nat.le_of_eq (Nat.add_right_comm _ _ _))

/-- Taking a message in starts no pass. -/
theorem note_running_le (l : Loop) (message : Message) :
    (l.note message).1.running ≤ l.running := by
  cases message with
  | listed _ => exact Nat.le_refl _
  | changed event =>
      simp only [note]
      split <;> exact Nat.le_refl _
  | retry _ => exact Nat.le_refl _
  | ended _ _ => exact Nat.sub_le _ _

/-- Taking a message in leaves the settings alone. -/
@[simp]
theorem note_settings (l : Loop) (message : Message) :
    (l.note message).1.settings = l.settings := by
  cases message with
  | listed _ => rfl
  | changed event =>
      simp only [note]
      split <;> rfl
  | retry _ => rfl
  | ended _ _ => rfl

/-- The limit on passes running at once is kept by every step. -/
theorem step_running_le {l : Loop} {message : Message}
    (h : l.running ≤ l.settings.maxConcurrent) :
    (l.step message).1.running ≤ l.settings.maxConcurrent := by
  have noted := note_running_le l message
  have filled := fill_running_le (l.note message).1 (l.note message).1.startable
  have room : (l.note message).1.startable ≤
      l.settings.maxConcurrent - (l.note message).1.running := by
    rw [← note_settings l message]
    exact Nat.min_le_left _ _
  simp only [step]
  omega

end Loop
end Controller
end RunnerFleet
