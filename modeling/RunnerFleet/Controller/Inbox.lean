import RunnerFleet.Store.Event

/-!
# Events on their way

An inbox keeps the events of the store for someone who takes them later. Its room is limited: where
more events come in than fit, the oldest ones are dropped, and the next thing taken is the notice
that some are missing.

Main results:

- `add_events_of_fits`: as long as there is room, every event is kept in order.
- `add_lagged_iff`: events go missing exactly if there is no room for all of them.
-/

namespace RunnerFleet
namespace Controller

/-- How many events an inbox holds. -/
def inboxCapacity : Nat := 1024

/-- Events that were not taken yet, the oldest one first. -/
structure Inbox where
  events : List WatchEvent := []
  /-- Whether older events went missing. -/
  lagged : Bool := false
  length_le : events.length ≤ inboxCapacity := by decide

namespace Inbox

/-- Put events into the inbox. -/
def add (inbox : Inbox) (more : List WatchEvent) : Inbox where
  events := (inbox.events ++ more).drop ((inbox.events ++ more).length - inboxCapacity)
  lagged := inbox.lagged || decide (inboxCapacity < (inbox.events ++ more).length)
  length_le := by
    rw [List.length_drop]
    omega

/-- Events that fit beside those waiting are all kept, in their order. -/
theorem add_events_of_fits {inbox : Inbox} {more : List WatchEvent}
    (h : (inbox.events ++ more).length ≤ inboxCapacity) :
    (inbox.add more).events = inbox.events ++ more := by
  simp only [add, Nat.sub_eq_zero_of_le h, List.drop_zero]

/-- The inbox lags from the first time it is given more than it can hold. -/
theorem add_lagged_iff {inbox : Inbox} {more : List WatchEvent} :
    (inbox.add more).lagged = true ↔
      inbox.lagged = true ∨ inboxCapacity < (inbox.events ++ more).length := by
  simp [add]

end Inbox
end Controller
end RunnerFleet
