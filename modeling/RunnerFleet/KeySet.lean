import RunnerFleet.KeyMap

/-!
# Sets of keys

A set of strings, listed in increasing order.

Main results:

- `contains_add`, `contains_remove`: what a set contains after a change.
-/

namespace RunnerFleet

/-- A finite set of strings. -/
abbrev KeySet := KeyMap Unit

namespace KeySet

/-- The set with `key` in it. -/
def add (s : KeySet) (key : String) : KeySet :=
  s.insert key ()

/-- The set without `key`. -/
def remove (s : KeySet) (key : String) : KeySet :=
  s.erase key

/-- The keys of the set in increasing order. -/
def toList (s : KeySet) : List String :=
  s.keys

/-- Adding a key adds that key only. -/
@[simp]
theorem contains_add (s : KeySet) (key k : String) :
    (s.add key).contains k = (decide (k = key) || s.contains k) := by
  by_cases h : k = key <;> simp [add, KeyMap.contains, h]

/-- Removing a key removes that key only. -/
@[simp]
theorem contains_remove (s : KeySet) (key k : String) :
    (s.remove key).contains k = (!decide (k = key) && s.contains k) := by
  by_cases h : k = key <;> simp [remove, KeyMap.contains, h]

end KeySet
end RunnerFleet
