import RunnerFleet.Duration

/-!
# How long to wait after failures

A runner set whose pass failed is tried again after a while that doubles with every further failure
in a row, up to a limit.
-/

namespace RunnerFleet
namespace Controller

/-- How the controller runs its passes. -/
structure Settings where
  /-- How many passes may run at a time. -/
  maxConcurrent : Nat := 2
  /-- How long to wait after a first failure. -/
  requeueBase : Duration := .ofMillis 500
  /-- How long to wait at most. -/
  requeueMax : Duration := .ofMillis 60000

namespace Settings

/-- How often the waiting time doubles at most. -/
def maxDoublings : Nat := 16

/-- How long to wait after this many failures in a row. -/
def delay (s : Settings) (failures : Nat) : Duration :=
  (s.requeueBase.scale (2 ^ Nat.min (failures - 1) maxDoublings)).min s.requeueMax

end Settings
end Controller
end RunnerFleet
