import RunnerFleet.Resource.Wire

/-!
# Scaling decisions

From counts of jobs that were acquired and completed, a listener decides how many runners its runner
set shall have. The number stays within bounds. Every decision bears a patch id; a decision that
repeats the id of the one before it asks for nothing new.

Counts of jobs and numbers of runners have 32 bits: reports are read within that limit, and no target
exceeds `countLimit`.  Patch ids have 64 bits with a sign.  They grow by at most one with each
report, from zero on, so that the limit is not reached before `2 ^ 63` reports.

Main results:

- `Bounds.clamp_le_max`: no decision exceeds the upper bound.
-/

namespace RunnerFleet

open Document

/-- Jobs that were acquired and completed since the last report. -/
structure JobBatch where
  acquired : Nat := 0
  completed : Nat := 0
deriving DecidableEq, Repr

/-- A scaling decision: how many runners there shall be, and the id of the decision. -/
structure ScalePatch where
  replicas : Nat
  patchId : Int
deriving DecidableEq, Repr

namespace JobBatch

/-- Read the counts of jobs. -/
def reader : Reader JobBatch :=
  Fields.reader <|
    Fields.build JobBatch.mk
      |>.and (.withDefault "acquired" Reader.natural32 0)
      |>.and (.withDefault "completed" Reader.natural32 0)

/-- The counts of jobs as a JSON value. -/
def toJson (b : JobBatch) : Json :=
  .object [("acquired", .integer b.acquired), ("completed", .integer b.completed)]

/-- Whether there is nothing to report. -/
def isEmpty (b : JobBatch) : Bool :=
  b.acquired = 0 && b.completed = 0

end JobBatch

namespace ScalePatch

/-- Read a scaling decision. -/
def reader : Reader ScalePatch :=
  Fields.reader <|
    Fields.build ScalePatch.mk
      |>.and (.required "replicas" Reader.natural32)
      |>.and (.required "patch_id" Reader.integer64)

/-- A scaling decision as a JSON value. -/
def toJson (p : ScalePatch) : Json :=
  .object [("replicas", .integer p.replicas), ("patch_id", .integer p.patchId)]

end ScalePatch

namespace Scaling

/-- The largest number of runners that can be asked for. -/
def countLimit : Nat := 2 ^ 32 - 1

/-- Between how many runners a set shall have, and how many it gets for each acquired job. -/
structure Bounds where
  min : Nat
  max : Nat := countLimit
  factor : Binary64 := Binary64.one
deriving DecidableEq

namespace Bounds

/-- The number within the bounds that is nearest to `n`; the upper bound outweighs the lower one. -/
def clamp (b : Bounds) (n : Nat) : Nat :=
  Nat.min (Nat.max n b.min) b.max

/-- A clamped number is at most the maximum. -/
theorem clamp_le_max (b : Bounds) (n : Nat) : b.clamp n ≤ b.max :=
  Nat.min_le_right _ _

/-- How many runners each acquired job counts for; at least one. -/
def effectiveFactor (b : Bounds) : Binary64 :=
  if Binary64.le Binary64.one b.factor then b.factor else Binary64.one

/-- The runners for this many acquired jobs, rounded up. -/
def scaled (b : Bounds) (acquired : Nat) : Nat :=
  Binary64.ceilUpTo countLimit (Binary64.mul (Binary64.ofNat acquired) b.effectiveFactor)

/-- The number of runners for this many acquired jobs: those on top of the lower bound. -/
def target (b : Bounds) (acquired : Nat) : Nat :=
  b.clamp (Nat.min (b.min + b.scaled acquired) countLimit)

end Bounds

/--
The number of runners after an empty report. It does not go below the last one, but stays within
the bounds.
-/
def idleReplicas (b : Bounds) (last : ScalePatch) : Nat :=
  b.clamp (Nat.max last.replicas (b.target 0))

/--
The decision after a report, given the one before. An empty report keeps the patch id, except that
a number at a positive lower bound is asked for again.
-/
def next (b : Bounds) (last : Option ScalePatch) (batch : JobBatch) : ScalePatch :=
  match last with
  | none => ⟨b.target batch.acquired, 0⟩
  | some last =>
      if batch.isEmpty then
        let replicas := idleReplicas b last
        ⟨replicas, if 0 < b.min ∧ replicas = b.min then last.patchId + 1 else last.patchId⟩
      else ⟨b.target batch.acquired, last.patchId + 1⟩

end Scaling
end RunnerFleet
