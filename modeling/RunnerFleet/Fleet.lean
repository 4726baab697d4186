import RunnerFleet.Resource.Runner

/-!
# The fleet of a runner set

The runners of a set, sorted by what is to be done with them. The fleet is looked at anew whenever
something is decided about it.

The runners are counted with natural numbers.  Counts that are written to a runner set are kept in
32 bits there, which are enough for every fleet of less than `2 ^ 32` runners.

Main results:

- `size_classify`: every runner of the list is in exactly one group.
- `deletionOrder_perm`: the deletion order has the pending and running runners, each once.
-/

namespace RunnerFleet

/-- The groups that runners are sorted into. -/
inductive Bucket where
  | pending
  | running
  | finished
  | failed
  | deleting
deriving DecidableEq, Repr

/-- The group of a runner. Whatever its phase, a runner whose removal was requested is deleting. -/
def Bucket.of (r : Runner) : Bucket :=
  if r.isDeleting then deleting
  else
    match r.status.phase with
    | .running => running
    | .succeeded => finished
    | .failed => failed
    | .pending => pending
    | .unknown => pending

/-- The runners of one runner set by their groups. -/
structure Fleet where
  pending : List Runner
  running : List Runner
  finished : List Runner
  failed : List Runner
  deleting : List Runner
  /-- The highest patch id that a runner of any group bears. -/
  latestPatchId : Option Int

namespace Fleet

/-- Sort runners into their groups; within a group they keep their order. -/
def classify (runners : List Runner) : Fleet where
  pending := runners.filter (Bucket.of · = .pending)
  running := runners.filter (Bucket.of · = .running)
  finished := runners.filter (Bucket.of · = .finished)
  failed := runners.filter (Bucket.of · = .failed)
  deleting := runners.filter (Bucket.of · = .deleting)
  latestPatchId := (runners.filterMap Runner.patchId).max?

/-- The runners that count towards the number that is asked for. -/
def scaleTotal (f : Fleet) : Nat :=
  f.pending.length + f.running.length + f.failed.length

/-- Whether the fleet was made for this decision: no runner bears a later patch id, and one bears
this one. -/
def isAdopted (f : Fleet) (patchId : Int) : Bool :=
  f.latestPatchId = some patchId

/-- The number of runners. -/
def size (f : Fleet) : Nat :=
  f.pending.length + f.running.length + f.finished.length + f.failed.length + f.deleting.length

/-- Whether there are no runners. -/
def isEmpty (f : Fleet) : Bool :=
  f.size = 0

/-- The counts of the runner set. -/
def status (f : Fleet) : RunnerSetStatus where
  current := f.scaleTotal
  pending := f.pending.length
  running := f.running.length
  failed := f.failed.length

/-- The runners that are done and may be removed at any time. -/
def cleanupCandidates (f : Fleet) : List Runner :=
  f.finished ++ f.failed

/-- Whether `a` goes before `b` in the deletion order: older runners first, those of unknown age
before all others, and equally old ones by their names. -/
def isOlder (a b : Runner) : Bool :=
  match a.metadata.creation, b.metadata.creation with
  | none, some _ => true
  | some _, none => false
  | none, none => !decide (b.name < a.name)
  | some x, some y => decide (x < y) || (!decide (y < x) && !decide (b.name < a.name))

/-- The runners that may be reclaimed, in the order in which they are. -/
def deletionOrder (f : Fleet) : List Runner :=
  (f.pending ++ f.running).mergeSort isOlder

/-- Classification loses no runner and counts none twice. -/
@[simp]
theorem size_classify (runners : List Runner) :
    (classify runners).size = runners.length := by
  unfold size classify
  simp only
  induction runners with
  | nil => rfl
  | cons r rest ih =>
      cases h : Bucket.of r <;> simp [h] <;> omega

/-- The order of deletion lists the pending and the running runners, each once. -/
theorem deletionOrder_perm (f : Fleet) : f.deletionOrder.Perm (f.pending ++ f.running) :=
  List.mergeSort_perm _ _

end Fleet
end RunnerFleet
