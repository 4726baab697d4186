import RunnerFleet.Resource.RunnerSet
import RunnerFleet.Text.Decimal

/-!
# Runners

A runner takes one job and is gone after it. It is owned by the runner set it was made for, and
notes in an annotation which scaling decision it was made for.

The numbers of registrations and jobs are kept in 64 bits with a sign, within which they are read
(`RunnerStatus.reader`); nothing is computed from them.
-/

namespace RunnerFleet

/-- The phases of a runner's life. -/
inductive RunnerPhase where
  | pending
  | running
  | succeeded
  | failed
  | unknown
deriving DecidableEq, Repr

/-- What is known of a runner. -/
structure RunnerStatus where
  phase : RunnerPhase := .pending
  /-- The number under which the runner is registered, or zero. -/
  runnerId : Int := 0
  /-- The job that the runner works on, or zero. -/
  jobRequestId : Int := 0
  message : Option String := none
deriving DecidableEq

/-- A runner. -/
structure Runner where
  metadata : Metadata
  template : RunnerTemplate
  status : RunnerStatus := {}
deriving DecidableEq

namespace Runner

/-- The annotation for the patch id of the decision that a runner was made for. -/
def patchAnnotation : String := "actions.github.com/patch-id"

/-- The name of the runner. -/
def name (r : Runner) : String :=
  r.metadata.name

/-- The patch id that the runner was made for, if it bears one. -/
def patchId (r : Runner) : Option Int :=
  (r.metadata.annotations.get? patchAnnotation).bind fun text =>
    Text.toInt64? (Text.trimBlanks text.toList)

/-- Whether the runner is registered with the jobs service. -/
def isRegistered (r : Runner) : Bool :=
  r.status.runnerId ≠ 0

/-- Whether the runner works on a job. -/
def hasJob (r : Runner) : Bool :=
  0 < r.status.jobRequestId

/-- Whether removal of the runner was requested. -/
def isDeleting (r : Runner) : Bool :=
  r.metadata.isDeleting

/-- The key of the object that owns the runner, if there is one. -/
def ownerKey (r : Runner) : Option String :=
  r.metadata.owner.map fun owner => r.metadata.namespaceName ++ "/" ++ owner.name

end Runner
end RunnerFleet
