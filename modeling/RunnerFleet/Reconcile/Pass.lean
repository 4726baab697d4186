import RunnerFleet.Fleet
import RunnerFleet.Reconcile.Program
import RunnerFleet.Reconcile.Teardown

/-!
# The reconcile pass

A pass brings the runners of one set closer to what is asked for. It reads everything anew, so a
pass that is cut off leaves nothing to repair. An error in one step does not keep the others from
being tried; all errors are reported at the end.

- A set that is not there, or that is being removed and no longer held, needs nothing.
- A set without the controller's finalizer gets it, and nothing else in this pass.
- A live set has its finished and failed runners deleted. If its latest decision has not been acted
  on, runners are created or reclaimed. Then the counts are written if they changed.
- A set that is being removed has its runners deleted and reclaimed, and is released after the last.

A runner is reclaimed only if it is registered and has no job, and only after the Actions service
agreed to remove it.
-/

namespace RunnerFleet
namespace Reconcile

open Program

/-- Whether a runner may be reclaimed: it is registered and has no job. -/
def isReclaimable (r : Runner) : Bool :=
  r.isRegistered && !r.hasJob

/-- A new runner for a set, made for the set's current decision. -/
def newRunner (set : RunnerSet) (suffix : String) : Runner where
  metadata :=
    { name := set.metadata.name ++ "-runner-" ++ suffix
      namespaceName := set.metadata.namespaceName
      labels := set.spec.template.labels
      annotations := KeyMap.empty.insert Runner.patchAnnotation (toString set.spec.patchId)
      owner := some set.ownerReference }
  template := set.spec.template

/-- A runner created for a set is owned by that set. -/
@[simp]
theorem newRunner_ownerKey (set : RunnerSet) (suffix : String) :
    (newRunner set suffix).ownerKey = some set.key :=
  rfl

/-! ## Single steps -/

/-- The result of a write to an object; that the object is gone is no error. -/
def tolerateMissing : Except Store.Error Unit → Except Error Unit
  | .ok () => .ok ()
  | .error e => if e.isNotFound then .ok () else .error (.store e)

/-- The error of a step that failed. -/
def errorsOf {α : Type} : Except Error α → List Error
  | .ok _ => []
  | .error e => [e]

/-- Delete a runner; that it is gone is no error. -/
def discard (ownerKey : String) (r : Runner) : Program (Except Error Unit) := do
  match ← deleteRunner ownerKey r.name with
  | .ok () => return .ok ()
  | .error e => return if e.isNotFound then .ok () else .error (.deleteRunner r.name e)

/--
Remove a runner's registration and then the runner. The answer is `false` if the runner has taken
a job and stays.
-/
def retire (ownerKey : String) (r : Runner) : Program (Except Error Bool) := do
  match ← deregister r.status.runnerId with
  | .ok () => return (← discard ownerKey r).map fun _ => true
  | .error e =>
      return if e.isJobStillRunning then .ok false
        else .error (.deregister r.name r.status.runnerId e)

/-! ## Steps over many runners -/

/-- Delete all of these runners. -/
def cleanup (ownerKey : String) : List Runner → Program (List Error)
  | [] => return []
  | r :: rest => do
      let result ← discard ownerKey r
      let errors ← cleanup ownerKey rest
      return errorsOf result ++ errors

/-- Create a runner for each of these suffixes. -/
def createRunners (set : RunnerSet) : List String → Program (List Error)
  | [] => return []
  | suffix :: rest => do
      let result ← createRunner (newRunner set suffix)
      let errors ← createRunners set rest
      match result with
      | .ok _ => return errors
      | .error e => return .createRunner set.key e :: errors

/--
Reclaim up to `count` of these runners, the first ones first. The answer has the number of runners
that were reclaimed.
-/
def reclaim (ownerKey : String) : (count : Nat) → List Runner → Program (Nat × List Error)
  | 0, _ => return (0, [])
  | _ + 1, [] => return (0, [])
  | count + 1, r :: rest =>
      if isReclaimable r then do
        match ← retire ownerKey r with
        | .ok true =>
            let (removed, errors) ← reclaim ownerKey count rest
            return (removed + 1, errors)
        | .ok false => reclaim ownerKey (count + 1) rest
        | .error e =>
            let (removed, errors) ← reclaim ownerKey (count + 1) rest
            return (removed, e :: errors)
      else reclaim ownerKey (count + 1) rest

/-! ## The pass -/

/-- Write the counts of the fleet to the set, unless the set had them when the pass began. -/
def writeStatus (set : RunnerSet) (fleet : Fleet) : Program (List Error) := do
  if set.status = fleet.status then return []
  else return errorsOf (tolerateMissing (← updateStatus set.key fleet.status))

/-- What a fleet lacks, or has too much of, for the decision that is to be acted on. -/
inductive Gap where
  | nothing
  | missing (count : Nat)
  | spare (count : Nat)
deriving DecidableEq, Repr

/-- The gap between a set and its fleet. There is none once the decision was acted on. -/
def gap (set : RunnerSet) (fleet : Fleet) : Gap :=
  if fleet.isAdopted set.spec.patchId then .nothing
  else if fleet.scaleTotal < set.spec.replicas then
    .missing (set.spec.replicas - fleet.scaleTotal)
  else if set.spec.replicas < fleet.scaleTotal then
    .spare (fleet.scaleTotal - set.spec.replicas)
  else .nothing

/-- Close the gap between a set and its fleet. -/
def closeGap (suffix : Nat → String) (set : RunnerSet) (fleet : Fleet) : Program (List Error) :=
  match gap set fleet with
  | .nothing => return []
  | .missing count => createRunners set ((List.range count).map suffix)
  | .spare count => return (← reclaim set.key count fleet.deletionOrder).2

/-- Look at the fleet again, if the pass acted on it. -/
def review (set : RunnerSet) (fleet : Fleet) (acted : Bool) : Program (Fleet × List Error) := do
  if acted then
    match ← listRunners set.key with
    | .ok runners => return (Fleet.classify runners, [])
    | .error e => return (fleet, [.store e])
  else return (fleet, [])

/-- The part of a pass that concerns a live set. -/
def converge (suffix : Nat → String) (set : RunnerSet) (fleet : Fleet) :
    Program (Except Error Unit) := do
  let cleanupErrors ← cleanup set.key fleet.cleanupCandidates
  let gapErrors ← closeGap suffix set fleet
  let acted := !fleet.cleanupCandidates.isEmpty || gap set fleet ≠ .nothing
  let (fleet, reviewErrors) ← review set fleet acted
  let statusErrors ← writeStatus set fleet
  return Error.collect (cleanupErrors ++ gapErrors ++ reviewErrors ++ statusErrors)

/-- The part of a pass that concerns a set which is being removed and has runners. -/
def drain (set : RunnerSet) (fleet : Fleet) : Program (Except Error Unit) := do
  let cleanupErrors ← cleanup set.key fleet.cleanupCandidates
  let live := fleet.pending.length + fleet.running.length
  let (_, reclaimErrors) ← reclaim set.key live fleet.deletionOrder
  return Error.collect (cleanupErrors ++ reclaimErrors)

/-- The part of a pass that concerns a set which is being removed and has no runners left. -/
def release (set : RunnerSet) : Program (Except Error Unit) := do
  return tolerateMissing (← setFinalizers set.key (withoutFinalizer set.metadata))

/-- The part of a pass that concerns a set which holds the finalizer. -/
def proceed (suffix : Nat → String) (set : RunnerSet) (runners : List Runner) :
    Program (Except Error Unit) :=
  match Teardown.observe set.metadata runners.length with
  | .active => converge suffix set (Fleet.classify runners)
  | .draining => drain set (Fleet.classify runners)
  | .removable => release set

/-- A pass over the runner set under `key`. New runners take their suffixes from `suffix`. -/
def pass (suffix : Nat → String) (key : String) : Program (Except Error Unit) := do
  match ← getSet key with
  | .error e => return .error (.store e)
  | .ok none => return .ok ()
  | .ok (some set) =>
      if set.hasFinalizer then
        match ← listRunners key with
        | .error e => return .error (.store e)
        | .ok runners => proceed suffix set runners
      else if set.metadata.isDeleting then return .ok ()
      else return tolerateMissing (← setFinalizers key (withFinalizer set.metadata))

end Reconcile
end RunnerFleet
