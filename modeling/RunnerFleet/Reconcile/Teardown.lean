import RunnerFleet.Resource.RunnerSet

/-!
# The end of a runner set

A runner set whose removal was requested stays until its runners are gone: the controller holds a
finalizer on it, which it adds before the set has runners and releases after the last of them. The
finalizers of others are left alone.

Main results:

- `mem_withFinalizer`, `mem_withoutFinalizer`: which finalizers there are after adding or releasing
  the controller's.
-/

namespace RunnerFleet
namespace Reconcile

/-- How far the removal of a runner set has come. -/
inductive Teardown where
  /-- Removal was not requested. -/
  | active
  /-- Removal was requested, and there are runners. -/
  | draining
  /-- Removal was requested, and there are no runners. -/
  | removable
deriving DecidableEq, Repr

/-- How far the removal of an object with this many children has come. -/
def Teardown.observe (m : Metadata) (children : Nat) : Teardown :=
  if !m.isDeleting then active else if 0 < children then draining else removable

/-- The finalizers with the controller's among them. -/
def withFinalizer (m : Metadata) : List String :=
  if m.hasFinalizer RunnerSet.finalizer then m.finalizers
  else m.finalizers ++ [RunnerSet.finalizer]

/-- The finalizers without the controller's. -/
def withoutFinalizer (m : Metadata) : List String :=
  m.finalizers.filter (· ≠ RunnerSet.finalizer)

/-- Adding the finalizer adds that finalizer only. -/
@[simp]
theorem mem_withFinalizer {m : Metadata} {f : String} :
    f ∈ withFinalizer m ↔ f ∈ m.finalizers ∨ f = RunnerSet.finalizer := by
  unfold withFinalizer
  split
  · rename_i h
    have : RunnerSet.finalizer ∈ m.finalizers := by simpa [Metadata.hasFinalizer] using h
    constructor
    · exact Or.inl
    · rintro (h | rfl)
      · exact h
      · exact this
  · simp

/-- Taking the finalizer off takes no other off. -/
theorem mem_withoutFinalizer {m : Metadata} {f : String} :
    f ∈ withoutFinalizer m ↔ f ∈ m.finalizers ∧ f ≠ RunnerSet.finalizer := by
  simp [withoutFinalizer]

end Reconcile
end RunnerFleet
