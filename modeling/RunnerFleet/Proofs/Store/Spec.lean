import RunnerFleet.Proofs.Store.Keyed

/-!
# What is asked of a runner set

A set whose removal was not requested stays in the store until it is, and only a scaling decision
changes what is asked of it.

Main results:

- `spec_of_onSet`: what an operation leaves of a set that is not being removed.
- `spec_eq_of_onSet`: what is asked of a set changes only by an operation that says so.
- `isDeleting_of_onSet`: a request for the removal of a set is not taken back.
- `patchSpec_ok`: a decision for such a set is accepted.
-/

namespace RunnerFleet
namespace Store

/-- A change to an object that is not being removed leaves it in its table. -/
theorem changed?_of_live {change : RunnerSet → RunnerSet} {old : RunnerSet}
    (h : (change old).metadata.isDeleting = false) :
    changed? change old = some (mapMetadata (change old) fun m =>
      { m with resourceVersion := m.resourceVersion + 1 }) := by
  have hkept : (Stored.metadata (mapMetadata (change old) fun m =>
      { m with resourceVersion := m.resourceVersion + 1 })).isDeleting = false := h
  rw [changed?, hkept, Bool.false_and, if_neg Bool.false_ne_true]

/-- A set that is not being removed stays so, and is asked for the same unless it is patched. -/
theorem spec_of_onSet {op : Operation} (stamp : Stamp) {key : String} {set : RunnerSet}
    (hlive : set.metadata.isDeleting = false) (hdelete : op ≠ .deleteSet key)
    (hpatch : ∀ replicas patchId, op ≠ .patchSpec key replicas patchId) :
    ∃ new, op.onSet stamp key (some set) = some new ∧ new.metadata.isDeleting = false ∧
      new.spec = set.spec := by
  cases op with
  | createSet new =>
      simp only [Operation.onSet]
      split <;> exact ⟨set, rfl, hlive, rfl⟩
  | deleteSet k =>
      simp only [Operation.onSet]
      split
      · rename_i hkey
        exact absurd (hkey ▸ rfl) hdelete
      · exact ⟨set, rfl, hlive, rfl⟩
  | patchSpec k replicas patchId =>
      simp only [Operation.onSet]
      split
      · rename_i hkey
        exact absurd (hkey ▸ rfl) (hpatch replicas patchId)
      · exact ⟨set, rfl, hlive, rfl⟩
  | updateSetStatus _ _ | setSetFinalizers _ _ =>
      simp only [Operation.onSet, Option.bind_some]
      split
      · rw [changed?_of_live (by exact hlive)]
        exact ⟨_, rfl, hlive, rfl⟩
      · exact ⟨set, rfl, hlive, rfl⟩
  | _ => exact ⟨set, rfl, hlive, rfl⟩

/-- A patched set is asked for what the decision says, and is held as before. -/
theorem spec_of_patchSpec (stamp : Stamp) (key : String) {set : RunnerSet}
    (hlive : set.metadata.isDeleting = false) (replicas : Nat) (patchId : Int) :
    ∃ new, (Operation.patchSpec key replicas patchId).onSet stamp key (some set) = some new ∧
      new.metadata.isDeleting = false ∧ new.spec.replicas = replicas ∧
      new.spec.patchId = patchId ∧ new.metadata.finalizers = set.metadata.finalizers := by
  simp only [Operation.onSet, if_true, Option.bind_some]
  rw [changed?_of_live (by exact hlive)]
  exact ⟨_, rfl, hlive, rfl, rfl, rfl⟩

/-- A set is held by the finalizers that are written, and is asked for the same. -/
theorem spec_of_setFinalizers (stamp : Stamp) (key : String) {set : RunnerSet}
    (hlive : set.metadata.isDeleting = false) (finalizers : List String) :
    ∃ new, (Operation.setSetFinalizers key finalizers).onSet stamp key (some set) = some new ∧
      new.metadata.isDeleting = false ∧ new.spec = set.spec ∧
      new.metadata.finalizers = finalizers := by
  simp only [Operation.onSet, if_true, Option.bind_some]
  rw [changed?_of_live (by exact hlive)]
  exact ⟨_, rfl, hlive, rfl, rfl⟩

/-- The operation says what is asked of a set: it stores the set, or patches it. -/
def Operation.Specifies (key : String) : Operation → Prop
  | createSet set => set.key = key
  | patchSpec k _ _ => k = key
  | _ => False

/-- What is asked of a set was asked before, unless the operation says so. -/
theorem spec_eq_of_onSet {op : Operation} {stamp : Stamp} {key : String}
    {before : Option RunnerSet} {new : RunnerSet} (h : op.onSet stamp key before = some new)
    (hspec : ¬ op.Specifies key) : ∃ old, before = some old ∧ new.spec = old.spec := by
  cases op with
  | createSet set =>
      have hkey : key ≠ set.key := fun hkey => hspec hkey.symm
      rw [Operation.onSet, if_neg hkey] at h
      exact ⟨new, h, rfl⟩
  | patchSpec k replicas patchId =>
      have hkey : key ≠ k := fun hkey => hspec hkey.symm
      rw [Operation.onSet, if_neg hkey] at h
      exact ⟨new, h, rfl⟩
  | updateSetStatus k _ | setSetFinalizers k _ =>
      simp only [Operation.onSet] at h
      split at h
      · obtain ⟨old, hold, hnew⟩ := Option.bind_eq_some_iff.1 h
        exact ⟨old, hold, by rw [eq_of_changed? hnew]; rfl⟩
      · exact ⟨new, h, rfl⟩
  | deleteSet k =>
      simp only [Operation.onSet] at h
      split at h
      · obtain ⟨old, hold, hnew⟩ := Option.bind_eq_some_iff.1 h
        exact ⟨old, hold, by rcases eq_of_removed? hnew with rfl | rfl <;> rfl⟩
      · exact ⟨new, h, rfl⟩
  | _ => exact ⟨new, h, rfl⟩

/-- A request for the removal of a set is not taken back. -/
theorem isDeleting_of_onSet {op : Operation} {stamp : Stamp} {key : String} {old new : RunnerSet}
    (h : op.onSet stamp key (some old) = some new) (hremoving : old.metadata.isDeleting = true) :
    new.metadata.isDeleting = true := by
  cases op with
  | createSet set =>
      simp only [Operation.onSet, Option.getD_some, ite_self] at h
      exact Option.some.inj h ▸ hremoving
  | patchSpec k _ _ | updateSetStatus k _ | setSetFinalizers k _ =>
      simp only [Operation.onSet, Option.bind_some] at h
      split at h
      · rw [eq_of_changed? h]
        exact hremoving
      · exact Option.some.inj h ▸ hremoving
  | deleteSet k =>
      simp only [Operation.onSet, Option.bind_some] at h
      split at h
      · rcases eq_of_removed? h with rfl | rfl
        · exact hremoving
        · rfl
      · exact Option.some.inj h ▸ hremoving
  | _ => exact Option.some.inj h ▸ hremoving

/-- A set that was just patched is asked for this many runners. -/
theorem replicas_of_patchSpec {s : Store} {key : String} {stamp : Stamp} {replicas : Nat}
    {patchId : Int} {new : RunnerSet}
    (h : (s.perform stamp (.patchSpec key replicas patchId)).store.getSet key = some new) :
    new.spec.replicas = replicas := by
  rw [getSet_perform, Operation.onSet, if_pos rfl] at h
  obtain ⟨old, -, hnew⟩ := Option.bind_eq_some_iff.1 h
  rw [eq_of_changed? hnew]
  rfl

/-- A decision for a set that is not being removed is accepted. -/
theorem patchSpec_ok {s : Store} {key : String} {set : RunnerSet} (hset : s.getSet key = some set)
    (hlive : set.metadata.isDeleting = false) (stamp : Stamp) (replicas : Nat) (patchId : Int) :
    ∃ new, (s.perform stamp (.patchSpec key replicas patchId)).result = .ok new := by
  have hget : s.sets.get? key = some set := hset
  have hkept : ∀ n : Nat,
      (Metadata.isDeleting { set.metadata with resourceVersion := n }) = false :=
    fun _ => hlive
  simp [perform, Outcome.present, settleSets, modify, hget, mapMetadata, Stored.metadata,
    Stored.withMetadata, hkept]

end Store
end RunnerFleet
