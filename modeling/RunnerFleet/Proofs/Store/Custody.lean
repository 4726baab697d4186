import RunnerFleet.Proofs.Store.Keyed

/-!
# Runners in custody

A runner is in custody if the set that owns it is stored and holds the controller's finalizer.  Only
two kinds of operations bear on this: those that take the finalizer from a set, and those that
create a runner.  All others keep a set that holds the finalizer, and keep a set without runners.

Main results:

- `Holds.perform`: a set that holds the finalizer keeps it, unless it is taken away.
- `Childless.perform`: a set without runners has none, unless one is created.
- `Custody.perform`: custody is kept if the finalizer is only taken from a set without runners, and
  runners are only created for a set that holds it.
-/

namespace RunnerFleet
namespace Store

/-- The runner set under a key is stored and holds the finalizer for its runners. -/
def Holds (s : Store) (key : String) : Prop :=
  ∃ set, s.getSet key = some set ∧ set.hasFinalizer = true

/-- No runner is owned by the runner set with this key. -/
def Childless (s : Store) (key : String) : Prop :=
  ∀ k r, s.runners.get? k = some r → r.ownerKey ≠ some key

/-- Objects lie under their keys, and the owner of every runner holds the finalizer. -/
structure Custody (s : Store) : Prop extends Keyed s where
  holds : ∀ {k key : String} {r : Runner}, s.runners.get? k = some r → r.ownerKey = some key →
    s.Holds key

/-- The operation leaves a set without the finalizer for its runners. -/
def Operation.Releases (key : String) : Operation → Prop
  | setSetFinalizers k finalizers => k = key ∧ RunnerSet.finalizer ∉ finalizers
  | _ => False

/-- The operation creates a runner for a set. -/
def Operation.Populates (key : String) : Operation → Prop
  | createRunner r => r.ownerKey = some key
  | _ => False

/-! ## The finalizer stays -/

/-- What holds a finalizer has one. -/
theorem finalizers_ne_empty {set : RunnerSet} (h : set.hasFinalizer = true) :
    (Stored.metadata set).finalizers.isEmpty = false := by
  have hmem : RunnerSet.finalizer ∈ set.metadata.finalizers := by
    simpa [RunnerSet.hasFinalizer, Metadata.hasFinalizer] using h
  exact List.isEmpty_eq_false_iff.2 (List.ne_nil_of_mem hmem)

/-- A set that holds the finalizer after a change stays in the table, and holds it there. -/
theorem holds_of_changed? {change : RunnerSet → RunnerSet} {old : RunnerSet}
    (h : (change old).hasFinalizer = true) :
    ∃ new, changed? change old = some new ∧ new.hasFinalizer = true := by
  let new : RunnerSet := mapMetadata (change old) fun m =>
    { m with resourceVersion := m.resourceVersion + 1 }
  have hnew : new.hasFinalizer = true := h
  refine ⟨new, ?_, hnew⟩
  simp only [changed?]
  rw [finalizers_ne_empty hnew, Bool.and_false, if_neg Bool.false_ne_true]

/-- A set that holds the finalizer survives a request for its removal, and still holds it. -/
theorem holds_of_removed? {now : Timestamp} {old : RunnerSet} (h : old.hasFinalizer = true) :
    ∃ new, removed? now old = some new ∧ new.hasFinalizer = true := by
  simp only [removed?, finalizers_ne_empty h, Bool.false_eq_true, if_false]
  split
  · exact ⟨old, rfl, h⟩
  · exact ⟨condemned now old, rfl, h⟩

/-- A set that leaves the store with a change is being removed, and no finalizer holds it. -/
theorem gone_of_changed? {change : RunnerSet → RunnerSet} {old : RunnerSet}
    (h : changed? change old = none) :
    (change old).metadata.isDeleting = true ∧ (change old).metadata.finalizers = [] := by
  simp only [changed?] at h
  split at h
  · rename_i hgone
    obtain ⟨hdeleting, hempty⟩ := Bool.and_eq_true_iff.1 hgone
    exact ⟨hdeleting, List.isEmpty_iff.1 hempty⟩
  · cases h

/-- What an operation leaves of a set that holds the finalizer. -/
theorem holds_of_onSet {op : Operation} (stamp : Stamp) {key : String} {old : RunnerSet}
    (h : old.hasFinalizer = true) (hop : ¬ op.Releases key) :
    ∃ new, op.onSet stamp key (some old) = some new ∧ new.hasFinalizer = true := by
  cases op with
  | createSet set =>
      simp only [Operation.onSet]
      split
      · exact ⟨old, rfl, h⟩
      · exact ⟨old, rfl, h⟩
  | deleteSet k =>
      simp only [Operation.onSet]
      split
      · exact holds_of_removed? h
      · exact ⟨old, rfl, h⟩
  | setSetFinalizers k finalizers =>
      simp only [Operation.onSet, Option.bind_some]
      split
      · rename_i hkey
        have hmem : RunnerSet.finalizer ∈ finalizers :=
          Decidable.byContradiction fun hnot => hop ⟨hkey.symm, hnot⟩
        refine holds_of_changed? ?_
        simpa [RunnerSet.hasFinalizer, Metadata.hasFinalizer] using hmem
      · exact ⟨old, rfl, h⟩
  | patchSpec _ _ _ | updateSetStatus _ _ =>
      simp only [Operation.onSet, Option.bind_some]
      split
      · refine holds_of_changed? ?_
        exact h
      · exact ⟨old, rfl, h⟩
  | _ => exact ⟨old, rfl, h⟩

/-- A set that holds the finalizer keeps it, unless it is taken away. -/
theorem Holds.perform {s : Store} {key : String} (h : s.Holds key) (stamp : Stamp)
    {op : Operation} (hop : ¬ op.Releases key) : (s.perform stamp op).store.Holds key := by
  obtain ⟨old, hold, hfinalizer⟩ := h
  obtain ⟨new, hnew, hfinalizer⟩ := holds_of_onSet stamp hfinalizer hop
  refine ⟨new, ?_, hfinalizer⟩
  rw [getSet_perform, hold, hnew]

/-! ## Where runners come from -/

/-- The owner of a runner that is there after an operation had it before, or gets it now. -/
theorem ownerKey_of_onRunner {op : Operation} {stamp : Stamp} {k key : String}
    {before : Option Runner} {r : Runner} (h : op.onRunner stamp k before = some r)
    (howner : r.ownerKey = some key) :
    (∃ old, before = some old ∧ old.ownerKey = some key) ∨ op.Populates key := by
  rcases onRunner_cases h with ⟨old, hold, hakin⟩ | ⟨-, new, rfl, rfl, -⟩
  · exact Or.inl ⟨old, hold, hakin.owner.symm.trans howner⟩
  · exact Or.inr howner

/-- A set without runners has none, unless one is created. -/
theorem Childless.perform {s : Store} {key : String} (h : s.Childless key) (stamp : Stamp)
    {op : Operation} (hop : ¬ op.Populates key) : (s.perform stamp op).store.Childless key := by
  intro k r hr howner
  rw [getRunner_perform] at hr
  rcases ownerKey_of_onRunner hr howner with ⟨old, hold, howner'⟩ | hpop
  · exact h k old hold howner'
  · exact hop hpop

/-- A set has no runners if none are listed. -/
theorem Keyed.childless_of_nil {s : Store} (h : s.Keyed) {key : String}
    (hnone : s.runnersOf key = []) : s.Childless key := by
  intro k r hr howner
  have hlisted := h.mem_runnersOf.2 ⟨howner, h.key_eq hr howner ▸ hr⟩
  rw [hnone] at hlisted
  cases hlisted

/-- Custody is kept by an operation that takes the finalizer only from a set without runners, and
creates a runner only for a set that holds it. -/
theorem Custody.perform {s : Store} (h : s.Custody) (stamp : Stamp) {op : Operation}
    (hrelease : ∀ key, op.Releases key → s.Childless key)
    (hpopulate : ∀ key, op.Populates key → s.Holds key) :
    (s.perform stamp op).store.Custody where
  toKeyed := h.toKeyed.perform stamp op
  holds := by
    intro k key r hr howner
    rw [getRunner_perform] at hr
    rcases ownerKey_of_onRunner hr howner with ⟨old, hold, howner'⟩ | hpop
    · -- a runner that was there keeps its owner from being released
      exact (h.holds hold howner').perform stamp fun hrel => hrelease key hrel k old hold howner'
    · -- an operation that creates a runner releases nothing
      refine (hpopulate key hpop).perform stamp fun hrel => ?_
      cases op <;> simp [Operation.Populates, Operation.Releases] at hpop hrel

end Store
end RunnerFleet
