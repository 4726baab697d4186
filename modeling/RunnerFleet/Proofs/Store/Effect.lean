import RunnerFleet.Store.Operation

/-!
# The effect of an operation on one object

An operation writes to at most one key of one table.  This module says, for every key of both
tables, what an operation makes of the object that was there.  Statements about the store are read
off these equations, so that no later proof looks into the tables.

Main results:

- `get?_insertNew`, `get?_modify`, `get?_remove`: what a look-up sees after each kind of change.
- `getSet_perform`, `getRunner_perform`: an operation acts on each key by `Operation.onSet` and
  `Operation.onRunner`.
-/

namespace RunnerFleet
namespace Store

/-! ## Changes of a table -/

section Table

variable {α β : Type} [Stored α]

/-- The table after a change that may have been refused. -/
def tableAfter (table : KeyMap α) : Except Error (Change α β) → KeyMap α
  | .ok change => change.table
  | .error _ => table

/-- A new object as its table holds it. -/
def created (stamp : Stamp) (object : α) : α :=
  mapMetadata object (stampNew stamp)

/-- What a change leaves of an object: nothing, if it released the last finalizer of an object
whose removal was requested. -/
def changed? (change : α → α) (object : α) : Option α :=
  let object := mapMetadata (change object) fun m =>
    { m with resourceVersion := m.resourceVersion + 1 }
  if (Stored.metadata object).isDeleting && (Stored.metadata object).finalizers.isEmpty then none
  else some object

/-- An object with the request for its removal noted on it. -/
def condemned (now : Timestamp) (object : α) : α :=
  mapMetadata object fun m =>
    { m with deletion := some now, resourceVersion := m.resourceVersion + 1 }

/-- What a request for removal leaves of an object. -/
def removed? (now : Timestamp) (object : α) : Option α :=
  if (Stored.metadata object).finalizers.isEmpty then none
  else if (Stored.metadata object).isDeleting then some object
  else some (condemned now object)

/-- A new object is stored under its key unless there is one already. -/
theorem get?_insertNew (table : KeyMap α) (key : String) (object : α) (stamp : Stamp)
    (k : String) :
    (tableAfter table (insertNew table key object stamp)).get? k =
      if k = key then some ((table.get? k).getD (created stamp object)) else table.get? k := by
  unfold insertNew
  by_cases hk : k = key
  · subst hk
    cases h : table.get? k with
    | none => simp [tableAfter, created]
    | some old => simp [tableAfter, h]
  · cases h : table.get? key with
    | none => simp [tableAfter, hk]
    | some old => simp [tableAfter, hk]

/-- A change acts on the object under its key and on no other. -/
theorem get?_modify (table : KeyMap α) (key : String) (change : α → α) (k : String) :
    (tableAfter table (modify table key change)).get? k =
      if k = key then (table.get? k).bind (changed? change) else table.get? k := by
  unfold modify
  by_cases hk : k = key
  · subst hk
    cases h : table.get? k with
    | none => simp [tableAfter, h]
    | some old =>
        simp only [if_true, Option.bind_some, changed?]
        split
        · simp [tableAfter]
        · simp [tableAfter]
  · cases h : table.get? key with
    | none => simp [tableAfter, hk]
    | some old =>
        simp only [hk, if_false]
        split
        · simp [tableAfter, hk]
        · simp [tableAfter, hk]

/-- A request for removal acts on the object under its key and on no other. -/
theorem get?_remove (table : KeyMap α) (key : String) (now : Timestamp) (k : String) :
    (tableAfter table (remove table key now)).get? k =
      if k = key then (table.get? k).bind (removed? now) else table.get? k := by
  unfold remove
  by_cases hk : k = key
  · subst hk
    cases h : table.get? k with
    | none => simp [tableAfter, h]
    | some old =>
        simp only [if_true, Option.bind_some, removed?]
        split
        · simp [tableAfter]
        · split
          · simp [tableAfter, h]
          · simp [tableAfter, condemned]
  · cases h : table.get? key with
    | none => simp [tableAfter, hk]
    | some old =>
        simp only [hk, if_false]
        split
        · simp [tableAfter, hk]
        · split
          · simp [tableAfter]
          · simp [tableAfter, hk]

end Table

/-! ## Operations on the store -/

/-- What an operation makes of what is stored under a key of the runner sets. -/
def Operation.onSet (stamp : Stamp) (key : String) (before : Option RunnerSet) :
    Operation → Option RunnerSet
  | createSet set => if key = set.key then some (before.getD (created stamp set)) else before
  | patchSpec k replicas patchId =>
      if key = k then
        before.bind (changed? fun set => { set with spec := { set.spec with replicas, patchId } })
      else before
  | updateSetStatus k status =>
      if key = k then before.bind (changed? fun set => { set with status }) else before
  | setSetFinalizers k finalizers =>
      if key = k then
        before.bind (changed? fun set => { set with metadata := { set.metadata with finalizers } })
      else before
  | deleteSet k => if key = k then before.bind (removed? stamp.now) else before
  | _ => before

/-- What an operation makes of what is stored under a key of the runners. -/
def Operation.onRunner (stamp : Stamp) (key : String) (before : Option Runner) :
    Operation → Option Runner
  | createRunner runner =>
      if runner.ownerKey.map (runnerKey · runner.name) = some key then
        some (before.getD (created stamp runner))
      else before
  | updateRunnerStatus owner name status =>
      if key = runnerKey owner name then
        before.bind (changed? fun runner => { runner with status })
      else before
  | setRunnerFinalizers owner name finalizers =>
      if key = runnerKey owner name then
        before.bind (changed? fun runner =>
          { runner with metadata := { runner.metadata with finalizers } })
      else before
  | deleteRunner owner name =>
      if key = runnerKey owner name then before.bind (removed? stamp.now) else before
  | _ => before

section Settle

variable {β : Type} (s : Store)

@[simp]
theorem settleSets_store (result : Except Error (Change RunnerSet β)) :
    (s.settleSets result).store = { s with sets := tableAfter s.sets result } := by
  cases result <;> rfl

@[simp]
theorem settleRunners_store (result : Except Error (Change Runner β)) :
    (s.settleRunners result).store = { s with runners := tableAfter s.runners result } := by
  cases result <;> rfl

@[simp]
theorem present_store (key : String) (o : Outcome (Option β)) : (o.present key).store = o.store :=
  rfl

end Settle

/-- An operation acts on each key of the runner sets by itself. -/
theorem getSet_perform (s : Store) (stamp : Stamp) (op : Operation) (key : String) :
    (s.perform stamp op).store.getSet key = op.onSet stamp key (s.getSet key) := by
  cases op with
  | createSet set =>
      rw [perform, settleSets_store]
      exact get?_insertNew s.sets set.key set stamp key
  | patchSpec k replicas patchId =>
      rw [perform, present_store, settleSets_store]
      exact get?_modify s.sets k _ key
  | updateSetStatus k status =>
      rw [perform, present_store, settleSets_store]
      exact get?_modify s.sets k _ key
  | setSetFinalizers k finalizers =>
      rw [perform, settleSets_store]
      exact get?_modify s.sets k _ key
  | deleteSet k =>
      rw [perform, settleSets_store]
      exact get?_remove s.sets k stamp.now key
  | createRunner runner =>
      rw [perform, createRunner]
      split
      · rw [settleRunners_store]
        rfl
      · rfl
  | updateRunnerStatus owner name status =>
      rw [perform, present_store, settleRunners_store]
      rfl
  | setRunnerFinalizers owner name finalizers =>
      rw [perform, settleRunners_store]
      rfl
  | deleteRunner owner name =>
      rw [perform, settleRunners_store]
      rfl
  | getSet _ => rfl
  | listSets => rfl
  | getRunner _ _ => rfl
  | listRunners _ => rfl

/-- An operation acts on each key of the runners by itself. -/
theorem getRunner_perform (s : Store) (stamp : Stamp) (op : Operation) (key : String) :
    (s.perform stamp op).store.runners.get? key = op.onRunner stamp key (s.runners.get? key) := by
  cases op with
  | createRunner runner =>
      rw [perform, createRunner, Operation.onRunner]
      split <;> rename_i h
      · rw [settleRunners_store, h]
        simpa [eq_comm] using get?_insertNew s.runners _ runner stamp key
      · rw [h]
        rfl
  | updateRunnerStatus owner name status =>
      rw [perform, present_store, settleRunners_store]
      exact get?_modify s.runners (runnerKey owner name) _ key
  | setRunnerFinalizers owner name finalizers =>
      rw [perform, settleRunners_store]
      exact get?_modify s.runners (runnerKey owner name) _ key
  | deleteRunner owner name =>
      rw [perform, settleRunners_store]
      exact get?_remove s.runners (runnerKey owner name) stamp.now key
  | createSet set =>
      rw [perform, settleSets_store]
      rfl
  | patchSpec k replicas patchId =>
      rw [perform, present_store, settleSets_store]
      rfl
  | updateSetStatus k status =>
      rw [perform, present_store, settleSets_store]
      rfl
  | setSetFinalizers k finalizers =>
      rw [perform, settleSets_store]
      rfl
  | deleteSet k =>
      rw [perform, settleSets_store]
      rfl
  | getSet _ => rfl
  | listSets => rfl
  | getRunner _ _ => rfl
  | listRunners _ => rfl

/-- An operation that changes a runner set touches no runner. -/
theorem onRunner_of_onSet_ne {op : Operation} {stamp : Stamp} {key : String}
    {before : Option RunnerSet} (h : op.onSet stamp key before ≠ before) (k : String)
    (runner : Option Runner) : op.onRunner stamp k runner = runner := by
  cases op with
  | createRunner _ | updateRunnerStatus _ _ _ | setRunnerFinalizers _ _ _ | deleteRunner _ _ =>
      exact absurd rfl h
  | _ => rfl

end Store
end RunnerFleet
