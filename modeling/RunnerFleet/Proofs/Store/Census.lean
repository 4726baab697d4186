import RunnerFleet.Proofs.Fleet.Groups
import RunnerFleet.Proofs.Store.Keyed
import Mathlib.Data.List.Perm.Subperm

/-!
# How many runners of a set are live

The live runners of a set are counted by their names, which are distinct.  An operation on one
runner can change the count by one at most, and whether it does is told by that runner alone.

Main results:

- `Keyed.mem_liveNames`: a name is live if the runner under the set's key and this name is.
- `liveCount_deleteRunner`: the deletion of a runner takes it off the count if it was live.
- `liveCount_createRunner`: a new runner counts if it is live.
- `liveCount_perform_le`, `liveCount_createRunner_le`: how far any operation may raise the count.
-/

namespace RunnerFleet
namespace Store

/-- How many runners of a set are live. -/
def liveCount (s : Store) (key : String) : Nat :=
  (s.runnersOf key).countP fun r => decide r.IsLive

/-- How many runners of a set have failed, without a request for their removal. -/
def failedCount (s : Store) (key : String) : Nat :=
  (s.runnersOf key).countP fun r => decide (r.isDeleting = false ∧ r.status.phase = .failed)

/-- How many runners of a set are idle, without a request for their removal. -/
def idleCount (s : Store) (key : String) : Nat :=
  (s.runnersOf key).countP fun r => decide (r.isDeleting = false ∧ r.IsIdle)

/-- The names of the live runners of a set. -/
def liveNames (s : Store) (key : String) : List String :=
  ((s.runnersOf key).filter fun r => decide r.IsLive).map Runner.name

theorem length_liveNames (s : Store) (key : String) :
    (s.liveNames key).length = s.liveCount key := by
  rw [liveNames, List.length_map, liveCount, List.countP_eq_length_filter]

/-- Stores in which a set has the same runners have the same number of live ones. -/
theorem liveCount_of_runners_eq {s s' : Store} (h : s'.runners = s.runners) (key : String) :
    s'.liveCount key = s.liveCount key := by
  simp only [liveCount, runnersOf, h]

/-- No two live runners of a set have the same name. -/
theorem Keyed.liveNames_nodup {s : Store} (h : s.Keyed) (key : String) :
    (s.liveNames key).Nodup := by
  have hsublist : (s.liveNames key).Sublist ((s.runnersOf key).map Runner.name) :=
    List.filter_sublist.map Runner.name
  exact hsublist.nodup (h.names_nodup key)

/-- A name is live if a live runner of the set lies under it. -/
theorem Keyed.mem_liveNames {s : Store} (h : s.Keyed) {key name : String} :
    name ∈ s.liveNames key ↔
      ∃ r, s.runners.get? (runnerKey key name) = some r ∧ r.ownerKey = some key ∧ r.name = name ∧
        r.IsLive := by
  rw [liveNames, List.mem_map]
  constructor
  · rintro ⟨r, hr, rfl⟩
    obtain ⟨hr, hlive⟩ := List.mem_filter.1 hr
    obtain ⟨howner, hget⟩ := h.mem_runnersOf.1 hr
    exact ⟨r, hget, howner, rfl, of_decide_eq_true hlive⟩
  · rintro ⟨r, hget, howner, rfl, hlive⟩
    exact ⟨r, List.mem_filter.2 ⟨h.mem_runnersOf.2 ⟨howner, hget⟩, decide_eq_true hlive⟩, rfl⟩

/-! ## Two stores that differ in one runner -/

section OneRunner

variable {s s' : Store} {key name : String} (h : s.Keyed) (h' : s'.Keyed)
  (hothers : ∀ k, k ≠ runnerKey key name → s'.runners.get? k = s.runners.get? k)

include h h' hothers

/-- Other names are as live as before. -/
theorem mem_liveNames_of_ne {n : String} (hne : n ≠ name) :
    n ∈ s'.liveNames key ↔ n ∈ s.liveNames key := by
  have hkey : runnerKey key n ≠ runnerKey key name := fun heq => hne (runnerKey_inj heq)
  rw [h.mem_liveNames, h'.mem_liveNames, hothers _ hkey]

/-- Where one more name is live, one more runner is. -/
theorem liveCount_of_mem (hnot : name ∉ s.liveNames key) (hmem : name ∈ s'.liveNames key) :
    s'.liveCount key = s.liveCount key + 1 := by
  rw [← length_liveNames, ← length_liveNames]
  have hperm : (s'.liveNames key).Perm (name :: s.liveNames key) := by
    refine (List.perm_ext_iff_of_nodup (h'.liveNames_nodup key)
      (List.nodup_cons.2 ⟨hnot, h.liveNames_nodup key⟩)).2 fun n => ?_
    by_cases hn : n = name
    · simp [hn, hmem]
    · simp [hn, mem_liveNames_of_ne h h' hothers hn]
  rw [hperm.length_eq, List.length_cons]

/-- Where the same names are live, equally many runners are. -/
theorem liveCount_of_iff (hiff : name ∈ s'.liveNames key ↔ name ∈ s.liveNames key) :
    s'.liveCount key = s.liveCount key := by
  rw [← length_liveNames, ← length_liveNames]
  have hperm : (s'.liveNames key).Perm (s.liveNames key) := by
    refine (List.perm_ext_iff_of_nodup (h'.liveNames_nodup key) (h.liveNames_nodup key)).2
      fun n => ?_
    by_cases hn : n = name
    · rw [hn, hiff]
    · exact mem_liveNames_of_ne h h' hothers hn
  exact hperm.length_eq

end OneRunner

/-! ## The operations of a pass -/

/-- What is left of a runner after a request for its removal is not live. -/
theorem not_isLive_of_removed? {now : Timestamp} {old new : Runner}
    (h : removed? now old = some new) : ¬ new.IsLive := by
  simp only [removed?] at h
  split at h
  · cases h
  · split at h <;> injection h with h
    · rename_i hdeleting
      rw [← h]
      exact fun hlive => absurd hdeleting (Bool.eq_false_iff.1 hlive.1)
    · rw [← h]
      exact fun hlive => Bool.noConfusion hlive.1

/-- The deletion of a runner takes it off the count if it was live. -/
theorem liveCount_deleteRunner {s : Store} (h : s.Keyed) {key : String} {r : Runner}
    (hr : r ∈ s.runnersOf key) (stamp : Stamp) :
    (s.perform stamp (.deleteRunner key r.name)).store.liveCount key + (if r.IsLive then 1 else 0) =
      s.liveCount key := by
  obtain ⟨howner, hget⟩ := h.mem_runnersOf.1 hr
  have h' := h.perform stamp (.deleteRunner key r.name)
  have hothers : ∀ k, k ≠ runnerKey key r.name →
      (s.perform stamp (.deleteRunner key r.name)).store.runners.get? k = s.runners.get? k := by
    intro k hk
    rw [getRunner_perform, Operation.onRunner, if_neg hk]
  have hgone : r.name ∉ (s.perform stamp (.deleteRunner key r.name)).store.liveNames key := by
    rw [h'.mem_liveNames, getRunner_perform, Operation.onRunner, if_pos rfl, hget]
    rintro ⟨new, hnew, -, -, hlive⟩
    exact not_isLive_of_removed? hnew hlive
  have hbefore : r.name ∈ s.liveNames key ↔ r.IsLive := by
    rw [h.mem_liveNames]
    constructor
    · rintro ⟨r', hget', -, -, hlive⟩
      obtain rfl : r' = r := Option.some.inj (hget'.symm.trans hget)
      exact hlive
    · exact fun hlive => ⟨r, hget, howner, rfl, hlive⟩
  split
  · rename_i hlive
    exact (liveCount_of_mem h' h (fun k hk => (hothers k hk).symm) hgone (hbefore.2 hlive)).symm
  · rename_i hnot
    exact liveCount_of_iff h h' hothers ⟨fun hmem => absurd hmem hgone,
      fun hmem => absurd (hbefore.1 hmem) hnot⟩

/-- A new runner counts if it is live. -/
theorem liveCount_createRunner {s : Store} (h : s.Keyed) {key : String} {r : Runner}
    (howner : r.ownerKey = some key) (hup : r.IsUp)
    (hnew : s.runners.get? (runnerKey key r.name) = none) (stamp : Stamp) :
    (s.perform stamp (.createRunner r)).store.liveCount key = s.liveCount key + 1 := by
  have hon : ∀ k, (s.perform stamp (.createRunner r)).store.runners.get? k =
      if runnerKey key r.name = k then some ((s.runners.get? k).getD (created stamp r))
      else s.runners.get? k := by
    intro k
    rw [getRunner_perform, Operation.onRunner, howner]
    simp
  have h' := h.perform stamp (.createRunner r)
  have hothers : ∀ k, k ≠ runnerKey key r.name →
      (s.perform stamp (.createRunner r)).store.runners.get? k = s.runners.get? k := by
    intro k hk
    rw [hon, if_neg (Ne.symm hk)]
  have hbefore : r.name ∉ s.liveNames key := by
    rw [h.mem_liveNames, hnew]
    rintro ⟨_, hget, -⟩
    cases hget
  have hafter : r.name ∈ (s.perform stamp (.createRunner r)).store.liveNames key := by
    rw [h'.mem_liveNames, hon, if_pos rfl, hnew]
    exact ⟨created stamp r, rfl, howner, rfl, rfl, hup⟩
  exact liveCount_of_mem h h' hothers hbefore hafter

/-! ## Operations of any kind -/

/-- The operation puts a runner of a set to work again that was over. -/
def Operation.Revives (key : String) (s : Store) (op : Operation) : Prop :=
  ∃ owner name status r, op = .updateRunnerStatus owner name status ∧
    s.runners.get? (runnerKey owner name) = some r ∧ r.ownerKey = some key ∧ ¬ r.IsUp ∧
    Runner.IsUp { r with status }

/-- A runner that is live after an operation was so before, unless it was over and its status was
written. -/
theorem isLive_of_onRunner {op : Operation} {stamp : Stamp} {k : String} {old r : Runner}
    (h : op.onRunner stamp k (some old) = some r) (hlive : r.IsLive)
    (hstatus : ∀ owner name status, op = .updateRunnerStatus owner name status →
      k = runnerKey owner name → Runner.IsUp { old with status } → old.IsUp) :
    old.IsLive := by
  cases op with
  | createRunner new =>
      simp only [Operation.onRunner] at h
      split at h
      · obtain rfl : old = r := Option.some.inj h
        exact hlive
      · exact Option.some.inj h ▸ hlive
  | updateRunnerStatus owner name status =>
      simp only [Operation.onRunner, Option.bind_some] at h
      split at h
      · rename_i hk
        rw [eq_of_changed? h] at hlive
        exact ⟨hlive.1, hstatus owner name status rfl hk hlive.2⟩
      · exact Option.some.inj h ▸ hlive
  | setRunnerFinalizers owner name finalizers =>
      simp only [Operation.onRunner, Option.bind_some] at h
      split at h
      · rw [eq_of_changed? h] at hlive
        exact hlive
      · exact Option.some.inj h ▸ hlive
  | deleteRunner owner name =>
      simp only [Operation.onRunner, Option.bind_some] at h
      split at h
      · exact absurd hlive (not_isLive_of_removed? h)
      · exact Option.some.inj h ▸ hlive
  | _ => exact Option.some.inj h ▸ hlive

/-- Where hardly more names are live, hardly more runners are. -/
theorem Keyed.liveCount_le {s s' : Store} (h' : s'.Keyed) {key : String} {more : List String}
    (hsubset : s'.liveNames key ⊆ more ++ s.liveNames key) :
    s'.liveCount key ≤ more.length + s.liveCount key := by
  rw [← length_liveNames, ← length_liveNames, ← List.length_append]
  exact ((h'.liveNames_nodup key).subperm hsubset).length_le

/-- No more runners are live after an operation that creates none and puts none to work again. -/
theorem liveCount_perform_le {s : Store} (h : s.Keyed) (stamp : Stamp) {op : Operation}
    {key : String} (hpopulate : ∀ r, op = .createRunner r → r.ownerKey ≠ some key)
    (hrevive : ¬ op.Revives key s) :
    (s.perform stamp op).store.liveCount key ≤ s.liveCount key := by
  have h' := h.perform stamp op
  have hsubset : (s.perform stamp op).store.liveNames key ⊆ [] ++ s.liveNames key := by
    intro name hname
    obtain ⟨r, hr, howner, hrname, hlive⟩ := h'.mem_liveNames.1 hname
    rw [getRunner_perform] at hr
    rcases onRunner_cases hr with ⟨old, hold, hakin⟩ | ⟨-, new, rfl, rfl, -⟩
    · rw [hold] at hr
      have holdowner := hakin.owner.symm.trans howner
      refine h.mem_liveNames.2 ⟨old, hold, holdowner, hakin.name.symm.trans hrname, ?_⟩
      refine isLive_of_onRunner hr hlive fun owner n status hop hk hup => ?_
      refine Decidable.byContradiction fun hover => ?_
      exact hrevive ⟨owner, n, status, old, hop, hk ▸ hold, holdowner, hover, hup⟩
    · exact absurd howner (hpopulate new rfl)
  simpa using h'.liveCount_le hsubset

/-- At most one more runner is live after the creation of one. -/
theorem liveCount_createRunner_le {s : Store} (h : s.Keyed) (stamp : Stamp) (r : Runner)
    (key : String) :
    (s.perform stamp (.createRunner r)).store.liveCount key ≤ s.liveCount key + 1 := by
  have h' := h.perform stamp (.createRunner r)
  have hsubset : (s.perform stamp (.createRunner r)).store.liveNames key ⊆
      [r.name] ++ s.liveNames key := by
    intro name hname
    obtain ⟨found, hfound, howner, rfl, hlive⟩ := h'.mem_liveNames.1 hname
    rw [getRunner_perform] at hfound
    rcases onRunner_cases hfound with ⟨old, hold, hakin⟩ | ⟨-, new, hnew, rfl, -⟩
    · refine List.mem_append_right _ (h.mem_liveNames.2 ⟨old, hold, ?_, hakin.name.symm, ?_⟩)
      · exact hakin.owner.symm.trans howner
      · rw [hold] at hfound
        exact isLive_of_onRunner hfound hlive fun _ _ _ hop => by cases hop
    · injection hnew with hnew
      subst hnew
      exact List.mem_append_left _ List.mem_cons_self
  have hle := h'.liveCount_le hsubset
  rw [List.length_singleton] at hle
  omega

end Store
end RunnerFleet
