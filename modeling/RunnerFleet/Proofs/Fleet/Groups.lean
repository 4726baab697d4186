import RunnerFleet.Fleet

/-!
# Which runners a pass acts on

A pass deletes the finished and failed runners of a fleet, may reclaim the pending and running
ones, and leaves alone those whose removal was requested.  These three kinds divide the fleet, and
each is told by the phase of a runner.

Main results:

- `actedOn_perm`: cleanup candidates, deletion order and deleting runners divide the fleet.
- `mem_cleanupCandidates_iff`, `mem_deletionOrder_iff`: which runners are of the first two kinds.
- `scaleTotal_classify`: which runners count towards the number that is asked for.
- `isAdopted_classify_iff`: when a decision counts as acted on.
- `actedOn_names_nodup`: if names are distinct in the fleet, no name is acted on twice.
-/

namespace RunnerFleet

namespace Runner

/-- The runner is done with its one job, well or badly. -/
def IsOver (r : Runner) : Prop :=
  r.status.phase = .succeeded ∨ r.status.phase = .failed

/-- The runner is yet to be done with its one job. -/
def IsUp (r : Runner) : Prop :=
  r.status.phase = .pending ∨ r.status.phase = .running ∨ r.status.phase = .unknown

/-- The runner is up, registered, and without a job. -/
def IsIdle (r : Runner) : Prop :=
  r.IsUp ∧ r.status.runnerId ≠ 0 ∧ r.status.jobRequestId ≤ 0

/-- The runner is up, and its removal was not requested. -/
def IsLive (r : Runner) : Prop :=
  r.isDeleting = false ∧ r.IsUp

instance (r : Runner) : Decidable r.IsOver := inferInstanceAs (Decidable (_ ∨ _))

instance (r : Runner) : Decidable r.IsUp := inferInstanceAs (Decidable (_ ∨ _ ∨ _))

instance (r : Runner) : Decidable r.IsIdle := inferInstanceAs (Decidable (_ ∧ _ ∧ _))

instance (r : Runner) : Decidable r.IsLive := inferInstanceAs (Decidable (_ ∧ _))

/-- A runner is over or up, and not both. -/
theorem isOver_iff_not_isUp (r : Runner) : r.IsOver ↔ ¬ r.IsUp := by
  unfold IsOver IsUp
  cases r.status.phase <;> simp

end Runner

namespace Fleet

/-! ## Groups by phase -/

/-- The finished and failed groups have the runners that are over and not deleting. -/
theorem of_eq_finished_or_failed_iff (r : Runner) :
    (Bucket.of r = .finished ∨ Bucket.of r = .failed) ↔ r.isDeleting = false ∧ r.IsOver := by
  unfold Bucket.of Runner.IsOver
  cases hdel : r.isDeleting <;> cases hphase : r.status.phase <;> simp

/-- The pending and running groups have the runners that are up and not deleting. -/
theorem of_eq_pending_or_running_iff (r : Runner) :
    (Bucket.of r = .pending ∨ Bucket.of r = .running) ↔ r.isDeleting = false ∧ r.IsUp := by
  unfold Bucket.of Runner.IsUp
  cases hdel : r.isDeleting <;> cases hphase : r.status.phase <;> simp

/-- The cleanup candidates are the runners that are over and not deleting. -/
theorem mem_cleanupCandidates_iff {runners : List Runner} {r : Runner} :
    r ∈ (classify runners).cleanupCandidates ↔
      r ∈ runners ∧ r.isDeleting = false ∧ r.IsOver := by
  rw [← of_eq_finished_or_failed_iff]
  simp [cleanupCandidates, classify, and_or_left]

/-- The runners in the deletion order are those that are up and not deleting. -/
theorem mem_deletionOrder_iff {runners : List Runner} {r : Runner} :
    r ∈ (classify runners).deletionOrder ↔
      r ∈ runners ∧ r.isDeleting = false ∧ r.IsUp := by
  rw [(deletionOrder_perm _).mem_iff, ← of_eq_pending_or_running_iff]
  simp [classify, and_or_left]

/-! ## The groups divide the fleet -/

/-- How often a runner is in the group of a bucket. -/
theorem count_group (runners : List Runner) (b : Bucket) (r : Runner) :
    (runners.filter (Bucket.of · = b)).count r =
      if Bucket.of r = b then runners.count r else 0 := by
  split <;> rename_i h
  · exact List.count_filter (by simpa using h)
  · refine List.count_eq_zero.2 fun hmem => h ?_
    simpa using (List.mem_filter.1 hmem).2

/-- The deletion order has the live runners. -/
theorem deletionOrder_perm_live (runners : List Runner) :
    (classify runners).deletionOrder.Perm (runners.filter fun r => decide r.IsLive) := by
  refine (deletionOrder_perm _).trans (List.perm_iff_count.2 fun r => ?_)
  have hiff := of_eq_pending_or_running_iff r
  simp only [classify, List.count_append, count_group]
  by_cases hlive : r.IsLive
  · rw [List.count_filter (by simpa using hlive)]
    rcases hiff.2 hlive with h | h <;> simp [h]
  · have hnot : r ∉ runners.filter fun r => decide r.IsLive :=
      fun hmem => hlive (of_decide_eq_true (List.mem_filter.1 hmem).2)
    obtain ⟨hpending, hrunning⟩ := not_or.1 fun h => hlive (hiff.1 h)
    rw [List.count_eq_zero.2 hnot, if_neg hpending, if_neg hrunning]

/-- The failed group has the failed runners that are not deleting. -/
theorem length_failed (runners : List Runner) :
    (classify runners).failed.length =
      runners.countP fun r => decide (r.isDeleting = false ∧ r.status.phase = .failed) := by
  rw [List.countP_eq_length_filter, classify]
  refine congrArg List.length (List.filter_congr fun r _ => ?_)
  unfold Bucket.of
  cases hdel : r.isDeleting <;> cases hphase : r.status.phase <;> simp

/-- Live runners and failed ones count towards the number that is asked for. -/
theorem scaleTotal_classify (runners : List Runner) :
    (classify runners).scaleTotal = (runners.countP fun r => decide r.IsLive) +
      runners.countP fun r => decide (r.isDeleting = false ∧ r.status.phase = .failed) := by
  have hlive : (runners.countP fun r => decide r.IsLive) =
      (classify runners).pending.length + (classify runners).running.length := by
    rw [List.countP_eq_length_filter, ← (deletionOrder_perm_live runners).length_eq,
      (deletionOrder_perm _).length_eq, List.length_append]
  rw [scaleTotal, length_failed, hlive]

/-- A decision counts as acted on if a runner bears its id, and none bears a later one. -/
theorem isAdopted_classify_iff {runners : List Runner} {id : Int} :
    (classify runners).isAdopted id = true ↔
      (∃ r ∈ runners, r.patchId = some id) ∧
        ∀ r ∈ runners, ∀ id', r.patchId = some id' → id' ≤ id := by
  rw [isAdopted, classify, decide_eq_true_iff, List.max?_eq_some_iff]
  simp only [List.mem_filterMap]
  refine and_congr Iff.rfl ⟨?_, ?_⟩
  · intro h r hr id' hid
    exact h id' ⟨r, hr, hid⟩
  · rintro h id' ⟨r, hr, hid⟩
    exact h r hr id' hid

/-- Cleanup candidates, runners in the deletion order and deleting runners divide the fleet. -/
theorem actedOn_perm (runners : List Runner) :
    ((classify runners).cleanupCandidates ++ (classify runners).deletionOrder ++
      (classify runners).deleting).Perm runners := by
  refine (List.Perm.append_right _ (List.Perm.append_left _ (deletionOrder_perm _))).trans ?_
  refine List.perm_iff_count.2 fun r => ?_
  simp only [cleanupCandidates, classify, List.count_append, count_group]
  cases Bucket.of r <;> simp

/-- If the runners of a fleet have different names, so have those that a pass may act on. -/
theorem actedOn_names_nodup {runners : List Runner} (h : (runners.map Runner.name).Nodup) :
    (((classify runners).cleanupCandidates ++ (classify runners).deletionOrder).map
      Runner.name).Nodup := by
  have hall := ((actedOn_perm runners).map Runner.name).nodup_iff.2 h
  rw [List.map_append] at hall
  exact (List.nodup_append.1 hall).1

end Fleet
end RunnerFleet
