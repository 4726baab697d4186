import Mathlib.Data.List.Induction
import RunnerFleet.Proofs.Fleet.Order

/-!
# Sorting a fleet into groups

Runners are put into their groups one after the other, each at the end of its group, and the highest
patch id seen so far is kept along.  So every runner ends up in one group, the one for its bucket,
and nothing that is computed from the groups depends on the order in which the runners came; the
deletion order does not either, as long as names are different.

Main results:

- `classify_concat`, `classify_eq_foldl`: a fleet is sorted one runner after the other.
- `groups_perm`, `group_sublist`, `of_mem_group`: the groups divide the fleet.
- `latestPatchId_eq_some_iff`, `latestPatchId_eq_none_iff`: the highest patch id.
- `classification_canonical`: all of this, and what a permutation of the fleet leaves as it is.
-/

namespace RunnerFleet
namespace Fleet

/-! ## One runner after the other -/

/-- The fleet without runners. -/
def empty : Fleet where
  pending := []
  running := []
  finished := []
  failed := []
  deleting := []
  latestPatchId := none

/-- The higher one of the highest patch id so far and that of a runner, which may bear none. -/
def laterId (latest : Option Int) : Option Int → Option Int
  | none => latest
  | some id => some (latest.elim id fun known => max known id)

/-- Put one more runner at the end of its group. -/
def add (f : Fleet) (r : Runner) : Fleet :=
  let noted := { f with latestPatchId := laterId f.latestPatchId r.patchId }
  match Bucket.of r with
  | .pending => { noted with pending := f.pending ++ [r] }
  | .running => { noted with running := f.running ++ [r] }
  | .finished => { noted with finished := f.finished ++ [r] }
  | .failed => { noted with failed := f.failed ++ [r] }
  | .deleting => { noted with deleting := f.deleting ++ [r] }

/-- The group of a bucket. -/
def group (f : Fleet) : Bucket → List Runner
  | .pending => f.pending
  | .running => f.running
  | .finished => f.finished
  | .failed => f.failed
  | .deleting => f.deleting

/-- All runners of a fleet, group by group. -/
def groups (f : Fleet) : List Runner :=
  f.pending ++ f.running ++ f.finished ++ f.failed ++ f.deleting

/-- One more runner changes its own group only. -/
@[simp]
theorem group_add (f : Fleet) (r : Runner) (b : Bucket) :
    (f.add r).group b = f.group b ++ if Bucket.of r = b then [r] else [] := by
  unfold add
  cases Bucket.of r <;> cases b <;> simp [group]

@[simp]
theorem latestPatchId_add (f : Fleet) (r : Runner) :
    (f.add r).latestPatchId = laterId f.latestPatchId r.patchId := by
  unfold add
  cases Bucket.of r <;> rfl

/-- Fleets with the same groups and the same highest patch id are equal. -/
theorem ext_group {f g : Fleet} (hgroup : ∀ b, f.group b = g.group b)
    (hlatest : f.latestPatchId = g.latestPatchId) : f = g := by
  obtain ⟨_, _, _, _, _, _⟩ := f
  obtain ⟨_, _, _, _, _, _⟩ := g
  obtain rfl := hgroup .pending
  obtain rfl := hgroup .running
  obtain rfl := hgroup .finished
  obtain rfl := hgroup .failed
  obtain rfl := hgroup .deleting
  obtain rfl := hlatest
  rfl

@[simp]
theorem group_classify (runners : List Runner) (b : Bucket) :
    (classify runners).group b = runners.filter (Bucket.of · = b) := by
  cases b <;> rfl

/-- The highest number of a row that goes on with one more. -/
theorem max?_concat (ids : List Int) (id : Int) :
    (ids ++ [id]).max? = some (ids.max?.elim id fun known => max known id) := by
  cases ids with
  | nil => rfl
  | cons first rest =>
      rw [List.cons_append, List.max?_cons', List.max?_cons', List.foldl_append]
      rfl

/-- A fleet with one more runner is sorted by putting this runner into its group. -/
@[simp]
theorem classify_concat (runners : List Runner) (r : Runner) :
    classify (runners ++ [r]) = (classify runners).add r := by
  refine ext_group (fun b => ?_) ?_
  · rw [group_add, group_classify, group_classify, List.filter_append]
    by_cases hb : Bucket.of r = b <;> simp [hb]
  · rw [latestPatchId_add, classify, classify, List.filterMap_append]
    cases hid : r.patchId with
    | none => simp [hid, laterId]
    | some id => simp [hid, laterId, max?_concat]

/-- A fleet is sorted one runner after the other. -/
theorem classify_eq_foldl (runners : List Runner) : classify runners = runners.foldl add empty := by
  induction runners using List.reverseRecOn with
  | nil => rfl
  | append_singleton rest r ih => rw [classify_concat, ih, List.foldl_concat]

/-! ## The groups divide the fleet -/

/-- One more runner is one more among all groups. -/
theorem groups_add (f : Fleet) (r : Runner) : (f.add r).groups.Perm (f.groups ++ [r]) := by
  refine List.perm_iff_count.2 fun x => ?_
  unfold add groups
  cases Bucket.of r <;> simp only [List.count_append] <;> omega

/-- The groups together have every runner once. -/
theorem groups_perm (runners : List Runner) : (classify runners).groups.Perm runners := by
  induction runners using List.reverseRecOn with
  | nil => exact List.Perm.refl []
  | append_singleton rest r ih =>
      rw [classify_concat]
      exact (groups_add _ r).trans (ih.append_right [r])

/-- Within a group runners stand in the order of the fleet. -/
theorem group_sublist (runners : List Runner) (b : Bucket) :
    ((classify runners).group b).Sublist runners := by
  induction runners using List.reverseRecOn with
  | nil => exact (group_classify [] b).symm ▸ List.Sublist.slnil
  | append_singleton rest r ih =>
      rw [classify_concat, group_add]
      refine ih.append ?_
      split
      · exact List.Sublist.refl [r]
      · exact List.nil_sublist [r]

/-- A group has runners of its own bucket only. -/
theorem of_mem_group {runners : List Runner} {b : Bucket} {r : Runner}
    (h : r ∈ (classify runners).group b) : Bucket.of r = b := by
  rw [group_classify] at h
  exact of_decide_eq_true (List.mem_filter.1 h).2

/-! ## The highest patch id -/

/-- The highest patch id is one that a runner bears, and no runner bears a higher one. -/
theorem latestPatchId_eq_some_iff {runners : List Runner} {id : Int} :
    (classify runners).latestPatchId = some id ↔
      (∃ r ∈ runners, r.patchId = some id) ∧
        ∀ r ∈ runners, ∀ other, r.patchId = some other → other ≤ id := by
  rw [← isAdopted_classify_iff, isAdopted, decide_eq_true_iff]

/-- There is no highest patch id if no runner bears one. -/
theorem latestPatchId_eq_none_iff {runners : List Runner} :
    (classify runners).latestPatchId = none ↔ ∀ r ∈ runners, r.patchId = none := by
  rw [classify, List.max?_eq_none_iff, List.filterMap_eq_nil_iff]

/-! ## Fleets in another order -/

section Perm

variable {runners listing : List Runner} (h : listing.Perm runners)
include h

theorem latestPatchId_congr :
    (classify listing).latestPatchId = (classify runners).latestPatchId := by
  refine Option.ext fun id => ?_
  simp only [latestPatchId_eq_some_iff, h.mem_iff]

theorem length_group_congr (b : Bucket) :
    ((classify listing).group b).length = ((classify runners).group b).length := by
  rw [group_classify, group_classify]
  exact (h.filter _).length_eq

theorem scaleTotal_congr : (classify listing).scaleTotal = (classify runners).scaleTotal := by
  have hlength := length_group_congr h
  have hpending := hlength .pending
  have hrunning := hlength .running
  have hfailed := hlength .failed
  simp only [group] at hpending hrunning hfailed
  rw [scaleTotal, scaleTotal, hpending, hrunning, hfailed]

theorem status_congr : (classify listing).status = (classify runners).status := by
  have hlength := length_group_congr h
  have hpending := hlength .pending
  have hrunning := hlength .running
  have hfailed := hlength .failed
  simp only [group] at hpending hrunning hfailed
  rw [status, status, scaleTotal_congr h, hpending, hrunning, hfailed]

end Perm

/-- The groups divide a fleet by bucket and keep its order, the highest patch id is that of all its
runners, and the deletion order has the pending and running ones, the oldest first.  If names are
different, a fleet in another order has the same counts, patch ids and deletion order. -/
theorem classification_canonical (runners : List Runner) :
    let f := classify runners
    f = runners.foldl add empty ∧
    (f.pending ++ f.running ++ f.finished ++ f.failed ++ f.deleting).Perm runners ∧
    (∀ b, (f.group b).Sublist runners ∧ ∀ r ∈ f.group b, Bucket.of r = b) ∧
    (∀ id, f.latestPatchId = some id ↔
      (∃ r ∈ runners, r.patchId = some id) ∧
        ∀ r ∈ runners, ∀ other, r.patchId = some other → other ≤ id) ∧
    (f.latestPatchId = none ↔ ∀ r ∈ runners, r.patchId = none) ∧
    f.deletionOrder.Perm (f.pending ++ f.running) ∧
    (f.deletionOrder.Pairwise fun a b => ¬ b.ComesBefore a) ∧
    ((runners.map Runner.name).Nodup → ∀ listing : List Runner, listing.Perm runners →
      (classify listing).latestPatchId = f.latestPatchId ∧
      (classify listing).scaleTotal = f.scaleTotal ∧
      (classify listing).status = f.status ∧
      (∀ id, (classify listing).isAdopted id = f.isAdopted id) ∧
      (classify listing).deletionOrder = f.deletionOrder) := by
  intro f
  refine ⟨classify_eq_foldl runners, groups_perm runners,
    fun b => ⟨group_sublist runners b, fun r => of_mem_group⟩,
    fun id => latestPatchId_eq_some_iff, latestPatchId_eq_none_iff, deletionOrder_perm f,
    deletionOrder_sorted f, fun hnames listing hperm => ?_⟩
  have hlatest := latestPatchId_congr hperm
  refine ⟨hlatest, scaleTotal_congr hperm, status_congr hperm, fun id => ?_,
    deletionOrder_congr hnames hperm⟩
  rw [isAdopted, isAdopted, hlatest]

/-- A runner with this name and phase that bears a patch id. -/
def bearer (name patchId : String) (phase : RunnerPhase) : Runner where
  metadata :=
    { name, namespaceName := "ci", annotations := KeyMap.empty.insert Runner.patchAnnotation patchId }
  template := { image := "image" }
  status := { phase }

/-- A fleet whose highest patch id is that of a runner that is done. -/
def mixedFleet : List Runner :=
  [bearer "b" "3" .running, bearer "a" "five" .pending, bearer "c" "9" .succeeded]

/-- Listed backwards this fleet bears the same patch id and is reclaimed in the same order. -/
theorem classification_mixedFleet :
    (classify mixedFleet.reverse).latestPatchId = some 9 ∧
      (classify mixedFleet.reverse).deletionOrder = (classify mixedFleet).deletionOrder := by
  obtain ⟨-, -, -, hlatest, -, -, -, hcanonical⟩ := classification_canonical mixedFleet
  have hreverse := hcanonical (by decide +kernel) _ (List.reverse_perm mixedFleet)
  refine ⟨?_, hreverse.2.2.2.2⟩
  rw [hreverse.1, hlatest]
  exact ⟨⟨bearer "c" "9" .succeeded, by decide +kernel, by decide +kernel⟩, by decide +kernel⟩

end Fleet
end RunnerFleet
