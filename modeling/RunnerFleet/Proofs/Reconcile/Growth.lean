import RunnerFleet.Proofs.Reconcile.Answers
import RunnerFleet.Proofs.Reconcile.Calls
import RunnerFleet.Proofs.Store.Census
import RunnerFleet.Proofs.Store.Spec

/-!
# How far a fleet grows

A pass creates runners one by one, on the basis of a set and of a list of runners that may both be
outdated by then.  While others neither create runners for the set nor put any to work again, and
while nothing asks for more runners than a limit, the pass never creates one beyond the limit: the
runners that it has listed and those that it has yet to create are at most as many as the set that it
has read asks for, and the runners that it has listed can only become fewer.

Main results:

- `Call.Answered.liveCount_le`: how far a call may raise the number of live runners.
- `Meets.of_liveCount_le`: a pass that respects the limit still does with fewer runners around.
- `meets_pass_capped`: every pass respects the limit.
-/

namespace RunnerFleet
namespace Reconcile

open Program Store

/-- No more runners are asked for a set than a limit. -/
def Modest (key : String) (limit : Nat) (s : Store) : Prop :=
  ∀ set, s.getSet key = some set → set.spec.replicas ≤ limit

/-- The operation of a call that is not the creation of a runner for the set raises nothing. -/
theorem Call.Answered.liveCount_le {c : Call} {s after : Store} {answer : c.Answer} {key : String}
    (h : c.Answered s answer after) (hs : s.Keyed)
    (hcreate : ∀ r, c = .createRunner r → r.ownerKey ≠ some key) :
    after.liveCount key ≤ s.liveCount key := by
  rcases h.store with rfl | ⟨op, stamp, hop, rfl⟩
  · exact Nat.le_refl _
  · refine liveCount_perform_le hs stamp ?_ ?_
    · rintro r rfl
      cases c <;> cases hop
      exact hcreate r rfl
    · rintro ⟨owner, name, status, r, rfl, -⟩
      cases c <;> cases hop

/-- Any call raises the number of live runners by one at most. -/
theorem Call.Answered.liveCount_le_succ {c : Call} {s after : Store} {answer : c.Answer}
    (h : c.Answered s answer after) (hs : s.Keyed) (key : String) :
    after.liveCount key ≤ s.liveCount key + 1 := by
  by_cases hcreate : ∃ r, c = .createRunner r
  · obtain ⟨r, rfl⟩ := hcreate
    rcases h.store with rfl | ⟨op, stamp, hop, rfl⟩
    · exact Nat.le_succ _
    · cases hop
      exact liveCount_createRunner_le hs stamp r key
  · exact Nat.le_succ_of_le (h.liveCount_le hs fun r hc => absurd ⟨r, hc⟩ hcreate)

/-- A call of a pass does not say what is asked of a set. -/
theorem Call.Answered.modest {c : Call} {s after : Store} {answer : c.Answer} {key : String}
    {limit : Nat} (h : c.Answered s answer after) (hs : Modest key limit s) :
    Modest key limit after := by
  rcases h.store with rfl | ⟨op, stamp, hop, rfl⟩
  · exact hs
  · intro set hset
    rw [getSet_perform] at hset
    obtain ⟨old, hold, hspec⟩ := spec_eq_of_onSet hset (by cases c <;> cases hop <;> exact id)
    rw [hspec]
    exact hs old hold

/-- The setting of a pass over a set that must not have more live runners than a limit: others may
act before each call is answered, but raise neither the number of live runners nor what is asked for
beyond the limit. -/
def capped (key : String) (limit : Nat) : Setting Store where
  permits c s := ∀ r, c = .createRunner r → r.ownerKey = some key → s.liveCount key < limit
  answers c s answer after :=
    ∃ between : Store, between.Keyed ∧ Modest key limit between ∧
      between.liveCount key ≤ s.liveCount key ∧ c.Answered between answer after

section

variable {α : Type} {key : String} {limit : Nat} {s s' : Store}

/-- With no more runners around, a program respects the limit as well. -/
theorem Meets.of_liveCount_le {p : Program α} (h : p.Meets (capped key limit) (fun _ _ => True) s)
    (hle : s'.liveCount key ≤ s.liveCount key) :
    p.Meets (capped key limit) (fun _ _ => True) s' := by
  refine h.of_state (fun _ h => h) ?_ ?_
  · intro c hpermits r hc howner
    exact Nat.lt_of_le_of_lt hle (hpermits r hc howner)
  · rintro c answer after ⟨between, hkeyed, hmodest, hbetween, hanswered⟩
    exact ⟨between, hkeyed, hmodest, Nat.le_trans hbetween hle, hanswered⟩

/-- Calls that create no runner. -/
def Call.CreatesNone (c : Call) : Prop :=
  ∀ r, c ≠ .createRunner r

/-- A program that creates no runner does not raise their number. -/
theorem Uses.meets_capped {p : Program α} (hp : p.Uses Call.CreatesNone) {count : Nat}
    (hs : s.liveCount key ≤ count) :
    p.Meets (capped key limit) (fun _ after => after.liveCount key ≤ count) s := by
  refine hp.meets (fun after : Store => after.liveCount key ≤ count) ?_ ?_ hs
  · exact fun c _ hnone _ r hc => absurd hc (hnone r)
  · rintro c state answer after hnone hstate ⟨between, hkeyed, -, hbetween, hanswered⟩
    have hle : after.liveCount key ≤ between.liveCount key :=
      hanswered.liveCount_le hkeyed fun r hc => absurd hc (hnone r)
    exact Nat.le_trans hle (Nat.le_trans hbetween hstate)

/-- Runners may be created as long as there is room for all of them. -/
theorem meets_createRunners_capped {set : RunnerSet} {suffixes : List String}
    (hroom : s.liveCount set.key + suffixes.length ≤ limit) :
    (createRunners set suffixes).Meets (capped set.key limit) (fun _ _ => True) s := by
  induction suffixes generalizing s with
  | nil => exact trivial
  | cons suffix rest ih =>
      rw [List.length_cons] at hroom
      rw [createRunners, meets_bind]
      refine ⟨fun _ _ _ => by omega, ?_⟩
      rintro answer after ⟨between, hkeyed, -, hbetween, hanswered⟩
      have hle := hanswered.liveCount_le_succ hkeyed set.key
      change Meets _ _ (_ >>= _) _
      rw [meets_bind]
      refine (ih (by omega)).mono fun _ _ _ => ?_
      cases answer <;> exact trivial

/-- A gap is closed with no more runners than were asked for. -/
theorem meets_closeGap_capped (suffix : Nat → String) {set : RunnerSet} {runners : List Runner}
    (hreplicas : set.spec.replicas ≤ limit)
    (hs : s.liveCount set.key ≤ runners.countP fun r => decide r.IsLive) :
    (closeGap suffix set (Fleet.classify runners)).Meets (capped set.key limit)
      (fun _ _ => True) s := by
  have hnone : ∀ name, Call.CreatesNone (.deleteRunner set.key name) := by
    rintro name r ⟨⟩
  rw [closeGap]
  split
  · exact trivial
  · rename_i count hgap
    refine meets_createRunners_capped ?_
    have htotal := Fleet.scaleTotal_classify runners
    rw [List.length_map, List.length_range]
    unfold gap at hgap
    split at hgap
    · cases hgap
    · split at hgap
      · injection hgap with hgap
        omega
      · split at hgap <;> cases hgap
  · refine (Uses.meets_capped ?_ hs).mono fun _ _ _ => trivial
    refine uses_bind (uses_reclaim ?_ _ fun r _ => hnone r.name) fun _ => trivial
    rintro runnerId r ⟨⟩

/-- What comes after the reads of a pass respects the limit. -/
theorem meets_proceed_capped (suffix : Nat → String) {set : RunnerSet} {runners : List Runner}
    (hreplicas : set.spec.replicas ≤ limit)
    (hs : s.liveCount set.key ≤ runners.countP fun r => decide r.IsLive) :
    (proceed suffix set runners).Meets (capped set.key limit) (fun _ _ => True) s := by
  have hnone : ∀ name, Call.CreatesNone (.deleteRunner set.key name) := by
    rintro name r ⟨⟩
  rw [proceed]
  split
  · rw [converge, meets_bind]
    refine (Uses.meets_capped (uses_cleanup fun r _ => hnone r.name) hs).mono fun _ middle hmiddle => ?_
    rw [meets_bind]
    refine (meets_closeGap_capped suffix hreplicas hmiddle).mono fun _ after _ => ?_
    refine (Uses.meets_capped ?_ (Nat.le_refl _)).mono fun _ _ _ => trivial
    refine uses_bind (uses_review set (by rintro r ⟨⟩) _ _) fun _ => ?_
    exact uses_bind (uses_writeStatus set (by rintro status r ⟨⟩) _) fun _ => trivial
  · refine (Uses.meets_capped (uses_drain set (fun r _ => hnone r.name) ?_) hs).mono fun _ _ _ => trivial
    rintro runnerId r ⟨⟩
  · exact ⟨(by rintro r ⟨⟩), fun _ _ _ => trivial⟩

/-- Every pass respects the limit. -/
theorem meets_pass_capped (suffix : Nat → String) (key : String) (limit : Nat) (s : Store) :
    (pass suffix key).Meets (capped key limit) (fun _ _ => True) s := by
  rw [pass, meets_bind]
  refine ⟨(by rintro r ⟨⟩), ?_⟩
  rintro (e | _ | set) found ⟨between, hkeyed, hmodest, -, hanswered⟩
  · exact trivial
  · exact trivial
  · obtain ⟨rfl, hset⟩ := hanswered.getSet
    obtain rfl : set.key = key := hkeyed.set hset
    have hreplicas := hmodest set hset
    change Meets _ _ (if set.hasFinalizer then _ else _) _
    split
    · rw [meets_bind]
      refine ⟨(by rintro r ⟨⟩), ?_⟩
      rintro (e | runners) listed ⟨between, -, -, -, hanswered⟩
      · exact trivial
      · -- the runners that were just listed are all there are
        obtain ⟨rfl, rfl⟩ := hanswered.listRunners
        exact meets_proceed_capped suffix hreplicas (Nat.le_refl _)
    · split
      · exact trivial
      · rw [meets_bind]
        exact ⟨(by rintro r ⟨⟩), fun _ _ _ => trivial⟩

end

end Reconcile
end RunnerFleet
