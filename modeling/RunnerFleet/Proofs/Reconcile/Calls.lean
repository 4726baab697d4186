import RunnerFleet.Proofs.Fleet.Groups
import RunnerFleet.Proofs.Reconcile.Contract
import RunnerFleet.Reconcile.Pass

/-!
# Which calls a pass makes

Whatever its calls are answered with, the part of a pass that converges or drains a set calls for
the runners of this set only: it lists them, creates new ones for the set as it was read, deletes
some, removes registrations, and writes the counts.

Main results:

- `Uses.meets`: a program that makes only calls which keep an invariant keeps it.
- `uses_drain`, `uses_converge`: a pass serves the set that it has read.
- `pass_eq_call`, `pass_opens`: a pass reads its set once, and goes on from what it has read.
-/

namespace RunnerFleet
namespace Reconcile

open Program

variable {α β σ : Type}

/-! ## Programs that make only some calls -/

namespace Program

/-- All calls that a program may make are of one kind, whatever they are answered with. -/
def Uses (allowed : Call → Prop) : Program α → Prop
  | done _ => True
  | call c next => allowed c ∧ ∀ answer, (next answer).Uses allowed

variable {allowed : Call → Prop}

theorem uses_call {c : Call} (h : allowed c) : (call c done).Uses allowed :=
  ⟨h, fun _ => trivial⟩

/-- Programs in a row make the calls of both. -/
theorem uses_bind {p : Program α} {next : α → Program β} (hp : p.Uses allowed)
    (hnext : ∀ value, (next value).Uses allowed) : (p >>= next).Uses allowed := by
  change (p.bind next).Uses allowed
  induction p with
  | done value => exact hnext value
  | call c rest ih => exact ⟨hp.1, fun answer => ih answer (hp.2 answer)⟩

/-- More calls may be allowed. -/
theorem Uses.mono {more : Call → Prop} {p : Program α} (hp : p.Uses allowed)
    (hmore : ∀ c, allowed c → more c) : p.Uses more := by
  induction p with
  | done value => trivial
  | call c rest ih => exact ⟨hmore c hp.1, fun answer => ih answer (hp.2 answer)⟩

/-- A program that makes only calls which keep an invariant keeps it. -/
theorem Uses.meets {p : Program α} {m : Setting σ} {state : σ} (hp : p.Uses allowed)
    (inv : σ → Prop) (hpermits : ∀ c state, allowed c → inv state → m.permits c state)
    (hanswers : ∀ c state answer after, allowed c → inv state →
      m.answers c state answer after → inv after)
    (hstate : inv state) : p.Meets m (fun _ after => inv after) state := by
  induction p generalizing state with
  | done value => exact hstate
  | call c rest ih =>
      refine ⟨hpermits c state hp.1 hstate, ?_⟩
      intro answer after hanswer
      exact ih answer (hp.2 answer) (hanswers c state answer after hp.1 hstate hanswer)

end Program

/-! ## The calls for one set -/

/-- The calls by which a pass serves a set as it has read it, with the runners that it has listed. -/
inductive Call.Serves (set : RunnerSet) (runners : List Runner) : Call → Prop where
  | listRunners : Serves set runners (.listRunners set.key)
  | createRunner (suffix : String) (wanted : 0 < set.spec.replicas) :
      Serves set runners (.createRunner (newRunner set suffix))
  | deleteRunner {r : Runner} (listed : r ∈ runners) :
      Serves set runners (.deleteRunner set.key r.name)
  | updateStatus (status : RunnerSetStatus) : Serves set runners (.updateStatus set.key status)
  | deregister (runnerId : Int) : Serves set runners (.deregister runnerId)

/-! ## The steps of a pass -/

section Steps

variable {allowed : Call → Prop} {ownerKey : String}

theorem uses_discard {r : Runner} (h : allowed (.deleteRunner ownerKey r.name)) :
    (discard ownerKey r).Uses allowed := by
  refine uses_bind (uses_call h) fun result => ?_
  cases result <;> exact trivial

/-- A cleanup deletes the runners that it is given, and does nothing else. -/
theorem uses_cleanup {runners : List Runner}
    (h : ∀ r ∈ runners, allowed (.deleteRunner ownerKey r.name)) :
    (cleanup ownerKey runners).Uses allowed := by
  induction runners with
  | nil => exact trivial
  | cons r rest ih =>
      refine uses_bind (uses_discard (h r List.mem_cons_self)) fun _ => ?_
      exact uses_bind (ih fun r' hr' => h r' (List.mem_cons_of_mem _ hr')) fun _ => trivial

variable (hderegister : ∀ runnerId, allowed (.deregister runnerId))

include hderegister

theorem uses_retire {r : Runner} (h : allowed (.deleteRunner ownerKey r.name)) :
    (retire ownerKey r).Uses allowed := by
  refine uses_bind (uses_call (hderegister r.status.runnerId)) fun result => ?_
  cases result with
  | error e => exact trivial
  | ok _ => exact uses_bind (uses_discard h) fun _ => trivial

/-- Runners that are reclaimed are deregistered and deleted, and nothing else happens. -/
theorem uses_reclaim (count : Nat) {runners : List Runner}
    (h : ∀ r ∈ runners, allowed (.deleteRunner ownerKey r.name)) :
    (reclaim ownerKey count runners).Uses allowed := by
  induction runners generalizing count with
  | nil => cases count <;> exact trivial
  | cons r rest ih =>
      have ih := ih (h := fun r' hr' => h r' (List.mem_cons_of_mem _ hr'))
      cases count with
      | zero => exact trivial
      | succ count =>
          rw [reclaim]
          split
          · refine uses_bind (uses_retire hderegister (h r List.mem_cons_self)) fun result => ?_
            rcases result with _ | _ | _
            · exact uses_bind (ih (count + 1)) fun _ => trivial
            · exact ih (count + 1)
            · exact uses_bind (ih count) fun _ => trivial
          · exact ih (count + 1)

end Steps

variable (set : RunnerSet)

/-- Draining deletes listed runners and removes registrations, and does nothing else. -/
theorem uses_drain {allowed : Call → Prop} {runners : List Runner}
    (hdelete : ∀ r ∈ runners, allowed (.deleteRunner set.key r.name))
    (hderegister : ∀ runnerId, allowed (.deregister runnerId)) :
    (drain set (Fleet.classify runners)).Uses allowed := by
  refine uses_bind (uses_cleanup fun r hr => hdelete r ?_) fun _ => ?_
  · exact (Fleet.mem_cleanupCandidates_iff.1 hr).1
  · refine uses_bind (uses_reclaim hderegister _ fun r hr => hdelete r ?_) fun _ => trivial
    exact (Fleet.mem_deletionOrder_iff.1 hr).1

theorem uses_createRunners {allowed : Call → Prop}
    (h : ∀ suffix, allowed (.createRunner (newRunner set suffix))) (suffixes : List String) :
    (createRunners set suffixes).Uses allowed := by
  induction suffixes with
  | nil => exact trivial
  | cons suffix rest ih =>
      refine uses_bind (uses_call (h suffix)) fun result => ?_
      refine uses_bind ih fun _ => ?_
      cases result <;> exact trivial

/-- What makes a runner reclaimable. -/
theorem isReclaimable_iff (r : Runner) :
    isReclaimable r = true ↔ r.status.runnerId ≠ 0 ∧ r.status.jobRequestId ≤ 0 := by
  simp [isReclaimable, Runner.isRegistered, Runner.hasJob]

/-- A fleet lacks runners only for a set that asks for some. -/
theorem wanted_of_missing {set : RunnerSet} {fleet : Fleet} {count : Nat}
    (h : gap set fleet = .missing count) : 0 < set.spec.replicas := by
  unfold gap at h
  split at h
  · cases h
  · split at h
    · omega
    · split at h <;> cases h

theorem uses_closeGap (suffix : Nat → String) (runners : List Runner) :
    (closeGap suffix set (Fleet.classify runners)).Uses (Call.Serves set runners) := by
  rw [closeGap]
  split
  · exact trivial
  · rename_i count hgap
    exact uses_createRunners set (fun suffix => .createRunner suffix (wanted_of_missing hgap)) _
  · refine uses_bind (uses_reclaim .deregister _ fun r hr => .deleteRunner ?_) fun _ => trivial
    exact (Fleet.mem_deletionOrder_iff.1 hr).1

theorem uses_review {allowed : Call → Prop} (h : allowed (.listRunners set.key)) (fleet : Fleet)
    (acted : Bool) : (review set fleet acted).Uses allowed := by
  cases acted with
  | false => exact trivial
  | true =>
      refine uses_bind (uses_call h) fun result => ?_
      cases result <;> exact trivial

theorem uses_writeStatus {allowed : Call → Prop}
    (h : ∀ status, allowed (.updateStatus set.key status)) (fleet : Fleet) :
    (writeStatus set fleet).Uses allowed := by
  rw [writeStatus]
  split
  · exact trivial
  · exact uses_bind (uses_call (h fleet.status)) fun _ => trivial

/-- Converging serves the set. -/
theorem uses_converge (suffix : Nat → String) (runners : List Runner) :
    (converge suffix set (Fleet.classify runners)).Uses (Call.Serves set runners) := by
  refine uses_bind (uses_cleanup fun r hr => .deleteRunner ?_) fun _ => ?_
  · exact (Fleet.mem_cleanupCandidates_iff.1 hr).1
  refine uses_bind (uses_closeGap set suffix runners) fun _ => ?_
  refine uses_bind (uses_review set .listRunners _ _) fun _ => ?_
  exact uses_bind (uses_writeStatus set .updateStatus _) fun _ => trivial

/-- The calls by which a pass goes on from its reading of a set that is not being removed. -/
def Call.Follows (set : RunnerSet) (c : Call) : Prop :=
  (∃ runners, Call.Serves set runners c) ∨ c = .setFinalizers set.key (withFinalizer set.metadata)

/-- A pass reads its set, and then goes on from what it has read. -/
theorem pass_eq_call (suffix : Nat → String) (key : String) :
    ∃ next, pass suffix key = .call (.getSet key) next ∧
      (∀ e, next (.error e) = .done (.error (.store e))) ∧ next (.ok none) = .done (.ok ()) ∧
      ∀ set : RunnerSet, set.key = key → set.metadata.isDeleting = false →
        (next (.ok (some set))).Uses (Call.Follows set) := by
  refine ⟨_, rfl, fun e => rfl, rfl, ?_⟩
  rintro set rfl hlive
  change Uses _ (if set.hasFinalizer then _ else _)
  split
  · refine uses_bind (uses_call (Or.inl ⟨[], .listRunners⟩)) fun listed => ?_
    rcases listed with e | runners
    · exact trivial
    · have hactive : Teardown.observe set.metadata runners.length = .active := by
        simp [Teardown.observe, hlive]
      change Uses _ (proceed suffix set runners)
      rw [proceed, hactive]
      exact (uses_converge set suffix runners).mono fun c hc => Or.inl ⟨runners, hc⟩
  · rw [hlive]
    exact uses_bind (uses_call (Or.inr rfl)) fun _ => trivial

/-! ## The first calls -/

/-- How a pass goes on, by what it reads. -/
theorem pass_opens (suffix : Nat → String) (key : String) :
    ∃ next, pass suffix key = .call (.getSet key) next ∧ next (.ok none) = .done (.ok ()) ∧
      (∀ set : RunnerSet, set.hasFinalizer = false → set.metadata.isDeleting = true →
        next (.ok (some set)) = .done (.ok ())) ∧
      (∀ set : RunnerSet, set.hasFinalizer = false → set.metadata.isDeleting = false →
        next (.ok (some set)) = .call (.setFinalizers key (withFinalizer set.metadata))
          fun answer => .done (tolerateMissing answer)) ∧
      ∀ set : RunnerSet, set.hasFinalizer = true →
        ∃ rest, next (.ok (some set)) = .call (.listRunners key) rest ∧
          ∀ runners, rest (.ok runners) = proceed suffix set runners := by
  refine ⟨_, rfl, rfl, ?_, ?_, ?_⟩
  · intro set hunheld hdeleting
    change (if set.hasFinalizer then _ else _) = _
    rw [hunheld, if_neg Bool.false_ne_true, hdeleting]
    rfl
  · intro set hunheld hlive
    change (if set.hasFinalizer then _ else _) = _
    rw [hunheld, if_neg Bool.false_ne_true, hlive, if_neg Bool.false_ne_true]
    rfl
  · intro set hheld
    refine ⟨fun listed => match listed with
      | .error e => .done (.error (.store e))
      | .ok runners => proceed suffix set runners, ?_, fun runners => rfl⟩
    change (if set.hasFinalizer then _ else _) = _
    rw [if_pos hheld]
    change Program.call _ _ = _
    congr 1
    funext listed
    cases listed <;> rfl

/-- A set that can be released has no runners. -/
theorem eq_nil_of_removable {m : Metadata} {runners : List Runner}
    (h : Teardown.observe m runners.length = .removable) : runners = [] := by
  unfold Teardown.observe at h
  split at h
  · cases h
  · split at h
    · cases h
    · exact List.eq_nil_of_length_eq_zero (by omega)

/-- A set that asks for runners and has none gets its first one. -/
theorem proceed_nil (suffix : Nat → String) {set : RunnerSet}
    (hlive : set.metadata.isDeleting = false) (hwanted : 0 < set.spec.replicas) :
    ∃ rest, proceed suffix set [] = .call (.createRunner (newRunner set (suffix 0))) rest := by
  have hactive : Teardown.observe set.metadata 0 = .active := by
    simp [Teardown.observe, hlive]
  have hgap : gap set (Fleet.classify []) = .missing set.spec.replicas := by
    have hlacks : (Fleet.classify []).scaleTotal < set.spec.replicas := hwanted
    rw [gap, if_neg (by simp [Fleet.isAdopted, Fleet.classify]), if_pos hlacks]
    rfl
  have hclose : ∃ rest, closeGap suffix set (Fleet.classify []) =
      .call (.createRunner (newRunner set (suffix 0))) rest := by
    obtain ⟨count, hcount⟩ := Nat.exists_eq_add_one.2 hwanted
    rw [closeGap, hgap, hcount]
    dsimp only
    rw [List.range_succ_eq_map]
    exact ⟨_, rfl⟩
  obtain ⟨rest, hrest⟩ := hclose
  have hproceed : proceed suffix set [] = converge suffix set (Fleet.classify []) := by
    unfold proceed
    rw [List.length_nil, hactive]
  rw [hproceed, converge]
  change ∃ rest, (closeGap suffix set (Fleet.classify [])).bind _ = _
  rw [hrest]
  exact ⟨_, rfl⟩

end Reconcile
end RunnerFleet
