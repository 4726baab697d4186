import RunnerFleet.Proofs.Reconcile.Answers
import RunnerFleet.Proofs.Reconcile.Calls
import RunnerFleet.Proofs.Fleet.Groups

/-!
# Runners whose removal is refused

A pass deletes a runner that is up only after the Actions service has agreed to remove its
registration.  As long as the service answers with an error, of whatever kind, and the runner stays
up, no pass deletes it: neither one over its own set, nor one over another set.

Main results:

- `meets_reclaim_refusing`: reclaiming runners leaves out the one that is refused.
- `meets_pass_refusing`: no pass deletes a runner that is up and whose removal is refused.
-/

namespace RunnerFleet
namespace Reconcile

open Program Store

/-- If the call has asked for the removal of this registration, the answer is an error. -/
def Exchange.Refuses (runnerId : Int) : Exchange → Prop
  | ⟨.deregister id, answer⟩ => id = runnerId → ∃ e, answer = .error e
  | _ => True

/-- The call deletes nothing under the key. -/
def Call.Misses (k : String) (c : Call) : Prop :=
  ∀ owner name, c = .deleteRunner owner name → runnerKey owner name ≠ k

theorem Call.misses_deleteRunner {k owner name : String} (h : runnerKey owner name ≠ k) :
    Call.Misses k (.deleteRunner owner name) := by
  rintro _ _ ⟨⟩
  exact h

/-- The setting in which a runner lies under a key all the time, and the removal of its registration
is refused; nothing may be deleted under this key. -/
def refusing (k : String) (r : Runner) : Setting Unit where
  permits c _ := Call.Misses k c
  answers c _ answer _ := Exchange.Refuses r.status.runnerId ⟨c, answer⟩ ∧
    ∃ s after : Store, s.Keyed ∧ s.runners.get? k = some r ∧ c.Answered s answer after

variable {k key : String} {r : Runner}

/-- Whatever the calls of a program are answered with, those that miss the key are permitted. -/
theorem Uses.meets_refusing {α : Type} {p : Program α} (hp : p.Uses (Call.Misses k)) :
    p.Meets (refusing k r) (fun _ _ => True) () :=
  hp.meets (fun _ => True) (fun _ _ hmisses _ => hmisses) (fun _ _ _ _ _ _ _ => trivial) trivial

/-- A runner under the key has the registration that is refused, and is not deleted. -/
theorem meets_retire_refusing {r' : Runner}
    (h : runnerKey key r'.name = k → r'.status.runnerId = r.status.runnerId) :
    (retire key r').Meets (refusing k r) (fun _ _ => True) () := by
  rw [retire, meets_bind]
  refine ⟨(by rintro owner name ⟨⟩), ?_⟩
  rintro (e | _) ⟨⟩ ⟨hrefuses, -⟩
  · exact trivial
  · change Meets _ _ (_ >>= _) _
    rw [meets_bind]
    have hmisses : Call.Misses k (.deleteRunner key r'.name) :=
      Call.misses_deleteRunner fun hkey => by
        obtain ⟨e, herror⟩ := hrefuses (h hkey)
        cases herror
    exact (Uses.meets_refusing (uses_discard hmisses)).mono fun _ _ _ => trivial

/-- Reclaiming runners leaves out the one that is refused. -/
theorem meets_reclaim_refusing {up : List Runner} (count : Nat)
    (h : ∀ r' ∈ up, runnerKey key r'.name = k → r'.status.runnerId = r.status.runnerId) :
    (reclaim key count up).Meets (refusing k r) (fun _ _ => True) () := by
  induction up generalizing count with
  | nil => cases count <;> exact trivial
  | cons r' rest ih =>
      have hrest := fun count => ih count fun r'' hr'' => h r'' (List.mem_cons_of_mem _ hr'')
      cases count with
      | zero => exact trivial
      | succ count =>
          rw [reclaim]
          split
          · rw [meets_bind]
            refine (meets_retire_refusing (h r' List.mem_cons_self)).mono ?_
            rintro (e | _ | _) ⟨⟩ -
            · change Meets _ _ (_ >>= _) _
              rw [meets_bind]
              exact (hrest (count + 1)).mono fun _ _ _ => trivial
            · exact hrest (count + 1)
            · change Meets _ _ (_ >>= _) _
              rw [meets_bind]
              exact (hrest count).mono fun _ _ _ => trivial
          · exact hrest (count + 1)

/-- After its reads a pass does not delete a runner that is up and is refused. -/
theorem meets_proceed_refusing (suffix : Nat → String) (set : RunnerSet) {runners : List Runner}
    (hup : r.IsUp) (h : ∀ r' ∈ runners, runnerKey set.key r'.name = k → r' = r) :
    (proceed suffix set runners).Meets (refusing k r) (fun _ _ => True) () := by
  have hover : ∀ r' ∈ (Fleet.classify runners).cleanupCandidates,
      Call.Misses k (.deleteRunner set.key r'.name) := by
    refine fun r' hr' => Call.misses_deleteRunner fun hkey => ?_
    obtain ⟨hmem, -, hover⟩ := Fleet.mem_cleanupCandidates_iff.1 hr'
    obtain rfl := h r' hmem hkey
    exact r'.isOver_iff_not_isUp.1 hover hup
  have hlive : ∀ r' ∈ (Fleet.classify runners).deletionOrder,
      runnerKey set.key r'.name = k → r'.status.runnerId = r.status.runnerId := by
    intro r' hr' hkey
    rw [h r' (Fleet.mem_deletionOrder_iff.1 hr').1 hkey]
  rw [proceed]
  split
  · rw [converge, meets_bind]
    refine (Uses.meets_refusing (uses_cleanup hover)).mono fun _ _ _ => ?_
    have hclose : (closeGap suffix set (Fleet.classify runners)).Meets (refusing k r)
        (fun _ _ => True) () := by
      rw [closeGap]
      split
      · exact trivial
      · exact Uses.meets_refusing (uses_createRunners set (by rintro _ _ _ ⟨⟩) _)
      · rw [meets_bind]
        exact (meets_reclaim_refusing _ hlive).mono fun _ _ _ => trivial
    rw [meets_bind]
    refine hclose.mono fun _ _ _ => Uses.meets_refusing ?_
    refine uses_bind (uses_review set (by rintro _ _ ⟨⟩) _ _) fun _ => ?_
    exact uses_bind (uses_writeStatus set (by rintro _ _ _ ⟨⟩) _) fun _ => trivial
  · rw [drain, meets_bind]
    refine (Uses.meets_refusing (uses_cleanup hover)).mono fun _ _ _ => ?_
    change Meets _ _ (_ >>= _) _
    rw [meets_bind]
    exact (meets_reclaim_refusing _ hlive).mono fun _ _ _ => trivial
  · exact ⟨(by rintro owner name ⟨⟩), fun _ _ _ => trivial⟩

/-- No pass deletes a runner that is up while its removal is refused. -/
theorem meets_pass_refusing (suffix : Nat → String) (key : String) (hup : r.IsUp) :
    (pass suffix key).Meets (refusing k r) (fun _ _ => True) () := by
  rw [pass, meets_bind]
  refine ⟨(by rintro owner name ⟨⟩), ?_⟩
  rintro (e | _ | set) ⟨⟩ ⟨-, s, after, hkeyed, -, hanswered⟩
  · exact trivial
  · exact trivial
  · obtain ⟨-, hset⟩ := hanswered.getSet
    obtain rfl : set.key = key := hkeyed.set hset
    change Meets _ _ (if set.hasFinalizer then _ else _) _
    split
    · rw [meets_bind]
      refine ⟨(by rintro owner name ⟨⟩), ?_⟩
      rintro (e | runners) ⟨⟩ ⟨-, s, after, hkeyed, hstored, hanswered⟩
      · exact trivial
      · obtain ⟨-, rfl⟩ := hanswered.listRunners
        refine meets_proceed_refusing suffix set hup fun r' hr' hkey => ?_
        have hget := (hkeyed.mem_runnersOf.1 hr').2
        rw [hkey, hstored] at hget
        exact (Option.some.inj hget).symm
    · split
      · exact trivial
      · rw [meets_bind]
        exact ⟨(by rintro owner name ⟨⟩), fun _ _ _ => trivial⟩

/-- What a pass does to the store leaves a runner where it is, unless it is deleted. -/
theorem Call.Answered.getRunner {c : Call} {s after : Store} {answer : c.Answer}
    (h : c.Answered s answer after) (hstored : s.runners.get? k = some r)
    (hpermits : (refusing k r).permits c ()) : after.runners.get? k = some r := by
  rcases h.store with rfl | ⟨op, stamp, hop, rfl⟩
  · exact hstored
  · rw [getRunner_perform, hstored]
    cases c with
    | deregister runnerId => cases hop
    | deleteRunner owner name =>
        cases hop
        exact if_neg fun hkey => hpermits owner name rfl hkey.symm
    | createRunner new =>
        cases hop
        simp only [Operation.onRunner]
        split <;> rfl
    | _ =>
        cases hop
        rfl

end Reconcile
end RunnerFleet
