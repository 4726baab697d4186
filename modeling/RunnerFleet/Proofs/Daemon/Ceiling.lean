import RunnerFleet.Proofs.Daemon.Lifetimes
import RunnerFleet.Proofs.Reconcile.Growth
import RunnerFleet.Proofs.Scaling.Decision
import RunnerFleet.Proofs.Store.Custody

/-!
# No fleet exceeds its upper bound

Where all that is asked of a set comes from listeners with an upper bound, and all its runners come
from passes, there are never more live runners than the bound.  Others may do anything else to the
store, even between two calls of a pass.  What has to be seen is that a pass which is about to create
runners does so for a number that was asked for, and counts all runners that were live when it
listed them; this is `meets_pass_capped`, and it stays true while the pass is in progress.

Main results:

- `Capped.step`, `Capped.others`: the bound is kept by whatever happens next.
- `liveCount_le_limit`: there are never more live runners than the upper bound.
-/

namespace RunnerFleet
namespace Daemon

open Reconcile Store

namespace Lives

/-- A report about a runner does not put it to work again after it was over. -/
def Event.Mild (plan : Plan) (l : Lives) : Event → Prop
  | .report _ name status =>
      ¬ (Operation.updateRunnerStatus plan.key name status).Revives plan.key l.store
  | _ => True

/-- What may be reached while no runner of the set is put to work again after it was over, and
while others neither say what is asked of the set nor create runners for it. -/
inductive Reached (plan : Plan) : Lives → Prop where
  | first (stamp : Stamp) : Reached plan (Lives.first plan stamp)
  | step {l : Lives} (reached : Reached plan l) (event : Event) (mild : event.Mild plan l) :
      Reached plan (l.step plan event)
  | others {l : Lives} (reached : Reached plan l) (stamp : Stamp) (op : Operation)
      (specifies : ¬ op.Specifies plan.key) (populates : ¬ op.Populates plan.key)
      (revives : ¬ op.Revives plan.key l.store) :
      Reached plan { l with store := (l.store.perform stamp op).store }

/-- There are no more live runners than the limit, nothing asks for more, and the pass in progress
will not create more. -/
structure Capped (plan : Plan) (limit : Nat) (l : Lives) : Prop where
  keyed : l.store.Keyed
  modest : Modest plan.key limit l.store
  live : l.store.liveCount plan.key ≤ limit
  bounds : l.listener.bounds.max ≤ limit
  pass : ∀ progress, l.pass = some progress →
    progress.program.Meets (capped plan.key limit) (fun _ _ => True) l.store

section Steps

variable {plan : Plan} {limit : Nat} {l : Lives}

/-- What others do between two calls of a pass keeps the limit. -/
theorem Capped.perform (h : Capped plan limit l) (stamp : Stamp) {op : Operation}
    (hmodest : Modest plan.key limit (l.store.perform stamp op).store)
    (hpopulate : ¬ op.Populates plan.key) (hrevive : ¬ op.Revives plan.key l.store) :
    Capped plan limit { l with store := (l.store.perform stamp op).store } := by
  have hle := liveCount_perform_le h.keyed stamp
    (fun r hop howner => hpopulate (by rw [hop]; exact howner)) hrevive
  exact ⟨h.keyed.perform stamp op, hmodest, Nat.le_trans hle h.live, h.bounds,
    fun progress hpass => Meets.of_liveCount_le (h.pass progress hpass) hle⟩

theorem Capped.others (h : Capped plan limit l) (stamp : Stamp) {op : Operation}
    (hspec : ¬ op.Specifies plan.key) (hpopulate : ¬ op.Populates plan.key)
    (hrevive : ¬ op.Revives plan.key l.store) :
    Capped plan limit { l with store := (l.store.perform stamp op).store } := by
  refine h.perform stamp ?_ hpopulate hrevive
  intro set hset
  rw [getSet_perform] at hset
  obtain ⟨old, hold, hsame⟩ := spec_eq_of_onSet hset hspec
  rw [hsame]
  exact h.modest old hold

/-- A decision asks for no more than the upper bound of the listener. -/
theorem Capped.takeBatch (h : Capped plan limit l) (stamp : Stamp) (batch : JobBatch)
    (fault : Option Store.Error) : Capped plan limit (l.takeBatch plan stamp batch fault) := by
  obtain ⟨store, listener, current, written, heq, hbounds, hstore⟩ :=
    takeBatch_cases plan l stamp batch fault
  rw [heq]
  have hbound : listener.bounds.max ≤ limit := hbounds ▸ h.bounds
  rcases hstore with rfl | rfl
  · exact ⟨h.keyed, h.modest, h.live, hbound, h.pass⟩
  · have hmodest : Modest plan.key limit (l.store.perform stamp (.patchSpec plan.key
        (l.listener.decisionFor batch).replicas (l.listener.decisionFor batch).patchId)).store := by
      intro set hset
      rw [replicas_of_patchSpec hset]
      exact Nat.le_trans (Scaling.next_replicas_le_max _ _ _) h.bounds
    have hperform := h.perform stamp hmodest id (by rintro ⟨_, _, _, _, ⟨⟩, -⟩)
    exact ⟨hperform.keyed, hperform.modest, hperform.live, hbound, hperform.pass⟩

/-- A call of the pass creates a runner only below the limit. -/
theorem Capped.advance (h : Capped plan limit l)
    {answer : (c : Call) → Option (c.Answer × Store)}
    (hanswer : ∀ c reply store, answer c = some (reply, store) → c.Answered l.store reply store) :
    Capped plan limit (l.advance plan answer) := by
  rcases advance_cases plan l answer with heq | ⟨c, next, read, reply, store, hpass, hreply, heq⟩
  · rw [heq]
    exact h
  · have hanswered := hanswer c reply store hreply
    obtain ⟨hpermits, hnext⟩ := h.pass _ hpass
    have hlive : store.liveCount plan.key ≤ limit := by
      by_cases hcreate : ∃ r, c = .createRunner r ∧ r.ownerKey = some plan.key
      · obtain ⟨r, hc, howner⟩ := hcreate
        have hroom := hpermits r hc howner
        exact Nat.le_trans (hanswered.liveCount_le_succ h.keyed plan.key) hroom
      · have hle := hanswered.liveCount_le h.keyed
          fun r hc howner => hcreate ⟨r, hc, howner⟩
        exact Nat.le_trans hle h.live
    rw [heq]
    refine ⟨hanswered.keyed h.keyed, hanswered.modest h.modest, hlive, h.bounds, ?_⟩
    intro progress hprogress
    have hrest := hnext reply store ⟨l.store, h.keyed, h.modest, Nat.le_refl _, hanswered⟩
    cases hprogram : next reply with
    | done value =>
        rw [hprogram] at hprogress
        cases hprogress
    | call c' next' =>
        rw [hprogram] at hprogress hrest
        cases hprogress
        exact hrest

/-- The next daemon has bounds of its own, and stores its set if it is not there. -/
theorem capped_launch (hkeyed : l.store.Keyed) (hmodest : Modest plan.key limit l.store)
    (hlive : l.store.liveCount plan.key ≤ limit) (lifetime : Nat)
    (hmax : (plan.bounds lifetime).max ≤ limit) (stamp : Stamp) :
    Capped plan limit (l.launch plan lifetime stamp) := by
  rw [Lives.launch]
  split
  · exact ⟨hkeyed, hmodest, hlive, hmax, nofun⟩
  · rename_i hnone
    refine ⟨hkeyed.perform stamp _, ?_, ?_, hmax, nofun⟩
    · intro set hset
      rw [getSet_perform, Operation.onSet, hnone, if_pos (plan.key_runnerSet lifetime).symm] at hset
      rw [← Option.some.inj hset]
      exact Nat.zero_le _
    · refine Nat.le_trans (liveCount_perform_le hkeyed stamp ?_ ?_) hlive
      · rintro r ⟨⟩
      · rintro ⟨_, _, _, _, ⟨⟩, -⟩

/-- Whatever happens next keeps the limit. -/
theorem Capped.step (h : Capped plan limit l)
    (hmax : ∀ lifetime, (plan.bounds lifetime).max ≤ limit) {event : Event}
    (hmild : event.Mild plan l) : Capped plan limit (l.step plan event) := by
  cases event with
  | batch stamp batch fault => exact h.takeBatch stamp batch fault
  | report stamp name status => exact h.others stamp id id hmild
  | begin suffix =>
      rw [Lives.step]
      split
      · exact h
      · refine ⟨h.keyed, h.modest, h.live, h.bounds, ?_⟩
        rintro progress ⟨⟩
        exact meets_pass_capped suffix plan.key limit l.store
  | serve service stamp =>
      rw [Lives.step]
      exact h.advance (answered_serve service stamp)
  | fail e =>
      rw [Lives.step]
      exact h.advance (answered_fail e)
  | abandon => exact ⟨h.keyed, h.modest, h.live, h.bounds, nofun⟩
  | restart stamp => exact capped_launch h.keyed h.modest h.live _ (hmax _) stamp

end Steps

/-- There are never more live runners than the upper bound of all listeners. -/
theorem liveCount_le_limit {plan : Plan} {limit : Nat}
    (hmax : ∀ lifetime, (plan.bounds lifetime).max ≤ limit) {l : Lives} (h : Reached plan l) :
    l.store.liveCount plan.key ≤ limit := by
  suffices hcapped : Capped plan limit l from hcapped.live
  induction h with
  | first stamp =>
      have hmodest : Modest plan.key limit {} := by
        intro set hset
        simp [getSet] at hset
      have hnone : Store.liveCount {} plan.key ≤ limit := Nat.zero_le limit
      exact capped_launch (l := { listener := _, current := _ }) Reachable.empty.keyed hmodest hnone
        0 (hmax 0) stamp
  | step _ event hmild ih => exact ih.step hmax hmild
  | others _ stamp op hspec hpopulate hrevive ih => exact ih.others stamp hspec hpopulate hrevive

/-- What events without reports lead to may be reached. -/
theorem reached_run (plan : Plan) (stamp : Stamp) {events : List Event}
    (h : ∀ event ∈ events, ∀ l, event.Mild plan l) : Reached plan (run plan stamp events) := by
  unfold run
  suffices hfold : ∀ l, Reached plan l → Reached plan (events.foldl (step plan) l) by
    exact hfold _ (.first stamp)
  induction events with
  | nil => exact fun l hl => hl
  | cons event events ih =>
      intro l hl
      refine ih (fun e he => h e (List.mem_cons_of_mem _ he)) _ (hl.step event ?_)
      exact h event List.mem_cons_self l

/-- Three jobs come in for a set that may have two runners, and two passes look after it. -/
def threeJobs : List Event :=
  [.batch Stamp.sample { acquired := 3 } none, .begin toString] ++
    List.replicate 2 (.serve (fun _ => .ok ()) Stamp.sample) ++ [.begin toString] ++
    List.replicate 6 (.serve (fun _ => .ok ()) Stamp.sample)

/-- Two runners are created, and no third one. -/
theorem liveCount_threeJobs :
    (run (samePlan 0 2) Stamp.sample threeJobs).store.liveCount "ci/linux" = 2 := by
  have hreached : Reached (samePlan 0 2) (run (samePlan 0 2) Stamp.sample threeJobs) :=
    reached_run _ _ (by simp [threeJobs, Event.Mild])
  have hle : (run (samePlan 0 2) Stamp.sample threeJobs).store.liveCount "ci/linux" ≤ 2 :=
    liveCount_le_limit (fun _ => Nat.le_refl 2) hreached
  have hge : 2 ≤ (run (samePlan 0 2) Stamp.sample threeJobs).store.liveCount "ci/linux" := by
    decide +kernel
  exact Nat.le_antisymm hle hge

end Lives
end Daemon
end RunnerFleet
