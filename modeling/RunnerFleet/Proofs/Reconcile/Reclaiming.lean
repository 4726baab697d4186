import RunnerFleet.Proofs.Fleet.Order
import RunnerFleet.Proofs.Reconcile.Transcript
import RunnerFleet.Proofs.Store.Keyed

/-!
# Which runners are reclaimed, and in which order

When runners are spare, idle ones are tried one after the other: the oldest first, those of unknown
age before all others, and equally old ones by their names.  An attempt succeeds if the registration
of the runner is removed and the runner is gone afterwards.  Otherwise the runner stays, either
because it has taken a job, or because of an error that is reported.  The walk ends with the last
runner that is to be reclaimed, or after all of them were tried.

Main results:

- `Walk.cons`: one more attempt before a walk.
- `exists_walk`: every transcript is a walk over the idle runners.
- `reclaim_walks_oldest_first`: the calls and the result of a reclamation, whatever the answers.
-/

namespace RunnerFleet

namespace Runner

/-- A runner that may be reclaimed: it is pending or running, registered, and without a job. -/
def IsEligible (r : Runner) : Prop :=
  (Bucket.of r = .pending ∨ Bucket.of r = .running) ∧ r.status.runnerId ≠ 0 ∧
    r.status.jobRequestId ≤ 0

instance (r : Runner) : Decidable r.IsEligible := inferInstanceAs (Decidable (_ ∧ _ ∧ _))

end Runner

namespace Reconcile

open Program

/-! ## Attempts -/

/-- The attempt to reclaim a runner: the calls that were made with their answers, whether the runner
was removed, and the errors that came up. -/
structure Attempt where
  runner : Runner
  calls : List Exchange
  removed : Bool
  errors : List Error

/-- How an attempt to reclaim a runner may go. -/
inductive Attempt.Proper (key : String) : Attempt → Prop where
  /-- The registration was removed, and the runner is gone. -/
  | removed (r : Runner) (answer : Except Store.Error Unit) (gone : SaysGone answer) :
      Proper key
        { runner := r
          calls := [⟨.deregister r.status.runnerId, .ok ()⟩, ⟨.deleteRunner key r.name, answer⟩]
          removed := true
          errors := [] }
  /-- The runner has taken a job. -/
  | busy (r : Runner) (e : Actions.Error) (working : e.isJobStillRunning = true) :
      Proper key
        { runner := r
          calls := [⟨.deregister r.status.runnerId, .error e⟩]
          removed := false
          errors := [] }
  /-- The registration was not removed for another reason. -/
  | refused (r : Runner) (e : Actions.Error) (idle : e.isJobStillRunning = false) :
      Proper key
        { runner := r
          calls := [⟨.deregister r.status.runnerId, .error e⟩]
          removed := false
          errors := [.deregister r.name r.status.runnerId e] }
  /-- The registration was removed, but the runner was not. -/
  | kept (r : Runner) (e : Store.Error) (present : e.isNotFound = false) :
      Proper key
        { runner := r
          calls := [⟨.deregister r.status.runnerId, .ok ()⟩, ⟨.deleteRunner key r.name, .error e⟩]
          removed := false
          errors := [.deleteRunner r.name e] }

/-- How many of these attempts have removed their runners. -/
def removals (attempts : List Attempt) : Nat :=
  attempts.countP Attempt.removed

/-- A runner is retired by one attempt. -/
theorem exists_attempt {key : String} {r : Runner} {t : List Exchange} {result : Except Error Bool}
    (h : (retire key r).Leads t (done result)) :
    ∃ a : Attempt, a.Proper key ∧ a.runner = r ∧ a.calls = t ∧ errorsOf result = a.errors ∧
      a.removed = result.toOption.getD false := by
  rcases leads_retire h with ⟨e, rfl, rfl⟩ | ⟨rest, deleted, rfl, hdiscard, rfl⟩
  · cases hworking : e.isJobStillRunning with
    | true => exact ⟨_, .busy r e hworking, rfl, rfl, rfl, rfl⟩
    | false => exact ⟨_, .refused r e hworking, rfl, rfl, rfl, rfl⟩
  · obtain ⟨answer, rfl, ⟨hgone, rfl⟩ | ⟨e, rfl, hpresent, rfl⟩⟩ := leads_discard hdiscard
    · exact ⟨_, .removed r answer hgone, rfl, rfl, rfl, rfl⟩
    · exact ⟨_, .kept r e hpresent, rfl, rfl, rfl, rfl⟩

/-! ## Walks -/

/-- These attempts are made in this order to remove up to `count` of these runners: each runner is
tried once, and the walk ends with the last removal that is asked for, or after all runners. -/
structure Walk (key : String) (count : Nat) (eligible : List Runner) (attempts : List Attempt) :
    Prop where
  proper : ∀ a ∈ attempts, a.Proper key
  inOrder : attempts.map Attempt.runner <+: eligible
  notMore : removals attempts ≤ count
  goesOn : ∀ earlier, earlier <+: attempts → earlier ≠ attempts → removals earlier < count
  exhausted : removals attempts < count → attempts.map Attempt.runner = eligible

theorem Walk.nil_zero (key : String) (eligible : List Runner) : Walk key 0 eligible [] where
  proper _ ha := absurd ha List.not_mem_nil
  inOrder := List.nil_prefix
  notMore := Nat.le_refl 0
  goesOn _ h hne := absurd (List.prefix_nil.1 h) hne
  exhausted h := absurd h (Nat.not_lt_zero 0)

theorem Walk.nil (key : String) (count : Nat) : Walk key count [] [] where
  proper _ ha := absurd ha List.not_mem_nil
  inOrder := List.nil_prefix
  notMore := Nat.zero_le count
  goesOn _ h hne := absurd (List.prefix_nil.1 h) hne
  exhausted _ := rfl

theorem removals_cons (a : Attempt) (attempts : List Attempt) :
    removals (a :: attempts) = removals [a] + removals attempts := by
  rw [← List.singleton_append, removals, List.countP_append]
  rfl

/-- One more attempt before a walk. -/
theorem Walk.cons {key : String} {count : Nat} {eligible : List Runner} {a : Attempt}
    {attempts : List Attempt} (h : Walk key (count - removals [a]) eligible attempts)
    (hproper : a.Proper key) (hcount : 0 < count) :
    Walk key count (a.runner :: eligible) (a :: attempts) := by
  have hone : removals [a] ≤ 1 := List.countP_le_length
  refine ⟨?_, ?_, ?_, ?_, ?_⟩
  · intro b hb
    rcases List.mem_cons.1 hb with rfl | hb
    · exact hproper
    · exact h.proper b hb
  · rw [List.map_cons, List.prefix_cons_inj]
    exact h.inOrder
  · have hrest := h.notMore
    rw [removals_cons]
    omega
  · intro earlier hearlier hne
    cases earlier with
    | nil => exact hcount
    | cons b rest =>
        obtain ⟨rfl, hrest⟩ := List.cons_prefix_cons.1 hearlier
        have hlt := h.goesOn rest hrest fun heq => hne (heq ▸ rfl)
        rw [removals_cons]
        omega
  · intro hlt
    rw [removals_cons] at hlt
    rw [List.map_cons, h.exhausted (by omega)]

/-- A runner that may be reclaimed is tried, and the others after it; if it was removed, one removal
fewer is asked for. -/
theorem leads_reclaim_cons {key : String} {count : Nat} {r : Runner} {rest : List Runner}
    {t : List Exchange} {result : Nat × List Error} (hreclaimable : isReclaimable r = true)
    (h : (reclaim key (count + 1) (r :: rest)).Leads t (done result)) :
    ∃ (a : Attempt) (last : List Exchange) (n : Nat) (errors : List Error), a.Proper key ∧
      a.runner = r ∧ t = a.calls ++ last ∧
      (reclaim key (count + 1 - removals [a]) rest).Leads last (done (n, errors)) ∧
      result = (removals [a] + n, a.errors ++ errors) := by
  rw [reclaim, if_pos hreclaimable] at h
  obtain ⟨tried, first, last, rfl, hretire, hlast⟩ := leads_bind.1 h
  obtain ⟨a, hproper, rfl, rfl, herrors, hremoved⟩ := exists_attempt hretire
  have hcount : removals [a] = if tried.toOption.getD false then 1 else 0 := by
    rw [removals, List.countP_singleton, hremoved]
  refine ⟨a, last, ?_⟩
  rw [hcount, ← herrors]
  rcases tried with e | _ | _
  · obtain ⟨⟨n, errors⟩, hrest, rfl⟩ := leads_map.1 hlast
    exact ⟨n, errors, hproper, rfl, rfl, hrest, congrArg (·, _) (Nat.zero_add n).symm⟩
  · obtain ⟨n, errors⟩ := result
    exact ⟨n, errors, hproper, rfl, rfl, hlast, congrArg (·, _) (Nat.zero_add n).symm⟩
  · obtain ⟨⟨n, errors⟩, hrest, rfl⟩ := leads_map.1 hlast
    exact ⟨n, errors, hproper, rfl, rfl, hrest, congrArg (·, _) (Nat.add_comm n 1)⟩

/-- Every transcript of a reclamation is a walk over the runners that may be reclaimed. -/
theorem exists_walk {key : String} {count : Nat} {runners : List Runner} {t : List Exchange}
    {result : Nat × List Error} (h : (reclaim key count runners).Leads t (done result)) :
    ∃ attempts, Walk key count (runners.filter isReclaimable) attempts ∧
      t = attempts.flatMap Attempt.calls ∧
      result = (removals attempts, attempts.flatMap Attempt.errors) := by
  induction runners generalizing count t result with
  | nil =>
      have hdone : reclaim key count [] = done (0, []) := by cases count <;> rfl
      rw [hdone] at h
      obtain ⟨rfl, rfl⟩ := leads_done_done.1 h
      exact ⟨[], .nil key count, rfl, rfl⟩
  | cons r rest ih =>
      cases count with
      | zero =>
          obtain ⟨rfl, rfl⟩ := leads_done_done.1 h
          exact ⟨[], .nil_zero key _, rfl, rfl⟩
      | succ count =>
          cases hreclaimable : isReclaimable r with
          | true =>
              rw [List.filter_cons_of_pos hreclaimable]
              obtain ⟨a, last, n, errors, hproper, rfl, rfl, hlast, rfl⟩ :=
                leads_reclaim_cons hreclaimable h
              obtain ⟨attempts, hwalk, rfl, hvalue⟩ := ih hlast
              cases hvalue
              refine ⟨a :: attempts, hwalk.cons hproper (Nat.succ_pos count), rfl, ?_⟩
              rw [removals_cons a attempts, List.flatMap_cons]
          | false =>
              have hskipped : ¬ isReclaimable r = true := by simp [hreclaimable]
              rw [reclaim, if_neg hskipped] at h
              rw [List.filter_cons_of_neg hskipped]
              exact ih h

/-- The runners that a fleet may lose, in the order in which they are tried. -/
def eligibleRunners (runners : List Runner) : List Runner :=
  (Fleet.classify runners).deletionOrder.filter isReclaimable

theorem eligibleRunners_perm (runners : List Runner) :
    (eligibleRunners runners).Perm (runners.filter fun r => decide r.IsEligible) := by
  refine ((Fleet.deletionOrder_perm_live runners).filter isReclaimable).trans (.of_eq ?_)
  rw [List.filter_filter]
  refine List.filter_congr fun r _ => ?_
  rw [Bool.eq_iff_iff, Bool.and_eq_true, decide_eq_true_eq, decide_eq_true_eq, isReclaimable_iff,
    Runner.IsEligible, Fleet.of_eq_pending_or_running_iff]
  exact And.comm

/-- Runners with different names are reclaimed as follows, however many are asked for and whatever
the calls are answered with.  Those that are pending or running, registered and without a job are
tried one after the other, the oldest first, until enough of them were removed or all were tried.
Each attempt goes one of four ways.  The number that is returned is how many runners were removed,
the errors are those of the attempts, and nothing depends on the order of the listing. -/
theorem reclaim_walks_oldest_first {σ : Type} (key : String) (count : Nat) (runners : List Runner)
    (hnames : (runners.map Runner.name).Nodup) (answer : (c : Call) → σ → c.Answer × σ)
    (state : σ) :
    ∃ eligible attempts,
      eligible.Perm (runners.filter fun r => decide r.IsEligible) ∧
      eligible.Pairwise Runner.ComesBefore ∧
      Walk key count eligible attempts ∧
      (reclaim key count (Fleet.classify runners).deletionOrder).exchanges answer state =
        attempts.flatMap Attempt.calls ∧
      ((reclaim key count (Fleet.classify runners).deletionOrder).run answer state).1 =
        (removals attempts, attempts.flatMap Attempt.errors) ∧
      ∀ listing : List Runner, listing.Perm runners →
        reclaim key count (Fleet.classify listing).deletionOrder =
          reclaim key count (Fleet.classify runners).deletionOrder := by
  obtain ⟨attempts, hwalk, hcalls, hresult⟩ := exists_walk (leads_exchanges answer
    (reclaim key count (Fleet.classify runners).deletionOrder) state)
  refine ⟨_, attempts, eligibleRunners_perm runners, ?_, hwalk, hcalls, hresult, ?_⟩
  · exact (Fleet.deletionOrder_pairwise hnames).filter isReclaimable
  · intro listing hperm
    rw [Fleet.deletionOrder_congr hnames hperm]

/-- A registered runner without a job, for examples. -/
def idleRunner (name : String) (creation : Option Timestamp) (runnerId : Int) : Runner where
  metadata := { name, namespaceName := "ns", creation }
  template := { image := "image" }
  status := { runnerId }

/-- Three runners, of which one has a known age. -/
def idleRunners : List Runner :=
  [idleRunner "aged" (some Stamp.sample.now) 1, idleRunner "last" none 2, idleRunner "first" none 3]

/-- The runner with the number three has taken a job, and other runners vanish as soon as their
registration is removed. -/
def vanishing (c : Call) (state : Unit) : c.Answer × Unit :=
  (match c with
    | .deregister runnerId =>
        if runnerId = 3 then .error (.api 400 (some Actions.jobStillRunning) "busy") else .ok ()
    | .deleteRunner _ name => .error (.notFound name)
    | .getSet key | .listRunners key | .updateStatus key _ | .setFinalizers key _ =>
        .error (.notFound key)
    | .createRunner r => .error (.notFound r.name), state)

/-- Of the runners of unknown age the first by name comes first. -/
theorem deletionOrder_idleRunners : (Fleet.classify idleRunners).deletionOrder =
    [idleRunner "first" none 3, idleRunner "last" none 2,
      idleRunner "aged" (some Stamp.sample.now) 1] :=
  Fleet.deletionOrder_eq_of_pairwise (by decide) (by decide) (by decide)

/-- The busy runner is skipped, the next one is removed, and the aged one is not tried. -/
theorem idleRunners_reclaimed :
    (idleRunners.map Runner.name).Nodup ∧
    ∃ eligible attempts,
      eligible.Perm (idleRunners.filter fun r => decide r.IsEligible) ∧
      eligible.Pairwise Runner.ComesBefore ∧ Walk "ns/set" 1 eligible attempts ∧
      (attempts.flatMap Attempt.calls).length = 3 ∧ removals attempts = 1 ∧
      attempts.flatMap Attempt.errors = [] := by
  have hnames : (idleRunners.map Runner.name).Nodup := by decide
  obtain ⟨eligible, attempts, hperm, hsorted, hwalk, hcalls, hresult, -⟩ :=
    reclaim_walks_oldest_first "ns/set" 1 idleRunners hnames vanishing ()
  rw [deletionOrder_idleRunners] at hcalls hresult
  obtain ⟨hremovals, herrors⟩ := Prod.mk.inj hresult
  exact ⟨hnames, eligible, attempts, hperm, hsorted, hwalk,
    (congrArg List.length hcalls).symm, hremovals.symm, herrors.symm⟩

end Reconcile
end RunnerFleet
