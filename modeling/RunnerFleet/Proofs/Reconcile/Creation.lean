import RunnerFleet.Proofs.Reconcile.Accounting
import RunnerFleet.Proofs.Reconcile.Growth
import RunnerFleet.Proofs.Reconcile.Settling

/-!
# How a fleet is filled up

If runners are missing, a pass asks for the creation of each of them, whatever became of those
before.  Creations that fail are reported one by one.  A runner whose creation goes well is listed
under the key of its set, bears the id of the decision that it was made for, and is yet to begin.

Main results:

- `Accounts.creationErrors`: the errors of creations are those of the creations that failed.
- `reported_collect`: all errors of a pass are found in its result.
- `creations_converge`: which runners a pass over a live set creates.
- `Call.Answered.created`: what is known of a runner that was created.
-/

namespace RunnerFleet
namespace Reconcile

open Program Store

/-! ## Creations among the calls -/

namespace Exchange

/-- The runner whose creation was asked for. -/
def creation? : Exchange → Option Runner
  | ⟨.createRunner r, _⟩ => some r
  | _ => none

/-- The runner that was created. -/
def created? : Exchange → Option Runner
  | ⟨.createRunner _, .ok new⟩ => some new
  | _ => none

/-- The error of a creation that failed. -/
def creationError? : Exchange → Option Error
  | ⟨.createRunner r, .error e⟩ => r.ownerKey.map (.createRunner · e)
  | _ => none

end Exchange

/-- A runner was created by a call for a runner. -/
theorem Exchange.of_created? {e : Exchange} {new : Runner} (h : e.created? = some new) :
    ∃ r, e = ⟨.createRunner r, .ok new⟩ := by
  unfold created? at h
  split at h
  · cases h
    exact ⟨_, rfl⟩
  · cases h

/-- The runners whose creation was asked for, in order. -/
def creations (calls : List Exchange) : List Runner :=
  calls.filterMap Exchange.creation?

/-- Whether the error is that of a creation. -/
def Error.isCreation : Error → Bool
  | createRunner _ _ => true
  | _ => false

@[simp]
theorem creations_append (t t' : List Exchange) :
    creations (t ++ t') = creations t ++ creations t' :=
  List.filterMap_append

/-- Calls that create no runner. -/
theorem creations_eq_nil {t : List Exchange} (h : ∀ e ∈ t, e.call.CreatesNone) :
    creations t = [] := by
  refine List.filterMap_eq_nil_iff.2 ?_
  rintro ⟨c, answer⟩ he
  cases c with
  | createRunner r => exact absurd rfl (h _ he r)
  | _ => rfl

/-- A call that is tolerated is no creation that failed. -/
theorem creationError?_of_isTolerated {e : Exchange} (h : e.isTolerated = true) :
    e.creationError? = none := by
  obtain ⟨c, answer⟩ := e
  cases c with
  | createRunner r =>
      cases answer with
      | error e => cases h
      | ok new => rfl
  | _ => rfl

/-- The errors of creations are those of the creations that failed, in order. -/
theorem Accounts.creationErrors {t : List Exchange} {errors : List Error} (h : Accounts t errors) :
    errors.filter Error.isCreation = t.filterMap Exchange.creationError? := by
  induction h with
  | nil => rfl
  | tolerated htolerated _ ih =>
      rw [List.filterMap_cons_none (creationError?_of_isTolerated htolerated), ih]
  | reported hreports _ ih =>
      cases hreports with
      | @createRunner r key howner e =>
          have hfailed : Exchange.creationError? ⟨.createRunner r, .error e⟩ =
              some (.createRunner key e) := by
            rw [Exchange.creationError?, howner]
            rfl
          rw [List.filterMap_cons_some hfailed, List.filter_cons_of_pos rfl, ih]
      | _ => exact ih

/-! ## Results -/

/-- The errors that the result of a pass reports. -/
def reported : Except Error Unit → List Error
  | .ok () => []
  | .error (.several errors) => errors
  | .error e => [e]

/-- All errors of a pass are found in its result. -/
theorem reported_collect {t : List Exchange} {errors : List Error} (h : Accounts t errors) :
    reported (Error.collect errors) = errors := by
  have hsingle : ∀ e ∈ errors, reported (.error e) = [e] := by
    induction h with
    | nil => exact fun e he => absurd he List.not_mem_nil
    | tolerated _ _ ih => exact ih
    | reported hreports _ ih =>
        intro e he
        rcases List.mem_cons.1 he with rfl | he
        · cases hreports <;> rfl
        · exact ih e he
  match errors with
  | [] => rfl
  | [e] => exact hsingle e List.mem_cons_self
  | _ :: _ :: _ => rfl

/-! ## Creations of a pass -/

theorem creations_createRunners {set : RunnerSet} {suffixes : List String} {t : List Exchange}
    {errors : List Error} (h : (createRunners set suffixes).Leads t (done errors)) :
    creations t = suffixes.map (newRunner set) := by
  induction suffixes generalizing t errors with
  | nil =>
      obtain ⟨rfl, -⟩ := leads_done.1 h
      rfl
  | cons suffix rest ih =>
      obtain ⟨answer, last, others, rfl, hothers, -⟩ := leads_createRunners_cons h
      change newRunner set suffix :: creations last = _
      rw [ih hothers, List.map_cons]

/-- A fleet that lacks runners is given all of them, whatever became of the first ones. -/
theorem creations_converge {suffix : Nat → String} {set : RunnerSet} {runners : List Runner}
    {count : Nat} {t : List Exchange} {result : Except Error Unit}
    (h : (converge suffix set (Fleet.classify runners)).Leads t (done result))
    (hgap : gap set (Fleet.classify runners) = .missing count) :
    creations t = (List.range count).map fun i => newRunner set (suffix i) := by
  obtain ⟨cleanupErrors, t₁, rest, rfl, hcleanup, h⟩ := leads_bind.1 h
  obtain ⟨gapErrors, t₂, t₃, rfl, hclose, hrest⟩ := leads_bind.1 h
  have hdeletes : creations t₁ = [] := by
    refine creations_eq_nil (hcleanup.uses (uses_cleanup fun r _ => ?_)).1
    rintro r ⟨⟩
  have hreports : creations t₃ = [] := by
    refine creations_eq_nil (hrest.uses ?_).1
    refine uses_bind (uses_review set (by rintro r ⟨⟩) _ _) fun _ => ?_
    exact uses_bind (uses_writeStatus set (by rintro status r ⟨⟩) _) fun _ => trivial
  rw [closeGap, hgap] at hclose
  rw [creations_append, creations_append, hdeletes, hreports, creations_createRunners hclose,
    List.nil_append, List.append_nil, List.map_map]
  rfl

/-- A pass over a live set that lacks runners. -/
theorem gap_eq_missing {set : RunnerSet} {fleet : Fleet}
    (hunadopted : fleet.isAdopted set.spec.patchId = false)
    (hlacking : fleet.scaleTotal < set.spec.replicas) :
    gap set fleet = .missing (set.spec.replicas - fleet.scaleTotal) := by
  rw [gap, if_neg (by rw [hunadopted]; exact Bool.false_ne_true), if_pos hlacking]

/-! ## A runner that was created -/

/-- A runner whose creation went well is listed, as it was asked for and yet to begin. -/
theorem Call.Answered.created {r new : Runner} {owner : String} (howner : r.ownerKey = some owner)
    {s after : Store} (h : (Call.createRunner r).Answered s (.ok new) after) (hs : s.Keyed) :
    new ∈ after.runnersOf owner ∧ Akin new r ∧ new.status = r.status := by
  have hkeyed := h.keyed hs
  obtain ⟨hnone, -⟩ := h.createRunner howner
  rcases h with ⟨service, stamp, hanswer, rfl⟩ | ⟨e, hfail, -⟩
  · rw [answer_createRunner service stamp howner hnone] at hanswer
    obtain rfl := Except.ok.inj hanswer
    refine ⟨hkeyed.mem_runnersOf.2 ⟨howner, ?_⟩, ⟨rfl, rfl, rfl⟩, rfl⟩
    change ((s.perform stamp (.createRunner r)).store.runners.get? _) = _
    rw [getRunner_perform, Operation.onRunner, howner]
    have hname : (Store.created stamp r).name = r.name := rfl
    rw [hname, hnone]
    exact if_pos rfl
  · cases hfail

end Reconcile
end RunnerFleet
