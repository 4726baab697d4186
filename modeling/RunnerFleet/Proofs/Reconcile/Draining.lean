import Mathlib.Data.List.Nodup
import RunnerFleet.Proofs.Reconcile.Status

/-!
# What a draining pass leaves

A set that is being removed is drained of its runners before it is released.  While nobody else
writes to the store and the calls to it go well, a draining pass leaves the runners whose removal
was requested before, those that it has condemned and that a finalizer holds, and those that it must
wait for: they are not registered, have a job, or the Actions service did not agree to remove them.
A pass that finds no runners releases the set.

Main results:

- `exists_removals`: what several deletions of different runners do to the store.
- `mem_deletedNames_iff`: which runners a draining pass deletes.
- `draining_leaves_what_remains`: the runners of the set after a draining pass, and the set after it
  was released.
-/

namespace RunnerFleet
namespace Reconcile

open Program Store

/-! ## Deletions of different runners -/

/-- Deletions of different runners each act on their own runner, at some time. -/
theorem exists_removals {key : String} {s after : Store} {t : List Exchange}
    (hc : Chronicle s t after) (hremoves : ∀ e ∈ t, e.call.Removes key)
    (haccepted : ∀ e ∈ t, e.accepted = true) (hnodup : (deletedNames t).Nodup) :
    ∃ now : String → Timestamp,
      (∀ name ∈ deletedNames t, after.runners.get? (runnerKey key name) =
        (s.runners.get? (runnerKey key name)).bind (removed? (now name))) ∧
      ∀ place, (∀ name ∈ deletedNames t, place ≠ runnerKey key name) →
        after.runners.get? place = s.runners.get? place := by
  induction hc with
  | nil s => exact ⟨fun _ => Stamp.sample.now, by simp [deletedNames], fun _ _ => rfl⟩
  | @cons s mid after c answer t answered rest ih =>
      have ih := ih (fun e he => hremoves e (List.mem_cons_of_mem _ he))
        fun e he => haccepted e (List.mem_cons_of_mem _ he)
      have hfirst := hremoves _ List.mem_cons_self
      cases c with
      | deregister runnerId =>
          have hmid : mid = s := answered.store_eq fun op hop => by cases hop
          rw [hmid] at ih
          exact ih hnodup
      | deleteRunner owner name =>
          obtain rfl : owner = key := hfirst
          obtain ⟨-, stamp, rfl⟩ :=
            deleteRunner_of_obliging ⟨answered, haccepted _ List.mem_cons_self⟩
          have hnames : (name :: deletedNames t).Nodup := hnodup
          obtain ⟨hfresh, hrest⟩ := List.nodup_cons.1 hnames
          obtain ⟨now, hdeleted, hothers⟩ := ih hrest
          refine ⟨fun n => if n = name then stamp.now else now n, ?_, ?_⟩
          · intro n hn
            beta_reduce
            by_cases hname : n = name
            · -- The others do not touch the runner that was deleted first.
              have hothers := hothers (runnerKey owner name) fun n' hn' hkey =>
                hfresh (runnerKey_inj hkey ▸ hn')
              rw [hname, if_pos rfl, hothers, getRunner_perform, Operation.onRunner, if_pos rfl]
            · have hn : n ∈ deletedNames t := (List.mem_cons.1 hn).resolve_left hname
              have hkey : runnerKey owner n ≠ runnerKey owner name :=
                fun heq => hname (runnerKey_inj heq)
              rw [if_neg hname, hdeleted n hn, getRunner_perform, Operation.onRunner, if_neg hkey]
          · intro place hplace
            have hfirst : place ≠ runnerKey owner name := hplace name List.mem_cons_self
            rw [hothers place fun n hn => hplace n (List.mem_cons_of_mem _ hn), getRunner_perform,
              Operation.onRunner, if_neg hfirst]
      | _ => exact hfirst.elim

/-! ## Which runners are deleted -/

/-- The Actions service has agreed to remove the registration of the runner. -/
def Attempt.agreed (a : Attempt) : Bool :=
  a.calls.any fun
    | ⟨.deregister _, .ok _⟩ => true
    | _ => false

/-- The runner was tried, and its registration was removed. -/
def Released (attempts : List Attempt) (r : Runner) : Prop :=
  ∃ a ∈ attempts, a.runner = r ∧ a.agreed = true

/-- The runner was tried, and the removal of its registration was refused or failed. -/
def Refused (attempts : List Attempt) (r : Runner) : Prop :=
  ∃ a ∈ attempts, a.runner = r ∧ a.agreed = false

/-- The runner is to go: it is over, or its registration was removed. -/
def Leaving (attempts : List Attempt) (r : Runner) : Prop :=
  r.isDeleting = false ∧ (r.IsOver ∨ Released attempts r)

/-- A runner is deleted in an attempt to reclaim it if its registration was removed. -/
theorem Attempt.Proper.deletedNames {key : String} {a : Attempt} (h : a.Proper key) :
    deletedNames a.calls = if a.agreed then [a.runner.name] else [] := by
  cases h <;> rfl

@[simp]
theorem deletedNames_append (t t' : List Exchange) :
    deletedNames (t ++ t') = deletedNames t ++ deletedNames t' :=
  List.filterMap_append

/-- Deletions delete the runners that they name. -/
theorem deletedNames_of_deletions {key : String} {ended : List Runner} {t : List Exchange}
    (h : t.map Exchange.call = ended.map fun r => .deleteRunner key r.name) :
    deletedNames t = ended.map Runner.name := by
  induction ended generalizing t with
  | nil =>
      obtain rfl := List.map_eq_nil_iff.1 h
      rfl
  | cons r rest ih =>
      obtain ⟨e, others, rfl, hcall, hothers⟩ := List.map_eq_cons_iff.1 h
      obtain ⟨c, answer⟩ := e
      obtain rfl : c = .deleteRunner key r.name := hcall
      exact congrArg (r.name :: ·) (ih hothers)

theorem deletedNames_attempts {key : String} {attempts : List Attempt}
    (h : ∀ a ∈ attempts, a.Proper key) :
    deletedNames (attempts.flatMap Attempt.calls) =
      ((attempts.filter Attempt.agreed).map Attempt.runner).map Runner.name := by
  induction attempts with
  | nil => rfl
  | cons a rest ih =>
      have hrest := ih fun b hb => h b (List.mem_cons_of_mem _ hb)
      rw [List.flatMap_cons, deletedNames_append, (h a List.mem_cons_self).deletedNames, hrest,
        List.filter_cons]
      split <;> rfl

theorem mem_eligibleRunners {runners : List Runner} {r : Runner} :
    r ∈ eligibleRunners runners ↔
      r ∈ runners ∧ r.isDeleting = false ∧ r.IsUp ∧ r.isRegistered = true ∧ r.hasJob = false := by
  rw [eligibleRunners, List.mem_filter, Fleet.mem_deletionOrder_iff, isReclaimable,
    Bool.and_eq_true, Bool.not_eq_true']
  tauto

section Drain

variable {key : String} {s after : Store} {cleaned : List Exchange} {attempts : List Attempt}
  {r : Runner}

theorem Draining.deletedNames (h : Draining key (s.runnersOf key) cleaned attempts) :
    deletedNames (cleaned ++ attempts.flatMap Attempt.calls) =
      ((fleetOf s key).cleanupCandidates ++
        (attempts.filter Attempt.agreed).map Attempt.runner).map Runner.name := by
  rw [deletedNames_append, deletedNames_of_deletions h.cleaning, deletedNames_attempts h.proper,
    List.map_append]
  rfl

/-- A runner that was tried is one of those that may be reclaimed. -/
theorem Draining.eligible (h : Draining key (s.runnersOf key) cleaned attempts) {a : Attempt}
    (ha : a ∈ attempts) : a.runner ∈ eligibleRunners (s.runnersOf key) :=
  h.all ▸ List.mem_map_of_mem ha

/-- No two of the runners that are deleted have the same name. -/
theorem Draining.names_nodup (h : Draining key (s.runnersOf key) cleaned attempts) (hs : s.Keyed) :
    (Reconcile.deletedNames (cleaned ++ attempts.flatMap Attempt.calls)).Nodup := by
  rw [h.deletedNames]
  refine (Fleet.actedOn_names_nodup (hs.names_nodup key)).sublist (List.Sublist.map _ ?_)
  refine (List.Sublist.refl _).append ?_
  have hagreed : ((attempts.filter Attempt.agreed).map Attempt.runner).Sublist
      (eligibleRunners (s.runnersOf key)) := h.all ▸ List.filter_sublist.map _
  exact hagreed.trans List.filter_sublist

/-- No runner is tried twice. -/
theorem Draining.attempts_nodup (h : Draining key (s.runnersOf key) cleaned attempts)
    (hs : s.Keyed) : (attempts.map Attempt.runner).Nodup := by
  rw [h.all]
  have hnames := (deletionOrder_names hs key).1
  exact (List.Nodup.of_map Runner.name hnames).sublist List.filter_sublist

/-- The runners that leave are those that a draining pass deletes. -/
theorem Draining.mem_deletedNames_iff (h : Draining key (s.runnersOf key) cleaned attempts)
    (hs : s.Keyed) (hr : r ∈ s.runnersOf key) :
    r.name ∈ Reconcile.deletedNames (cleaned ++ attempts.flatMap Attempt.calls) ↔
      Leaving attempts r := by
  have hsame : ∀ {r'}, r' ∈ s.runnersOf key → r'.name = r.name → r' = r :=
    fun hr' hname => List.inj_on_of_nodup_map (hs.names_nodup key) hr' hr hname
  rw [h.deletedNames, List.mem_map]
  constructor
  · rintro ⟨r', hr', hname⟩
    rcases List.mem_append.1 hr' with hcandidate | hreleased
    · obtain ⟨hmem, hstanding, hover⟩ := Fleet.mem_cleanupCandidates_iff.1 hcandidate
      obtain rfl := hsame hmem hname
      exact ⟨hstanding, Or.inl hover⟩
    · obtain ⟨a, ha, rfl⟩ := List.mem_map.1 hreleased
      obtain ⟨ha, hagreed⟩ := List.mem_filter.1 ha
      obtain ⟨hmem, hstanding, -⟩ := mem_eligibleRunners.1 (h.eligible ha)
      exact ⟨hsame hmem hname ▸ hstanding, Or.inr ⟨a, ha, hsame hmem hname, hagreed⟩⟩
  · rintro ⟨hstanding, hover | ⟨a, ha, rfl, hagreed⟩⟩
    · have hcandidate := Fleet.mem_cleanupCandidates_iff.2 ⟨hr, hstanding, hover⟩
      exact ⟨r, List.mem_append_left _ hcandidate, rfl⟩
    · have hreleased := List.mem_map_of_mem (f := Attempt.runner)
        (List.mem_filter.2 ⟨ha, hagreed⟩)
      exact ⟨a.runner, List.mem_append_right _ hreleased, rfl⟩

/-- A runner stays if it is yet to be done with its job, and is not registered, has a job, or was
refused. -/
theorem Draining.not_leaving_iff (h : Draining key (s.runnersOf key) cleaned attempts)
    (hs : s.Keyed) (hr : r ∈ s.runnersOf key) (hstanding : r.isDeleting = false) :
    ¬ Leaving attempts r ↔
      r.IsUp ∧ (r.isRegistered = false ∨ r.hasJob = true ∨ Refused attempts r) := by
  constructor
  · intro hstays
    obtain ⟨hnotOver, hnotReleased⟩ := not_or.1 fun hgoes => hstays ⟨hstanding, hgoes⟩
    have hup : r.IsUp := Decidable.not_not.1 fun hnot => hnotOver (r.isOver_iff_not_isUp.2 hnot)
    refine ⟨hup, ?_⟩
    by_cases hregistered : r.isRegistered = true
    · by_cases hjob : r.hasJob = true
      · exact Or.inr (Or.inl hjob)
      · -- The runner may be reclaimed, so it was tried.
        have heligible : r ∈ attempts.map Attempt.runner := by
          rw [h.all, mem_eligibleRunners]
          exact ⟨hr, hstanding, hup, hregistered, Bool.eq_false_iff.2 hjob⟩
        obtain ⟨a, ha, rfl⟩ := List.mem_map.1 heligible
        have hrefused : ¬ a.agreed = true := fun hagreed => hnotReleased ⟨a, ha, rfl, hagreed⟩
        exact Or.inr (Or.inr ⟨a, ha, rfl, Bool.eq_false_iff.2 hrefused⟩)
    · exact Or.inl (Bool.eq_false_iff.2 hregistered)
  · rintro ⟨hup, hwhy⟩ ⟨-, hover | ⟨a, ha, hrunner, hagreed⟩⟩
    · exact r.isOver_iff_not_isUp.1 hover hup
    · obtain ⟨-, -, -, hregistered, hjob⟩ := mem_eligibleRunners.1 (h.eligible ha)
      rw [hrunner] at hregistered hjob
      rcases hwhy with hunregistered | hworking | ⟨b, hb, hrunner', hrefused⟩
      · cases hregistered.symm.trans hunregistered
      · cases hworking.symm.trans hjob
      · -- A runner is tried only once.
        obtain rfl : a = b := List.inj_on_of_nodup_map (h.attempts_nodup hs) ha hb
          (hrunner.trans hrunner'.symm)
        cases hagreed.symm.trans hrefused

/-! ## What remains -/

/-- What a draining pass makes of a runner that is there afterwards: it was condemned before, it is
now because it left and a finalizer holds it, or it is waited for. -/
inductive Remains (attempts : List Attempt) (now : String → Timestamp) :
    Runner → Runner → Prop where
  | before {r : Runner} (deleting : r.isDeleting = true) : Remains attempts now r r
  | condemned {r : Runner} (standing : r.isDeleting = false)
      (done : r.IsOver ∨ Released attempts r) (held : r.metadata.finalizers ≠ []) :
      Remains attempts now r (condemned (now r.name) r)
  | waiting {r : Runner} (standing : r.isDeleting = false) (up : r.IsUp)
      (why : r.isRegistered = false ∨ r.hasJob = true ∨ Refused attempts r) :
      Remains attempts now r r

/-- A standing runner whose removal is requested stays if a finalizer holds it. -/
theorem removed?_of_standing (hstanding : r.isDeleting = false) (now : Timestamp) :
    removed? now r = if r.metadata.finalizers = [] then none else some (condemned now r) := by
  have hlive : (Stored.metadata r).isDeleting = false := hstanding
  rw [removed?, hlive, if_neg Bool.false_ne_true]
  simp only [List.isEmpty_iff]
  rfl

/-- All calls of a draining pass after its reads remove runners. -/
theorem Draining.removes (h : Draining key (s.runnersOf key) cleaned attempts) :
    ∀ e ∈ cleaned ++ attempts.flatMap Attempt.calls, e.call.Removes key := by
  intro e he
  rcases List.mem_append.1 he with he | he
  · exact removes_of_deletions h.cleaning e he
  · obtain ⟨a, ha, he⟩ := List.mem_flatMap.1 he
    exact (h.proper a ha).removes e he

/-- What lies where the runners of the set were before a draining pass; and no others have come. -/
theorem Draining.places (h : Draining key (s.runnersOf key) cleaned attempts) (hs : s.Keyed)
    (hc : Chronicle s (cleaned ++ attempts.flatMap Attempt.calls) after)
    (haccepted : ∀ e ∈ cleaned ++ attempts.flatMap Attempt.calls, e.accepted = true) :
    ∃ now : String → Timestamp,
      (∀ old ∈ s.runnersOf key, Leaving attempts old →
        after.runners.get? (runnerKey key old.name) = removed? (now old.name) old) ∧
      (∀ old ∈ s.runnersOf key, ¬ Leaving attempts old →
        after.runners.get? (runnerKey key old.name) = some old) ∧
      ∀ r ∈ after.runnersOf key, ∃ old ∈ s.runnersOf key, old.name = r.name := by
  obtain ⟨now, hdeleted, hothers⟩ := exists_removals hc h.removes haccepted (h.names_nodup hs)
  refine ⟨now, ?_, ?_, ?_⟩
  · intro old hold hleaves
    rw [hdeleted old.name ((h.mem_deletedNames_iff hs hold).2 hleaves),
      (hs.mem_runnersOf.1 hold).2, Option.bind_some]
  · intro old hold hstays
    rw [hothers (runnerKey key old.name) fun name hname hkey => ?_, (hs.mem_runnersOf.1 hold).2]
    exact hstays ((h.mem_deletedNames_iff hs hold).1 (runnerKey_inj hkey ▸ hname))
  · intro r hr
    obtain ⟨howner, hget⟩ := (hc.keyed hs).mem_runnersOf.1 hr
    by_cases hname : r.name ∈ Reconcile.deletedNames (cleaned ++ attempts.flatMap Attempt.calls)
    · rw [hdeleted r.name hname] at hget
      obtain ⟨old, hold, hremoved⟩ := Option.bind_eq_some_iff.1 hget
      have hakin := akin_of_removed? hremoved
      have hmem := hs.mem_runnersOf.2 ⟨hakin.owner ▸ howner, hakin.name ▸ hold⟩
      exact ⟨old, hmem, hakin.name.symm⟩
    · rw [hothers (runnerKey key r.name) fun name hmem hkey =>
        hname (runnerKey_inj hkey ▸ hmem)] at hget
      exact ⟨r, hs.mem_runnersOf.2 ⟨howner, hget⟩, rfl⟩

/-- The runners of the set after a draining pass are what remains of those before it. -/
theorem Draining.mem_runnersOf (h : Draining key (s.runnersOf key) cleaned attempts) (hs : s.Keyed)
    (hc : Chronicle s (cleaned ++ attempts.flatMap Attempt.calls) after)
    (haccepted : ∀ e ∈ cleaned ++ attempts.flatMap Attempt.calls, e.accepted = true) :
    ∃ now, ∀ r, r ∈ after.runnersOf key ↔
      ∃ old ∈ s.runnersOf key, Remains attempts now old r := by
  obtain ⟨now, hleaving, hstaying, hknown⟩ := h.places hs hc haccepted
  have hafter := hc.keyed hs
  refine ⟨now, fun r => ⟨fun hr => ?_, ?_⟩⟩
  · obtain ⟨old, hold, hname⟩ := hknown r hr
    have hget := (hafter.mem_runnersOf.1 hr).2
    rw [← hname] at hget
    refine ⟨old, hold, ?_⟩
    by_cases hleaves : Leaving attempts old
    · rw [hleaving old hold hleaves, removed?_of_standing hleaves.1] at hget
      split at hget
      · cases hget
      · rename_i hheld
        exact Option.some.inj hget ▸ .condemned hleaves.1 hleaves.2 hheld
    · rw [hstaying old hold hleaves] at hget
      obtain rfl := Option.some.inj hget
      cases hdeleting : old.isDeleting with
      | true => exact .before hdeleting
      | false =>
          obtain ⟨hup, hwhy⟩ := (h.not_leaving_iff hs hold hdeleting).1 hleaves
          exact .waiting hdeleting hup hwhy
  · rintro ⟨old, hold, hremains⟩
    have howner := (hs.mem_runnersOf.1 hold).1
    cases hremains with
    | before deleting =>
        have hstays : ¬ Leaving attempts r :=
          fun hleaves => Bool.false_ne_true (hleaves.1.symm.trans deleting)
        exact hafter.mem_runnersOf.2 ⟨howner, hstaying r hold hstays⟩
    | condemned standing done held =>
        have hget := hleaving old hold ⟨standing, done⟩
        rw [removed?_of_standing standing, if_neg held] at hget
        exact hafter.mem_runnersOf.2 ⟨howner, hget⟩
    | waiting standing up why =>
        have hstays := (h.not_leaving_iff hs hold standing).2 ⟨up, why⟩
        exact hafter.mem_runnersOf.2 ⟨howner, hstaying r hold hstays⟩

end Drain

/-! ## The release -/

/-- A set that is being removed and whose finalizers are written leaves the store exactly if there
are none of them. -/
theorem stored_of_setFinalizers {s after : Store} {set : RunnerSet} {finalizers : List String}
    {answer : Except Store.Error Unit} (hset : s.getSet set.key = some set)
    (hdeleting : set.metadata.isDeleting = true)
    (h : (Call.setFinalizers set.key finalizers).Answered s answer after)
    (haccepted : Exchange.accepted ⟨.setFinalizers set.key finalizers, answer⟩ = true) :
    after.runners = s.runners ∧ (∀ k, k ≠ set.key → after.getSet k = s.getSet k) ∧
      after.getSet set.key = if finalizers = [] then none else some
        { set with metadata := { set.metadata with
            finalizers := finalizers
            resourceVersion := set.metadata.resourceVersion + 1 } } := by
  have hkeeps : (Call.setFinalizers set.key finalizers).KeepsRunners := trivial
  refine ⟨runners_of_keepsRunners hkeeps h, ?_⟩
  rcases h with ⟨service, stamp, -, rfl⟩ | ⟨e, hfail, -⟩
  · have hnew : ∀ k, (s.perform stamp (.setSetFinalizers set.key finalizers)).store.getSet k =
        if k = set.key then (s.getSet k).bind (changed? fun set =>
          { set with metadata := { set.metadata with finalizers } }) else s.getSet k :=
      fun k => getSet_perform s stamp _ k
    constructor
    · intro k hk
      exact (hnew k).trans (if_neg hk)
    · refine (hnew set.key).trans ?_
      have hrequested : (Stored.metadata (mapMetadata
          { set with metadata := { set.metadata with finalizers } }
          fun m => { m with resourceVersion := m.resourceVersion + 1 })).isDeleting = true :=
        hdeleting
      rw [if_pos rfl, hset, Option.bind_some, changed?, hrequested, Bool.true_and]
      simp only [List.isEmpty_iff]
      rfl
  · cases Option.some.inj hfail
    cases haccepted

/-! ## The pass -/

/-- A pass over a set that is being removed and that it holds, while nobody else writes to the store
and the calls to it go well, whatever the Actions service answers.

If the set has runners, those that are over are deleted, and the idle ones for which the service
agrees to remove the registration.  The runners afterwards are those whose removal was requested
before, those that were deleted and are held by a finalizer, and those that are pending or running
and not registered, have a job, or were refused.  No runner is created, and the sets are as they
were.

If the set has no runners, the controller's finalizer is taken off it, the others stay in their
order, and the set leaves the store exactly if there are no others. -/
theorem draining_leaves_what_remains {suffix : Nat → String} {key : String} {s after : Store}
    {set : RunnerSet} {t : List Exchange} {result : Except Error Unit} (hreached : s.Reachable)
    (hset : s.getSet key = some set) (hdeleting : set.metadata.isDeleting = true)
    (hheld : set.hasFinalizer = true) (hpass : (pass suffix key).Leads t (done result))
    (hc : Chronicle s t after) (haccepted : ∀ e ∈ t, e.accepted = true) :
    (s.runnersOf key ≠ [] →
      (∃ cleaned attempts now,
        t = ⟨.getSet key, .ok (some set)⟩ :: ⟨.listRunners key, .ok (s.runnersOf key)⟩ ::
          (cleaned ++ attempts.flatMap Attempt.calls) ∧
        Draining key (s.runnersOf key) cleaned attempts ∧
        ∀ r, r ∈ after.runnersOf key ↔ ∃ old ∈ s.runnersOf key, Remains attempts now old r) ∧
      (∀ e ∈ t, ∀ r, e.call ≠ .createRunner r) ∧
      ∀ k, after.getSet k = s.getSet k) ∧
    (s.runnersOf key = [] →
      let others := set.metadata.finalizers.filter (· ≠ RunnerSet.finalizer)
      after.runners = s.runners ∧ (∀ k, k ≠ key → after.getSet k = s.getSet k) ∧
      after.getSet key = if others = [] then none else some
        { set with metadata := { set.metadata with
            finalizers := others
            resourceVersion := set.metadata.resourceVersion + 1 } }) := by
  obtain rfl : set.key = key := hreached.keyed.set hset
  rcases opening_of_chronicle hset hheld hpass hc with
    ⟨-, ⟨e, he, hfailed⟩, -⟩ | ⟨acts, rfl, hproceed, hrest⟩
  · cases hfailed.symm.trans (haccepted e he)
  · have hlast : ∀ e ∈ acts, e.accepted = true :=
      fun e he => haccepted e (List.mem_cons_of_mem _ (List.mem_cons_of_mem _ he))
    cases thorough_proceed hproceed with
    | live active => cases active.symm.trans hdeleting
    | @draining cleaned attempts _ owns hdrains =>
        refine ⟨fun _ => ⟨?_, ?_, ?_⟩, fun hnone => absurd hnone owns⟩
        · obtain ⟨now, hremains⟩ := hdrains.mem_runnersOf hreached.keyed hrest hlast
          exact ⟨cleaned, attempts, now, rfl, hdrains, hremains⟩
        · intro e he r hcreates
          rcases List.mem_cons.1 he with rfl | he
          · cases hcreates
          · rcases List.mem_cons.1 he with rfl | he
            · cases hcreates
            · have hremoves := hdrains.removes e he
              rw [hcreates] at hremoves
              exact hremoves
        · intro k
          exact hrest.getSet_eq (fun e he => (hdrains.removes e he).changes.keepsSets) k
    | removable _ vacant answer =>
        refine ⟨fun howns => absurd vacant howns, fun _ => ?_⟩
        have haccepted := hlast _ List.mem_cons_self
        exact stored_of_setFinalizers hset hdeleting (chronicle_singleton.1 hrest) haccepted

/-! ## Examples -/

/-- A set that is being removed, with these finalizers, after these operations on its runners. -/
def removing (finalizers : List String) (ops : List Operation) : Environment where
  store := Store.ofOperations <|
    [.createSet (RunnerSet.create "ns" "set" { image := "image" }),
      .setSetFinalizers "ns/set" finalizers] ++ ops ++ [.deleteSet "ns/set"]
  service := fun runnerId =>
    if runnerId = 5 then .error (.api 400 (some Actions.jobStillRunning) "busy") else .ok ()
  stamps := fun _ => Stamp.sample

/-- One runner has succeeded and is held by a finalizer, one has failed and is not, the removal of
one was requested before, and one is about to take a job. -/
def mixed : Environment :=
  removing [RunnerSet.finalizer] <|
    (["busy", "failed", "held", "old"].map fun suffix =>
      .createRunner (newRunner (RunnerSet.create "ns" "set" { image := "image" }) suffix)) ++
    [.updateRunnerStatus "ns/set" "set-runner-busy" { phase := .running, runnerId := 5 },
      .updateRunnerStatus "ns/set" "set-runner-failed" { phase := .failed },
      .setRunnerFinalizers "ns/set" "set-runner-held" ["logs"],
      .updateRunnerStatus "ns/set" "set-runner-held" { phase := .succeeded },
      .setRunnerFinalizers "ns/set" "set-runner-old" ["logs"],
      .deleteRunner "ns/set" "set-runner-old"]

/-- There are no runners, and somebody else holds the set too. -/
def vacated : Environment :=
  removing [RunnerSet.finalizer, "backup", RunnerSet.finalizer] []

theorem exists_removing_set : ∀ env ∈ [mixed, vacated], ∃ set,
    env.store.getSet "ns/set" = some set ∧ set.metadata.isDeleting = true ∧
      set.hasFinalizer = true := by
  have hsets : ∀ env ∈ [mixed, vacated], (env.store.getSet "ns/set").any (fun set =>
      decide (set.metadata.isDeleting = true ∧ set.hasFinalizer = true)) = true := by
    decide +kernel
  intro env henv
  obtain ⟨set, hset, hfacts⟩ := (Option.any_eq_true _ _).1 (hsets env henv)
  exact ⟨set, hset, of_decide_eq_true hfacts⟩

/-- The failed runner is gone, the one that is held was condemned, and the other two are as they
were.  The vacated set keeps the finalizer of somebody else. -/
theorem mixed_and_vacated :
    (∃ attempts now, ∀ r,
      r ∈ ((pass toString "ns/set").run Environment.answer mixed).2.store.runnersOf "ns/set" ↔
        ∃ old ∈ mixed.store.runnersOf "ns/set", Remains attempts now old r) ∧
    (((pass toString "ns/set").run Environment.answer mixed).2.store.runnersOf "ns/set").map
        (fun r => (r.name, r.isDeleting)) =
      [("set-runner-busy", false), ("set-runner-held", true), ("set-runner-old", true)] ∧
    ∃ new, ((pass toString "ns/set").run Environment.answer vacated).2.store.getSet "ns/set" =
      some new ∧ new.metadata.finalizers = ["backup"] := by
  have haccepted : ∀ env ∈ [mixed, vacated],
      ∀ e ∈ (pass toString "ns/set").exchanges Environment.answer env, e.accepted = true := by
    decide +kernel
  refine ⟨?_, by decide +kernel, ?_⟩
  · obtain ⟨set, hset, hdeleting, hheld⟩ := exists_removing_set mixed (by simp)
    have howns : mixed.store.runnersOf "ns/set" ≠ [] := by decide +kernel
    have hreached : mixed.store.Reachable := reachable_ofOperations _
    have hpass := leads_exchanges Environment.answer (pass toString "ns/set") mixed
    have hc := chronicle_exchanges (pass toString "ns/set") mixed
    obtain ⟨⟨_, attempts, now, -, -, hremains⟩, -⟩ := (draining_leaves_what_remains hreached hset
      hdeleting hheld hpass hc (haccepted mixed (by simp))).1 howns
    exact ⟨attempts, now, hremains⟩
  · obtain ⟨set, hset, hdeleting, hheld⟩ := exists_removing_set vacated (by simp)
    have hnone : vacated.store.runnersOf "ns/set" = [] := by decide +kernel
    have hothers : (vacated.store.getSet "ns/set").map (fun set =>
        set.metadata.finalizers.filter (· ≠ RunnerSet.finalizer)) = some ["backup"] := by
      decide +kernel
    rw [hset, Option.map_some] at hothers
    have hreached : vacated.store.Reachable := reachable_ofOperations _
    have hpass := leads_exchanges Environment.answer (pass toString "ns/set") vacated
    have hc := chronicle_exchanges (pass toString "ns/set") vacated
    obtain ⟨-, -, hstored⟩ := (draining_leaves_what_remains hreached hset hdeleting hheld hpass hc
      (haccepted vacated (by simp))).2 hnone
    rw [Option.some.inj hothers, if_neg (by simp)] at hstored
    exact ⟨_, hstored, rfl⟩

end Reconcile
end RunnerFleet
