import RunnerFleet.Proofs.Reconcile.Chronicle
import RunnerFleet.Proofs.Reconcile.Settling

/-!
# Which counts a pass leaves on its set

The counts of a set are to be those of its fleet as a pass leaves it.  A pass that acted lists the
runners again before it counts them, and it writes the counts only if they are not those that the
set had when it was read.  Nobody else writes to the store meanwhile, but any call may fail.

Main results:

- `runnersOf_of_converging`: the runners that a pass counts are those that are stored by then.
- `status_counts_fleet`: which counts are written, and which are stored after a pass that succeeds.
- `status_may_be_stale`: where a listing fails, or a write is answered that the set is gone, the
  counts may be others.
-/

namespace RunnerFleet
namespace Reconcile

open Program Store

/-- One call is one exchange. -/
theorem eq_singleton_of_calls {t : List Exchange} {c : Call} (h : t.map Exchange.call = [c]) :
    ∃ answer : c.Answer, t = [⟨c, answer⟩] := by
  obtain ⟨e, rfl, rfl⟩ := List.map_eq_singleton_iff.1 h
  exact ⟨e.answer, rfl⟩

/-- What comes after the first of two parts lies in the second. -/
theorem exists_split_right {α : Type} {xs ys before rest : List α} {e : α}
    (h : xs ++ ys = before ++ e :: rest) (hnot : e ∉ xs) :
    ∃ more, before = xs ++ more ∧ ys = more ++ e :: rest := by
  rcases List.append_eq_append_iff.1 h with ⟨more, hbefore, hys⟩ | ⟨more, hxs, hrest⟩
  · exact ⟨more, hbefore, hys⟩
  · cases more with
    | nil => exact ⟨[], by simp [hxs], by simp [hrest]⟩
    | cons first more =>
        obtain ⟨rfl, -⟩ := List.cons.inj hrest
        exact absurd (hxs ▸ List.mem_append_right _ List.mem_cons_self) hnot

section Steps

variable {suffix : Nat → String} {set : RunnerSet} {runners : List Runner} {s mid : Store}
  {cleaned closed reviewed written : List Exchange}

/-- Before its status step a pass does not write to its set. -/
theorem Converging.keepsSets (h : Converging suffix set runners cleaned closed reviewed written) :
    ∀ e ∈ cleaned ++ closed ++ reviewed, e.call.KeepsSets := by
  intro e he
  rcases List.mem_append.1 he with he | he
  · rcases List.mem_append.1 he with he | he
    · exact (removes_of_deletions h.cleaning e he).changes.keepsSets
    · exact (h.closing.changes e he).keepsSets
  · have hcall := call_mem_of_calls h.reviewing he
    split at hcall
    · rw [List.mem_singleton.1 hcall]
      trivial
    · exact absurd hcall List.not_mem_nil

/-- The runners that a pass counts are those that are stored when it counts them, unless they could
not be listed again. -/
theorem runnersOf_of_converging
    (h : Converging suffix set runners cleaned closed reviewed written)
    (hrunners : s.runnersOf set.key = runners)
    (hc : Chronicle s (cleaned ++ closed ++ reviewed) mid)
    (hlisted : ∀ k e, ⟨.listRunners k, .error e⟩ ∉ reviewed) :
    mid.runnersOf set.key = (firstListing reviewed).getD runners := by
  have hreviewing := h.reviewing
  by_cases hacts : ActsOn set runners
  · rw [if_pos hacts] at hreviewing
    obtain ⟨answer, rfl⟩ := eq_singleton_of_calls hreviewing
    obtain ⟨first, -, hlast⟩ := chronicle_append.1 hc
    have hanswered := chronicle_singleton.1 hlast
    rcases answer with e | listed
    · exact absurd List.mem_cons_self (hlisted set.key e)
    · obtain ⟨rfl, hstored⟩ := hanswered.listRunners
      exact hstored
  · -- Nothing was done, and the runners are those that were listed at first.
    rw [if_neg hacts] at hreviewing
    obtain rfl := List.map_eq_nil_iff.1 hreviewing
    have hnone : cleaned ++ closed = [] := Classical.byContradiction fun hne => hacts (h.acts hne)
    rw [hnone] at hc
    rw [chronicle_nil.1 hc]
    exact hrunners

/-- A write of counts is the last call of a pass. -/
theorem Converging.written_of_split
    (h : Converging suffix set runners cleaned closed reviewed written)
    {before rest : List Exchange} {k : String} {status : RunnerSetStatus}
    {answer : Except Store.Error Unit}
    (hsplit : cleaned ++ closed ++ reviewed ++ written =
      before ++ ⟨.updateStatus k status, answer⟩ :: rest) :
    before = cleaned ++ closed ++ reviewed ∧ k = set.key ∧
      status = (Fleet.classify ((firstListing reviewed).getD runners)).status := by
  have hnot : ⟨.updateStatus k status, answer⟩ ∉ cleaned ++ closed ++ reviewed :=
    fun hmem => h.keepsSets _ hmem
  obtain ⟨more, rfl, hwritten⟩ := exists_split_right hsplit hnot
  have hwriting := h.writing
  split at hwriting
  · rw [List.map_eq_nil_iff.1 hwriting] at hwritten
    simp at hwritten
  · obtain ⟨answer', rfl⟩ := eq_singleton_of_calls hwriting
    rw [List.singleton_eq_append_iff] at hwritten
    rcases hwritten with ⟨rfl, hlast⟩ | ⟨-, hlast⟩
    · obtain ⟨hcall, -⟩ := List.cons.inj hlast
      obtain ⟨hkey, hstatus⟩ := Call.updateStatus.inj (congrArg Exchange.call hcall)
      exact ⟨List.append_nil _, hkey, hstatus⟩
    · cases hlast

/-- After a status write that is carried out, the set has these counts and its runners are the
same. -/
theorem stored_of_updateStatus {key : String} {status : RunnerSetStatus} {after : Store}
    (hset : mid.getSet key = some set) (hlive : set.metadata.isDeleting = false)
    (h : (Call.updateStatus key status).Answered mid (.ok ()) after) :
    (∃ new, after.getSet key = some new ∧ new.status = status) ∧
      after.runnersOf key = mid.runnersOf key := by
  have hkeeps : (Call.updateStatus key status).KeepsRunners := trivial
  have hrunners : after.runners = mid.runners := runners_of_keepsRunners hkeeps h
  refine ⟨?_, by rw [runnersOf, runnersOf, hrunners]⟩
  rcases h with ⟨service, stamp, -, rfl⟩ | ⟨e, hfail, -⟩
  · have hnew : ((mid.perform stamp (.updateSetStatus key status)).store.getSet key) =
        changed? (fun set => { set with status }) set := by
      rw [getSet_perform, Operation.onSet, if_pos rfl, hset]
      rfl
    refine ⟨_, hnew.trans (changed?_of_live hlive), rfl⟩
  · cases hfail

end Steps

/-! ## The pass -/

/-- A pass over a live set that it holds, while nobody else writes to the store, whichever calls
fail and whatever the Actions service answers: if it asks for a write of counts, and no listing
failed before, these are the counts of the runners that are stored for the set by then.  If it
succeeds, and its write of counts, if it made one, was not answered that the set is gone, the counts
that are stored afterwards are those of the runners that are stored, whether or not it made a
write. -/
theorem status_counts_fleet {suffix : Nat → String} {key : String} {s after : Store}
    {set : RunnerSet} {t : List Exchange} {result : Except Error Unit} (hreached : s.Reachable)
    (hset : s.getSet key = some set) (hlive : set.metadata.isDeleting = false)
    (hheld : set.hasFinalizer = true) (hpass : (pass suffix key).Leads t (done result))
    (hc : Chronicle s t after) :
    (∀ before rest k status answer mid, t = before ++ ⟨.updateStatus k status, answer⟩ :: rest →
      (∀ k e, ⟨.listRunners k, .error e⟩ ∉ before) → Chronicle s before mid →
      k = key ∧ status = (fleetOf mid key).status) ∧
    (result = .ok () →
      (∀ k status e, ⟨.updateStatus k status, .error e⟩ ∈ t → e.isNotFound = false) →
      ∃ new, after.getSet key = some new ∧ new.status = (fleetOf after key).status) := by
  obtain rfl : set.key = key := hreached.keyed.set hset
  rcases opening_of_chronicle hset hheld hpass hc with
    ⟨⟨error, rfl⟩, -, hreads⟩ | ⟨acts, rfl, hproceed, hrest⟩
  · refine ⟨?_, nofun⟩
    intro before rest k status answer mid hsplit
    have hread := hreads ⟨.updateStatus k status, answer⟩ (by rw [hsplit]; simp)
    cases hread
  · obtain ⟨cleaned, closed, reviewed, written, rfl, hsteps⟩ :
        ∃ cleaned closed reviewed written, acts = cleaned ++ closed ++ reviewed ++ written ∧
          Converging suffix set (s.runnersOf set.key) cleaned closed reviewed written := by
      cases thorough_proceed hproceed with
      | live _ steps => exact ⟨_, _, _, _, rfl, steps⟩
      | draining deleting => cases deleting.symm.trans hlive
      | removable deleting => cases deleting.symm.trans hlive
    constructor
    · intro before rest k status answer mid hsplit hlisted hbefore
      change [_, _] ++ _ = _ at hsplit
      obtain ⟨more, rfl, hlater⟩ := exists_split_right hsplit (by simp)
      obtain ⟨rfl, rfl, rfl⟩ := hsteps.written_of_split hlater
      obtain ⟨first, hfirst, hmore⟩ := chronicle_append.1 hbefore
      obtain rfl := hfirst.eq_of_reads (by simp [Call.isWrite])
      refine ⟨rfl, ?_⟩
      rw [fleetOf, runnersOf_of_converging hsteps rfl hmore]
      intro k e he
      exact hlisted k e (by simp [he])
    · intro hok hfound
      have htolerated := (collects_pass hpass).result.1.1 hok
      obtain ⟨mid, hearly, hlate⟩ := chronicle_append.1 hrest
      have hkept : mid.getSet set.key = some set :=
        (hearly.getSet_eq hsteps.keepsSets set.key).trans hset
      have hstored : mid.runnersOf set.key = _ := runnersOf_of_converging hsteps rfl hearly <| by
        intro k e he
        have hlisting := htolerated ⟨.listRunners k, .error e⟩ (by simp [he])
        cases hlisting
      have hwriting := hsteps.writing
      rw [← hstored] at hwriting
      by_cases hsame : set.status = (Fleet.classify (mid.runnersOf set.key)).status
      · rw [if_pos hsame, List.map_eq_nil_iff] at hwriting
        rw [hwriting] at hlate
        obtain rfl := chronicle_nil.1 hlate
        exact ⟨set, hkept, hsame⟩
      · rw [if_neg hsame] at hwriting
        obtain ⟨answer, rfl⟩ := eq_singleton_of_calls hwriting
        have hanswered := chronicle_singleton.1 hlate
        rcases answer with e | _
        · have hthere := hfound set.key (Fleet.classify (mid.runnersOf set.key)).status e (by simp)
          have hgone := htolerated
            ⟨.updateStatus set.key (Fleet.classify (mid.runnersOf set.key)).status, .error e⟩
            (by simp)
          cases hgone.symm.trans hthere
        · obtain ⟨⟨new, hnew, hstatus⟩, hrunners⟩ := stored_of_updateStatus hkept hlive hanswered
          refine ⟨new, hnew, ?_⟩
          rw [fleetOf, hrunners]
          exact hstatus

/-! ## Examples -/

/-- The key and the counts of a call that asks for a write of counts. -/
def Exchange.counts? : Exchange → Option (String × RunnerSetStatus)
  | ⟨.updateStatus key status, _⟩ => some (key, status)
  | _ => none

/-- The last call asks for a write of counts. -/
theorem exists_last_write {t : List Exchange} {key : String} {status : RunnerSetStatus}
    (h : t.getLast?.bind Exchange.counts? = some (key, status)) :
    ∃ before answer, t = before ++ [⟨.updateStatus key status, answer⟩] := by
  obtain ⟨⟨c, answer⟩, hlast, hcounts⟩ := Option.bind_eq_some_iff.1 h
  obtain ⟨before, rfl⟩ := List.getLast?_eq_some_iff.1 hlast
  cases c with
  | updateStatus k status' =>
      cases hcounts
      exact ⟨before, answer, rfl⟩
  | _ => cases hcounts

/-- The runners are the same before and after a last write of counts. -/
theorem exists_before_write {t before : List Exchange} {key : String} {status : RunnerSetStatus}
    {answer : Except Store.Error Unit} {s after : Store} (hc : Chronicle s t after)
    (hlast : t = before ++ [⟨.updateStatus key status, answer⟩]) :
    ∃ mid, Chronicle s before mid ∧ fleetOf mid key = fleetOf after key := by
  rw [hlast] at hc
  obtain ⟨mid, hbefore, hwrite⟩ := chronicle_append.1 hc
  have hkeeps : (Call.updateStatus key status).KeepsRunners := trivial
  have hrunners : after.runners = mid.runners :=
    runners_of_keepsRunners hkeeps (chronicle_singleton.1 hwrite)
  exact ⟨mid, hbefore, by rw [fleetOf, fleetOf, runnersOf, runnersOf, hrunners]⟩

/-- In the shorthanded environment the last call writes the counts of the runner that is left. -/
theorem status_counts_shorthanded :
    ∃ before answer mid new,
      (pass toString "ns/set").exchanges Environment.answer shorthanded =
        before ++ [⟨.updateStatus "ns/set" (fleetOf mid "ns/set").status, answer⟩] ∧
      Chronicle shorthanded.store before mid ∧
      ((pass toString "ns/set").run Environment.answer shorthanded).2.store.getSet "ns/set" =
        some new ∧
      new.status = (fleetOf ((pass toString "ns/set").run Environment.answer shorthanded).2.store
        "ns/set").status := by
  obtain ⟨set, hset, hlive, hheld, -⟩ := exists_shorthanded_set
  have hc := chronicle_exchanges (pass toString "ns/set") shorthanded
  have hleads := leads_exchanges Environment.answer (pass toString "ns/set") shorthanded
  obtain ⟨hwritten, hstored⟩ :=
    status_counts_fleet (Store.reachable_ofOperations _) hset hlive hheld hleads hc
  have hsucceeded : ∀ e ∈ (pass toString "ns/set").exchanges Environment.answer shorthanded,
      e.succeeded = true := by decide +kernel
  have htolerated : ∀ e ∈ (pass toString "ns/set").exchanges Environment.answer shorthanded,
      e.isTolerated = true := by decide +kernel
  have hwrite : ((pass toString "ns/set").exchanges Environment.answer shorthanded).getLast?.bind
      Exchange.counts? = some ("ns/set", ⟨1, 0, 1, 0⟩) := by decide +kernel
  obtain ⟨before, answer, hlast⟩ := exists_last_write hwrite
  obtain ⟨mid, hbefore, -⟩ := exists_before_write hc hlast
  obtain ⟨-, hstatus⟩ := hwritten before [] "ns/set" _ answer mid hlast
    (fun k e he => by cases hsucceeded _ (hlast ▸ List.mem_append_left _ he)) hbefore
  obtain ⟨new, hnew, hcounts⟩ := hstored ((collects_pass hleads).result.1.2 htolerated)
    fun k status e he => by cases hsucceeded _ he
  exact ⟨before, answer, mid, new, hstatus ▸ hlast, hbefore, hnew, hcounts⟩

/-- A set with one runner, whose counts were not written yet. -/
def uncounted (runner : RunnerStatus) (faults : FaultPlan) : Environment where
  store := Store.ofOperations
    [.createSet (RunnerSet.create "ns" "set" { image := "image" }),
      .setSetFinalizers "ns/set" [RunnerSet.finalizer],
      .createRunner (newRunner (RunnerSet.create "ns" "set" { image := "image" }) "a"),
      .updateRunnerStatus "ns/set" "set-runner-a" runner,
      .patchSpec "ns/set" 1 5]
  service := fun _ => .ok ()
  faults := faults
  stamps := fun _ => Stamp.sample

/-- The runner has failed, and the second listing of the runners fails. -/
def unlisted : Environment :=
  uncounted { phase := .failed } [⟨.listRunners, some [2], ⟨.read, "broken"⟩, 0⟩]

/-- The runner is pending, and the write of counts is answered that the set is gone. -/
def unheard : Environment :=
  uncounted {} [⟨.updateStatus, none, .notFound "ns/set", 0⟩]

/-- Where the runners of a live set cannot be listed again, the counts of before the pass are
written; and a pass whose write is answered that the set is gone succeeds, and leaves the counts as
they were. -/
theorem status_may_be_stale :
    (∀ env ∈ [unlisted, unheard], (env.store.getSet "ns/set").any fun set =>
      !set.metadata.isDeleting && set.hasFinalizer) ∧
    (∃ before answer mid,
      (pass toString "ns/set").exchanges Environment.answer unlisted =
        before ++ [⟨.updateStatus "ns/set" ⟨1, 0, 0, 1⟩, answer⟩] ∧
      Chronicle unlisted.store before mid ∧ (fleetOf mid "ns/set").status = ⟨0, 0, 0, 0⟩) ∧
    ((pass toString "ns/set").run Environment.answer unheard).1 = .ok () ∧
    (((pass toString "ns/set").run Environment.answer unheard).2.store.getSet "ns/set").map
      (·.status) = some ⟨0, 0, 0, 0⟩ ∧
    (fleetOf ((pass toString "ns/set").run Environment.answer unheard).2.store "ns/set").status =
      ⟨1, 1, 0, 0⟩ := by
  refine ⟨by decide +kernel, ?_, ?_, by decide +kernel, by decide +kernel⟩
  · have hc := chronicle_exchanges (pass toString "ns/set") unlisted
    have hwrite : ((pass toString "ns/set").exchanges Environment.answer unlisted).getLast?.bind
        Exchange.counts? = some ("ns/set", ⟨1, 0, 0, 1⟩) := by decide +kernel
    obtain ⟨before, answer, hlast⟩ := exists_last_write hwrite
    obtain ⟨mid, hbefore, hfleet⟩ := exists_before_write hc hlast
    refine ⟨before, answer, mid, hlast, hbefore, ?_⟩
    rw [hfleet]
    decide +kernel
  · have htolerated : ∀ e ∈ (pass toString "ns/set").exchanges Environment.answer unheard,
        e.isTolerated = true := by decide +kernel
    exact (collects_pass (leads_exchanges _ _ _)).result.1.2 htolerated

end Reconcile
end RunnerFleet
