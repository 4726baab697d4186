import RunnerFleet.Fleet
import RunnerFleet.Proofs.Reconcile.Answers
import RunnerFleet.Proofs.Store.Ownership

/-!
# Stores that differ in what was generated

If the same calls are carried out at other times, new runners get other identifiers and creation
times, and removals are requested at other times; nothing else is different.  Two such stores are
twins.  Calls are answered alike by twins: what differs is not what a pass goes by.

Main results:

- `Twin.removed`, `Twin.stored`: what writes make of twins.
- `TwinsOn.counts_eq`: the runners of a set are counted the same in twins.
- `look_of_within`: a call changes nothing outside the region that it keeps to.
- `twinAt_perform`, `alike_perform`: twins answer the calls of a region alike, and stay twins.
-/

namespace RunnerFleet

namespace Store

/-! ## Twins -/

/-- What lies under one key of the runners in two stores is the same, but for what was generated: the
time at which its removal was requested, or the identifier and the time that it was created with. -/
inductive Twin : Option Runner → Option Runner → Prop where
  | same (found : Option Runner) : Twin found found
  | condemned (r : Runner) (now now' : Timestamp) (hfirst : r.metadata.deletion = none) :
      Twin (some (condemned now r)) (some (condemned now' r))
  | created (r : Runner) (stamp stamp' : Stamp) (hfree : r.metadata.finalizers = []) :
      Twin (some (created stamp r)) (some (created stamp' r))

/-- What lies at a place is the same in two stores, but for what was generated for runners. -/
def TwinAt (s t : Store) : Place → Prop
  | .sets key => s.getSet key = t.getSet key
  | .runners key => Twin (s.runners.get? key) (t.runners.get? key)

/-- Two stores hold the same in a region. -/
def AgreeOn (region : Place → Prop) (s t : Store) : Prop :=
  ∀ place, region place → s.look place = t.look place

/-- Two stores hold the same in a region, but for what was generated. -/
def TwinsOn (region : Place → Prop) (s t : Store) : Prop :=
  ∀ place, region place → TwinAt s t place

theorem getSet_eq_of_look {s t : Store} {key : String}
    (h : s.look (.sets key) = t.look (.sets key)) : s.getSet key = t.getSet key :=
  Option.map_injective (fun _ _ => Object.set.inj) h

theorem runner_eq_of_look {s t : Store} {key : String}
    (h : s.look (.runners key) = t.look (.runners key)) :
    s.runners.get? key = t.runners.get? key :=
  Option.map_injective (fun _ _ => Object.runner.inj) h

/-- What is the same has twins in the same stores. -/
theorem TwinAt.of_look {s s' t t' : Store} {place : Place} (h : TwinAt s t place)
    (hs : s'.look place = s.look place) (ht : t'.look place = t.look place) :
    TwinAt s' t' place := by
  cases place with
  | sets key =>
      have hs := getSet_eq_of_look hs
      have ht := getSet_eq_of_look ht
      simpa only [TwinAt, hs, ht] using h
  | runners key =>
      have hs := runner_eq_of_look hs
      have ht := runner_eq_of_look ht
      simpa only [TwinAt, hs, ht] using h

theorem TwinAt.refl (s : Store) (place : Place) : TwinAt s s place := by
  cases place with
  | sets key => rfl
  | runners key => exact .same _

theorem AgreeOn.twinsOn {region : Place → Prop} {s t : Store} (h : AgreeOn region s t) :
    TwinsOn region s t :=
  fun place hplace => (TwinAt.refl s place).of_look rfl (h place hplace).symm

theorem TwinsOn.of_agreeOn {region : Place → Prop} {s s' t : Store} (h : TwinsOn region s t)
    (hs : AgreeOn region s s') : TwinsOn region s' t :=
  fun place hplace => (h place hplace).of_look (hs place hplace).symm rfl

theorem AgreeOn.trans {region : Place → Prop} {s t u : Store} (h : AgreeOn region s t)
    (h' : AgreeOn region t u) : AgreeOn region s u :=
  fun place hplace => (h place hplace).trans (h' place hplace)

theorem AgreeOn.symm {region : Place → Prop} {s t : Store} (h : AgreeOn region s t) :
    AgreeOn region t s :=
  fun place hplace => (h place hplace).symm

/-! ## Writes to twins -/

section Writes

variable {found found' : Option Runner}

theorem Twin.symm (h : Twin found found') : Twin found' found := by
  cases h with
  | same => exact .same found
  | condemned r now now' hfirst => exact .condemned r now' now hfirst
  | created r stamp stamp' hfree => exact .created r stamp' stamp hfree

/-- Twins are there both, or neither is. -/
theorem Twin.eq_none_iff (h : Twin found found') : found = none ↔ found' = none := by
  cases h <;> simp

/-- A request for removal leaves twins, whenever it is made. -/
theorem Twin.removed (h : Twin found found') (now now' : Timestamp) :
    Twin (found.bind (removed? now)) (found'.bind (removed? now')) := by
  cases h with
  | same =>
      cases found with
      | none => exact .same none
      | some r =>
          simp only [Option.bind_some, removed?]
          split
          · exact .same none
          · split
            · exact .same (some r)
            · rename_i hlive
              refine .condemned r now now' ?_
              simpa [Stored.metadata, Metadata.isDeleting] using hlive
  | condemned r time time' hfirst =>
      by_cases hfree : r.metadata.finalizers = []
      · have hgone : ∀ t t', removed? t (Store.condemned t' r) = none := fun _ _ =>
          if_pos (List.isEmpty_iff.2 hfree)
        simp only [Option.bind_some, hgone]
        exact .same none
      · -- a request that was noted before is not noted again
        have hkept : ∀ t t', removed? t (Store.condemned t' r) = some (Store.condemned t' r) := by
          intro t t'
          have hheld : (Stored.metadata (Store.condemned t' r)).finalizers.isEmpty = false :=
            List.isEmpty_eq_false_iff.2 hfree
          rw [removed?, hheld, if_neg Bool.false_ne_true]
          exact if_pos rfl
        simp only [Option.bind_some, hkept]
        exact .condemned r time time' hfirst
  | created r stamp stamp' hfree =>
      have hgone : ∀ t st, removed? t (Store.created st r) = none := fun _ _ =>
        if_pos (List.isEmpty_iff.2 hfree)
      simp only [Option.bind_some, hgone]
      exact .same none

/-- A runner that is stored, unless there is one, leaves twins. -/
theorem Twin.stored (h : Twin found found') {r : Runner} (hfree : r.metadata.finalizers = [])
    (stamp stamp' : Stamp) :
    Twin (some (found.getD (Store.created stamp r)))
      (some (found'.getD (Store.created stamp' r))) := by
  cases h with
  | same =>
      cases found with
      | none => exact .created r stamp stamp' hfree
      | some old => exact .same (some old)
  | condemned r' now now' hfirst => exact .condemned r' now now' hfirst
  | created r' st st' hfree' => exact .created r' st st' hfree'

/-- The twin of a runner has its owner and its name, and is counted like it. -/
theorem Twin.exists_counterpart {r : Runner} (h : Twin (some r) found') :
    ∃ r', found' = some r' ∧ r'.ownerKey = r.ownerKey ∧ r'.name = r.name ∧
      Bucket.of r' = Bucket.of r := by
  cases h with
  | same => exact ⟨r, rfl, rfl, rfl, rfl⟩
  | condemned r now now' => exact ⟨_, rfl, rfl, rfl, rfl⟩
  | created r stamp stamp' => exact ⟨_, rfl, rfl, rfl, rfl⟩

end Writes

/-! ## Counting twins -/

/-- How many runners of each state there are. -/
def counts (runners : List Runner) : RunnerSetStatus :=
  (Fleet.classify runners).status

/-- Runners with the same names in the same groups are counted the same. -/
theorem counts_eq_of_perm {runners runners' : List Runner}
    (h : (runners.map Bucket.of).Perm (runners'.map Bucket.of)) :
    counts runners = counts runners' := by
  have hgroup : ∀ (b : Bucket) (all : List Runner),
      (all.filter (Bucket.of · = b)).length = (all.map Bucket.of).count b := by
    intro b all
    rw [List.count, List.countP_map, List.countP_eq_length_filter]
    rfl
  simp only [counts, Fleet.status, Fleet.scaleTotal, Fleet.classify, hgroup, h.count_eq]

/-- In twins, each runner of a set that is listed has a counterpart. -/
theorem TwinsOn.mem_groups {region : Place → Prop} {s t : Store} (h : TwinsOn region s t)
    (hs : s.Keyed) (ht : t.Keyed) {key : String}
    (hregion : ∀ name, region (.runners (runnerKey key name))) {group : String × Bucket}
    (hmem : group ∈ (s.runnersOf key).map fun r => (r.name, Bucket.of r)) :
    group ∈ (t.runnersOf key).map fun r => (r.name, Bucket.of r) := by
  obtain ⟨r, hr, rfl⟩ := List.mem_map.1 hmem
  obtain ⟨howner, hget⟩ := hs.mem_runnersOf.1 hr
  have htwin : Twin (s.runners.get? (runnerKey key r.name)) (t.runners.get? (runnerKey key r.name)) :=
    h _ (hregion r.name)
  rw [hget] at htwin
  obtain ⟨r', hget', howner', hname, hbucket⟩ := htwin.exists_counterpart
  refine List.mem_map.2 ⟨r', ht.mem_runnersOf.2 ⟨howner'.trans howner, ?_⟩, ?_⟩
  · rw [hname]
    exact hget'
  · rw [hname, hbucket]

theorem TwinsOn.symm {region : Place → Prop} {s t : Store} (h : TwinsOn region s t) :
    TwinsOn region t s := by
  intro place hplace
  have htwin := h place hplace
  cases place with
  | sets key => exact htwin.symm
  | runners key => exact Twin.symm htwin

/-- The runners of a set are counted the same in twins. -/
theorem TwinsOn.counts_eq {region : Place → Prop} {s t : Store} (h : TwinsOn region s t)
    (hs : s.Keyed) (ht : t.Keyed) {key : String}
    (hregion : ∀ name, region (.runners (runnerKey key name))) :
    counts (s.runnersOf key) = counts (t.runnersOf key) := by
  have hnodup : ∀ u : Store, u.Keyed →
      ((u.runnersOf key).map fun r => (r.name, Bucket.of r)).Nodup := by
    intro u hu
    have hnames := hu.names_nodup key
    refine List.Nodup.of_map Prod.fst ?_
    simpa [Function.comp_def] using hnames
  have hperm : ((s.runnersOf key).map fun r => (r.name, Bucket.of r)).Perm
      ((t.runnersOf key).map fun r => (r.name, Bucket.of r)) := by
    refine (List.perm_ext_iff_of_nodup (hnodup s hs) (hnodup t ht)).2 fun group => ?_
    constructor
    · exact h.mem_groups hs ht hregion
    · exact h.symm.mem_groups ht hs hregion
  have hgroups := hperm.map Prod.snd
  simp only [List.map_map, Function.comp_def] at hgroups
  exact counts_eq_of_perm hgroups

end Store

namespace Reconcile

open Store

/-! ## Calls that keep to a region -/

/-- The call reads and writes nothing outside a region.  A runner that it creates is held by
nothing. -/
inductive Call.Within (region : Place → Prop) : Call → Prop where
  | getSet {key : String} (hset : region (.sets key)) : Within region (.getSet key)
  | listRunners {key : String} (hrunners : ∀ name, region (.runners (runnerKey key name))) :
      Within region (.listRunners key)
  | createRunner {r : Runner} {owner : String} (howner : r.ownerKey = some owner)
      (hfree : r.metadata.finalizers = []) (hrunner : region (.runners (runnerKey owner r.name))) :
      Within region (.createRunner r)
  | deleteRunner {owner name : String} (hrunner : region (.runners (runnerKey owner name))) :
      Within region (.deleteRunner owner name)
  | updateStatus {key : String} {status : RunnerSetStatus} (hset : region (.sets key)) :
      Within region (.updateStatus key status)
  | setFinalizers {key : String} {finalizers : List String} (hset : region (.sets key)) :
      Within region (.setFinalizers key finalizers)
  | deregister (runnerId : Int) : Within region (.deregister runnerId)

/-- What a call is answered with is the same in two runs, as far as a pass goes by it: a runner that
was created does not matter, and runners that are listed anew are only counted. -/
def Call.Alike : (c : Call) → c.Answer → c.Answer → Prop
  | .createRunner _, answer, answer' => (answer.map fun _ => ()) = answer'.map fun _ => ()
  | .listRunners _, answer, answer' => answer.map counts = answer'.map counts
  | _, answer, answer' => answer = answer'

section Within

variable {region : Place → Prop} {c : Call}

/-- A call that keeps to a region leaves all places outside as they were. -/
theorem look_of_within (h : c.Within region) (service : Actions.Service) (stamp : Stamp) {s : Store}
    (hs : s.Sound) {place : Place} (hplace : ¬ region place) :
    (c.perform service stamp s).store.look place = s.look place := by
  rw [perform_store]
  cases h with
  | getSet | listRunners | deregister => rfl
  | createRunner howner _ hregion =>
      refine look_of_place_ne hs stamp fun heq => hplace ?_
      simp only [Operation.place, Operation.request, howner, Option.map_some] at heq
      exact Option.some.inj heq ▸ hregion
  | deleteRunner hregion | updateStatus hregion | setFinalizers hregion =>
      refine look_of_place_ne hs stamp fun heq => hplace ?_
      exact Option.some.inj heq ▸ hregion

/-- The same calls leave twins, whenever they are made. -/
theorem twinAt_perform (h : c.Within region) (service : Actions.Service) (stamp stamp' : Stamp)
    {s t : Store} {place : Place} (htwin : TwinAt s t place) :
    TwinAt (c.perform service stamp s).store (c.perform service stamp' t).store place := by
  rw [perform_store, perform_store]
  cases place with
  | sets key =>
      have hset : s.getSet key = t.getSet key := htwin
      cases h with
      | deregister => exact htwin
      | _ =>
          simp only [Call.operation?, TwinAt, getSet_perform, hset]
          rfl
  | runners key =>
      have hrunner : Twin (s.runners.get? key) (t.runners.get? key) := htwin
      cases h with
      | deregister => exact htwin
      | createRunner howner hfree =>
          simp only [Call.operation?, TwinAt, getRunner_perform, Operation.onRunner]
          split
          · exact hrunner.stored hfree stamp stamp'
          · exact hrunner
      | deleteRunner =>
          simp only [Call.operation?, TwinAt, getRunner_perform, Operation.onRunner]
          split
          · exact hrunner.removed stamp.now stamp'.now
          · exact hrunner
      | _ =>
          simp only [Call.operation?, TwinAt, getRunner_perform]
          exact hrunner

end Within

/-! ## Answers of twins -/

/-- Whether a runner can be deleted depends on whether there is one. -/
theorem answer_deleteRunner (service : Actions.Service) (stamp : Stamp) (s : Store)
    (owner name : String) :
    ((Call.deleteRunner owner name).perform service stamp s).answer =
      if s.runners.get? (runnerKey owner name) = none then
        .error (.notFound (runnerKey owner name))
      else .ok () := by
  simp only [Call.perform, Reply.ofOutcome, perform, remove]
  cases s.runners.get? (runnerKey owner name) with
  | none => rfl
  | some r =>
      dsimp only
      split
      · rfl
      · split <;> rfl

/-- Whether a runner can be created depends on whether there is none. -/
theorem answer_createRunner_eq (service : Actions.Service) (stamp : Stamp) (s : Store) {r : Runner}
    {owner : String} (howner : r.ownerKey = some owner) :
    (((Call.createRunner r).perform service stamp s).answer.map fun _ => ()) =
      if s.runners.get? (runnerKey owner r.name) = none then .ok ()
      else .error (.alreadyExists (runnerKey owner r.name)) := by
  simp only [Call.perform, Reply.ofOutcome, perform, createRunner, howner, insertNew]
  cases s.runners.get? (runnerKey owner r.name) with
  | none => rfl
  | some old => rfl

/-- What a write to a set is answered with depends on the set only. -/
theorem answer_updateStatus_congr (service : Actions.Service) (stamp stamp' : Stamp) {s t : Store}
    {key : String} (h : s.getSet key = t.getSet key) (status : RunnerSetStatus) :
    ((Call.updateStatus key status).perform service stamp s).answer =
      ((Call.updateStatus key status).perform service stamp' t).answer := by
  have hknown := (looksLike_settleSets s t (known_modify h fun set => { set with status })).present key
  exact congrArg (Except.map fun _ => ()) hknown.1

theorem answer_setFinalizers_congr (service : Actions.Service) (stamp stamp' : Stamp) {s t : Store}
    {key : String} (h : s.getSet key = t.getSet key) (finalizers : List String) :
    ((Call.setFinalizers key finalizers).perform service stamp s).answer =
      ((Call.setFinalizers key finalizers).perform service stamp' t).answer := by
  have hknown := looksLike_settleSets s t (known_modify h fun set =>
    { set with metadata := { set.metadata with finalizers } })
  exact congrArg (Except.map fun _ => ()) hknown.1

/-- Twins answer the calls of a region alike. -/
theorem alike_perform {region : Place → Prop} {s t : Store} (h : TwinsOn region s t) (hs : s.Keyed)
    (ht : t.Keyed) {c : Call} (hc : c.Within region) (service : Actions.Service)
    (stamp stamp' : Stamp) :
    c.Alike (c.perform service stamp s).answer (c.perform service stamp' t).answer := by
  cases hc with
  | getSet hset =>
      have heq : s.getSet _ = t.getSet _ := h _ hset
      exact congrArg Except.ok heq
  | listRunners hrunners =>
      exact congrArg Except.ok (h.counts_eq hs ht hrunners)
  | createRunner howner _ hrunner =>
      have htwin : Twin (s.runners.get? _) (t.runners.get? _) := h _ hrunner
      rw [Call.Alike, answer_createRunner_eq service stamp s howner,
        answer_createRunner_eq service stamp' t howner]
      simp only [htwin.eq_none_iff]
  | deleteRunner hrunner =>
      have htwin : Twin (s.runners.get? _) (t.runners.get? _) := h _ hrunner
      change ((Call.deleteRunner _ _).perform service stamp s).answer =
        ((Call.deleteRunner _ _).perform service stamp' t).answer
      simp only [answer_deleteRunner, htwin.eq_none_iff]
  | updateStatus hset => exact answer_updateStatus_congr service stamp stamp' (h _ hset) _
  | setFinalizers hset => exact answer_setFinalizers_congr service stamp stamp' (h _ hset) _
  | deregister => rfl

end Reconcile
end RunnerFleet
