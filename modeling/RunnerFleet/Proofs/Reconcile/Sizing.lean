import RunnerFleet.Proofs.Reconcile.Answers
import RunnerFleet.Proofs.Reconcile.Calls
import RunnerFleet.Proofs.Store.Census

/-!
# The size of a fleet after a pass

A pass that is alone with the store, and all of whose calls succeed, brings the number of live
runners to a number that can be told beforehand.  Failed runners count when the pass decides how
many runners are missing or spare, and are deleted by the same pass, so that a fleet with failed
runners may end up smaller than what was asked for.

Main results:

- `meets_cleanup_size`, `meets_reclaim_size`, `meets_createRunners_size`: what each step does to the
  number of live runners.
- `liveCount_after_pass`: how many runners are live after a pass that acts on a new decision.
-/

namespace RunnerFleet
namespace Reconcile

open Program Store

/-! ## Where every call succeeds -/

/-- The setting of a pass that is alone with the store, and whose calls go well. -/
def obliging : Setting Store where
  permits _ _ := True
  answers c s answer after := c.Answered s answer after ∧ Exchange.succeeded ⟨c, answer⟩ = true

/-- A deletion that goes well is carried out. -/
theorem deleteRunner_of_obliging {owner name : String} {s after : Store}
    {answer : Except Store.Error Unit}
    (h : obliging.answers (.deleteRunner owner name) s answer after) :
    answer = .ok () ∧ ∃ stamp, after = (s.perform stamp (.deleteRunner owner name)).store := by
  obtain ⟨hanswered, hsucceeded⟩ := h
  cases answer with
  | error e => cases hsucceeded
  | ok _ =>
      rcases hanswered with ⟨service, stamp, -, hafter⟩ | ⟨e, hfail, -⟩
      · exact ⟨rfl, stamp, hafter⟩
      · cases hfail

/-- A creation that goes well is carried out, and its runner was not there before. -/
theorem createRunner_of_obliging {r : Runner} {owner : String} (howner : r.ownerKey = some owner)
    {s after : Store} {answer : Except Store.Error Runner}
    (h : obliging.answers (.createRunner r) s answer after) :
    (∃ new, answer = .ok new) ∧ s.runners.get? (runnerKey owner r.name) = none ∧
      ∃ stamp, after = (s.perform stamp (.createRunner r)).store := by
  obtain ⟨hanswered, hsucceeded⟩ := h
  cases answer with
  | error e => cases hsucceeded
  | ok new => exact ⟨⟨new, rfl⟩, hanswered.createRunner howner⟩

/-! ## What a step leaves of the fleet -/

/-- All runners of a set but these are as they were. -/
structure Spares (key : String) (names : List String) (s after : Store) : Prop where
  keyed : after.Keyed
  others : ∀ {r}, r ∈ s.runnersOf key → r.name ∉ names → r ∈ after.runnersOf key

theorem Spares.refl {s : Store} (h : s.Keyed) (key : String) (names : List String) :
    Spares key names s s :=
  ⟨h, fun hr _ => hr⟩

variable {key : String} {s : Store}

/-- The deletion of a runner takes it off the count if it was live. -/
theorem meets_discard_size {r : Runner} (hs : s.Keyed) (hr : r ∈ s.runnersOf key) :
    (discard key r).Meets obliging
      (fun result after => result = .ok () ∧ Spares key [r.name] s after ∧
        after.liveCount key + (if r.IsLive then 1 else 0) = s.liveCount key) s := by
  rw [discard, meets_bind]
  refine ⟨trivial, ?_⟩
  intro answer after hanswer
  obtain ⟨rfl, stamp, rfl⟩ := deleteRunner_of_obliging hanswer
  refine ⟨rfl, ⟨hs.perform stamp _, ?_⟩, liveCount_deleteRunner hs hr stamp⟩
  intro other hother hname
  have hne : runnerKey key other.name ≠ runnerKey key r.name :=
    fun heq => hname (List.mem_singleton.2 (runnerKey_inj heq))
  rw [(hs.perform stamp _).mem_runnersOf, getRunner_perform, Operation.onRunner, if_neg hne]
  exact hs.mem_runnersOf.1 hother

/-- The deletion of runners that are not live leaves the count as it is. -/
theorem meets_cleanup_size {ended : List Runner} (hs : s.Keyed)
    (hover : ∀ r ∈ ended, r ∈ s.runnersOf key ∧ ¬ r.IsLive)
    (hnodup : (ended.map Runner.name).Nodup) :
    (cleanup key ended).Meets obliging
      (fun _ after => Spares key (ended.map Runner.name) s after ∧
        after.liveCount key = s.liveCount key) s := by
  induction ended generalizing s with
  | nil => exact ⟨Spares.refl hs key _, rfl⟩
  | cons r rest ih =>
      obtain ⟨hr, hnot⟩ := hover r List.mem_cons_self
      obtain ⟨hfresh, hrest⟩ := List.nodup_cons.1 hnodup
      rw [cleanup, meets_bind]
      refine (meets_discard_size hs hr).mono ?_
      rintro result middle ⟨-, hspares, hcount⟩
      rw [if_neg hnot, Nat.add_zero] at hcount
      rw [meets_bind]
      have hothers : ∀ r' ∈ rest, r' ∈ middle.runnersOf key ∧ ¬ r'.IsLive := by
        intro r' hr'
        obtain ⟨hmem, hnot'⟩ := hover r' (List.mem_cons_of_mem _ hr')
        refine ⟨hspares.others hmem fun hname => hfresh ?_, hnot'⟩
        exact List.mem_singleton.1 hname ▸ List.mem_map_of_mem hr'
      refine (ih hspares.keyed hothers hrest).mono ?_
      rintro errors last ⟨hspares', hcount'⟩
      refine ⟨⟨hspares'.keyed, ?_⟩, hcount'.trans hcount⟩
      intro other hother hname
      rw [List.map_cons, List.mem_cons, not_or] at hname
      refine hspares'.others (hspares.others hother ?_) hname.2
      exact fun h => hname.1 (List.mem_singleton.1 h)

/-- A live runner is taken off the count after its registration was removed. -/
theorem meets_retire_size {r : Runner} (hs : s.Keyed) (hr : r ∈ s.runnersOf key)
    (hlive : r.IsLive) :
    (retire key r).Meets obliging
      (fun result after => result = .ok true ∧ Spares key [r.name] s after ∧
        after.liveCount key + 1 = s.liveCount key) s := by
  rw [retire, meets_bind]
  refine ⟨trivial, ?_⟩
  rintro (e | _) after ⟨hanswered, hsucceeded⟩
  · cases hsucceeded
  · obtain rfl : after = s := by
      rcases hanswered.store with hstore | ⟨op, -, hop, -⟩
      · exact hstore
      · cases hop
    change Meets _ _ (_ >>= _) _
    rw [meets_bind]
    refine (meets_discard_size hs hr).mono ?_
    rintro result last ⟨rfl, hspares, hcount⟩
    rw [if_pos hlive] at hcount
    exact ⟨rfl, hspares, hcount⟩

/-- Of live runners, as many are reclaimed as are asked for and idle. -/
theorem meets_reclaim_size {up : List Runner} (count : Nat) (hs : s.Keyed)
    (hup : ∀ r ∈ up, r ∈ s.runnersOf key ∧ r.IsLive) (hnodup : (up.map Runner.name).Nodup) :
    (reclaim key count up).Meets obliging
      (fun _ after => after.liveCount key + min count (up.countP isReclaimable) = s.liveCount key)
      s := by
  induction up generalizing s count with
  | nil =>
      have hmin : min count (([] : List Runner).countP isReclaimable) = 0 := Nat.min_zero count
      rw [hmin]
      cases count <;> exact rfl
  | cons r rest ih =>
      cases count with
      | zero =>
          rw [Nat.zero_min]
          exact rfl
      | succ count =>
          obtain ⟨hr, hlive⟩ := hup r List.mem_cons_self
          obtain ⟨hfresh, hrest⟩ := List.nodup_cons.1 hnodup
          rw [reclaim]
          split
          · rename_i hreclaimable
            rw [meets_bind]
            refine (meets_retire_size hs hr hlive).mono ?_
            rintro result middle ⟨rfl, hspares, hcount⟩
            have hothers : ∀ r' ∈ rest, r' ∈ middle.runnersOf key ∧ r'.IsLive := by
              intro r' hr'
              obtain ⟨hmem, hlive'⟩ := hup r' (List.mem_cons_of_mem _ hr')
              refine ⟨hspares.others hmem fun hname => hfresh ?_, hlive'⟩
              exact List.mem_singleton.1 hname ▸ List.mem_map_of_mem hr'
            change Meets _ _ (_ >>= _) _
            rw [meets_bind]
            refine (ih count hspares.keyed hothers hrest).mono ?_
            intro _ last hlast
            change last.liveCount key + _ = _
            rw [List.countP_cons_of_pos hreclaimable]
            omega
          · rename_i hnot
            rw [List.countP_cons_of_neg hnot]
            exact ih (count + 1) hs (fun r' hr' => hup r' (List.mem_cons_of_mem _ hr')) hrest

/-- Every new runner is live. -/
theorem meets_createRunners_size {set : RunnerSet} (hs : s.Keyed) (suffixes : List String) :
    (createRunners set suffixes).Meets obliging
      (fun _ after => after.liveCount set.key = s.liveCount set.key + suffixes.length) s := by
  induction suffixes generalizing s with
  | nil => exact rfl
  | cons suffix rest ih =>
      rw [createRunners, meets_bind]
      refine ⟨trivial, ?_⟩
      intro answer after hanswer
      obtain ⟨⟨new, rfl⟩, hnew, stamp, rfl⟩ :=
        createRunner_of_obliging (newRunner_ownerKey set suffix) hanswer
      have hcount :=
        liveCount_createRunner hs (newRunner_ownerKey set suffix) (Or.inl rfl) hnew stamp
      change Meets _ _ (_ >>= _) _
      rw [meets_bind]
      refine (ih (hs.perform stamp _)).mono ?_
      intro errors last hlast
      change last.liveCount set.key = _
      rw [List.length_cons]
      omega

/-! ## Steps that touch no runner -/

/-- Calls that neither create nor delete a runner. -/
def Call.KeepsRunners : Call → Prop
  | .createRunner _ => False
  | .deleteRunner _ _ => False
  | _ => True

/-- A call that neither creates nor deletes a runner leaves the table of runners as it is. -/
theorem runners_of_keepsRunners {c : Call} (h : c.KeepsRunners) {after : Store} {answer : c.Answer}
    (hanswered : c.Answered s answer after) : after.runners = s.runners := by
  rcases hanswered.store with rfl | ⟨op, stamp, hop, rfl⟩
  · rfl
  · cases c with
    | createRunner r => exact h.elim
    | deleteRunner owner name => exact h.elim
    | deregister runnerId => cases hop
    | updateStatus k status =>
        injection hop with hop
        rw [← hop, perform, present_store, settleSets_store]
    | setFinalizers k finalizers =>
        injection hop with hop
        rw [← hop, perform, settleSets_store]
    | getSet k =>
        injection hop with hop
        rw [← hop]
        rfl
    | listRunners k =>
        injection hop with hop
        rw [← hop]
        rfl

/-- A program that neither creates nor deletes runners keeps their number. -/
theorem Uses.meets_size {α : Type} {p : Program α} (hp : p.Uses Call.KeepsRunners) (key : String)
    (s : Store) :
    p.Meets obliging (fun _ after => after.liveCount key = s.liveCount key) s := by
  refine hp.meets (fun after : Store => after.liveCount key = s.liveCount key) ?_ ?_ rfl
  · exact fun _ _ _ _ => trivial
  · rintro c state answer after hkeeps hstate ⟨hanswered, -⟩
    rw [liveCount_of_runners_eq (runners_of_keepsRunners hkeeps hanswered), hstate]

/-! ## The pass -/

/-- How many runners are live after a pass that acts on a new decision, of as many that were live,
failed and idle before it. -/
def sizeAfter (replicas live failed idle : Nat) : Nat :=
  if live + failed ≤ replicas then replicas - failed
  else live - min (live + failed - replicas) idle

/-- The runners in the deletion order that may be reclaimed are the idle ones. -/
theorem countP_isReclaimable (s : Store) (key : String) :
    (Fleet.classify (s.runnersOf key)).deletionOrder.countP isReclaimable = s.idleCount key := by
  rw [(Fleet.deletionOrder_perm_live _).countP_eq, List.countP_filter, idleCount]
  refine List.countP_congr fun r _ => ?_
  rw [Bool.and_eq_true, isReclaimable_iff, decide_eq_true_iff, decide_eq_true_iff]
  constructor
  · rintro ⟨hreclaimable, hdeleting, hup⟩
    exact ⟨hdeleting, hup, hreclaimable⟩
  · rintro ⟨hdeleting, hup, hreclaimable⟩
    exact ⟨hreclaimable, hdeleting, hup⟩

/-- A gap is closed as far as failed runners and busy ones allow. -/
theorem meets_closeGap_size (suffix : Nat → String) {set : RunnerSet} {s middle : Store}
    (hs : s.Keyed) (hspares : Spares set.key
      ((Fleet.classify (s.runnersOf set.key)).cleanupCandidates.map Runner.name) s middle)
    (hcount : middle.liveCount set.key = s.liveCount set.key)
    (hnew : (Fleet.classify (s.runnersOf set.key)).isAdopted set.spec.patchId = false) :
    (closeGap suffix set (Fleet.classify (s.runnersOf set.key))).Meets obliging
      (fun _ after => after.liveCount set.key = sizeAfter set.spec.replicas (s.liveCount set.key)
        (s.failedCount set.key) (s.idleCount set.key)) middle := by
  have htotal : (Fleet.classify (s.runnersOf set.key)).scaleTotal =
      s.liveCount set.key + s.failedCount set.key := Fleet.scaleTotal_classify _
  rw [closeGap, gap, hnew, htotal]
  simp only [Bool.false_eq_true, if_false]
  by_cases hfew : s.liveCount set.key + s.failedCount set.key < set.spec.replicas
  · rw [if_pos hfew]
    refine (meets_createRunners_size hspares.keyed _).mono fun _ after hafter => ?_
    rw [hafter, hcount, List.length_map, List.length_range, sizeAfter]
    split <;> omega
  · rw [if_neg hfew]
    by_cases hmany : set.spec.replicas < s.liveCount set.key + s.failedCount set.key
    · rw [if_pos hmany]
      have hnodup := Fleet.actedOn_names_nodup (hs.names_nodup set.key)
      rw [List.map_append, List.nodup_append] at hnodup
      obtain ⟨-, hnodup, hdisjoint⟩ := hnodup
      -- cleaning up has left the runners in the deletion order where they were
      have hup : ∀ r ∈ (Fleet.classify (s.runnersOf set.key)).deletionOrder,
          r ∈ middle.runnersOf set.key ∧ r.IsLive := by
        intro r hr
        obtain ⟨hmem, hlive⟩ := Fleet.mem_deletionOrder_iff.1 hr
        refine ⟨hspares.others hmem fun hname => ?_, hlive⟩
        exact hdisjoint r.name hname r.name (List.mem_map_of_mem hr) rfl
      change Meets _ _ (_ >>= _) _
      rw [meets_bind]
      refine (meets_reclaim_size _ hspares.keyed hup hnodup).mono fun _ after hafter => ?_
      change after.liveCount set.key = _
      rw [countP_isReclaimable, hcount] at hafter
      rw [sizeAfter, if_neg (by omega)]
      omega
    · rw [if_neg hmany]
      change middle.liveCount set.key = _
      rw [hcount, sizeAfter]
      split <;> omega

/-- A new decision is acted on as far as failed runners and busy ones allow. -/
theorem meets_converge_size (suffix : Nat → String) {set : RunnerSet} {s : Store} (hs : s.Keyed)
    (hnew : (Fleet.classify (s.runnersOf set.key)).isAdopted set.spec.patchId = false) :
    (converge suffix set (Fleet.classify (s.runnersOf set.key))).Meets obliging
      (fun _ after => after.liveCount set.key = sizeAfter set.spec.replicas (s.liveCount set.key)
        (s.failedCount set.key) (s.idleCount set.key)) s := by
  have hnodup := Fleet.actedOn_names_nodup (hs.names_nodup set.key)
  rw [List.map_append, List.nodup_append] at hnodup
  have hover : ∀ r ∈ (Fleet.classify (s.runnersOf set.key)).cleanupCandidates,
      r ∈ s.runnersOf set.key ∧ ¬ r.IsLive := by
    intro r hr
    obtain ⟨hmem, -, hover⟩ := Fleet.mem_cleanupCandidates_iff.1 hr
    refine ⟨hmem, fun hlive => ?_⟩
    rcases hover with h | h <;> rcases hlive.2 with h' | h' | h' <;> simp [h] at h'
  rw [converge, meets_bind]
  refine (meets_cleanup_size hs hover hnodup.1).mono ?_
  rintro _ middle ⟨hspares, hcount⟩
  rw [meets_bind]
  refine (meets_closeGap_size suffix hs hspares hcount hnew).mono fun _ after hafter => ?_
  -- looking again and writing the counts touches no runner
  refine (Uses.meets_size ?_ set.key after).mono fun _ last hlast => hlast.trans hafter
  refine uses_bind (uses_review set trivial _ _) fun _ => ?_
  exact uses_bind (uses_writeStatus set (fun _ => trivial) _) fun _ => trivial

/-- A pass over a live set acts on a new decision as far as failed runners and busy ones allow. -/
theorem meets_pass_size (suffix : Nat → String) {set : RunnerSet} {s : Store} (hs : s.Keyed)
    (hset : s.getSet key = some set) (hlive : set.metadata.isDeleting = false)
    (hfinalizer : set.hasFinalizer = true)
    (hnew : (Fleet.classify (s.runnersOf key)).isAdopted set.spec.patchId = false) :
    (pass suffix key).Meets obliging
      (fun _ after => after.liveCount key = sizeAfter set.spec.replicas (s.liveCount key)
        (s.failedCount key) (s.idleCount key)) s := by
  obtain rfl : set.key = key := hs.set hset
  rw [pass, meets_bind]
  refine ⟨trivial, ?_⟩
  rintro (e | found) read ⟨hanswered, hsucceeded⟩
  · cases hsucceeded
  · obtain ⟨rfl, hfound⟩ := hanswered.getSet
    obtain rfl : found = some set := hfound.symm.trans hset
    change Meets _ _ (if set.hasFinalizer then _ else _) _
    rw [if_pos hfinalizer, meets_bind]
    refine ⟨trivial, ?_⟩
    rintro (e | runners) listed ⟨hanswered, hsucceeded⟩
    · cases hsucceeded
    · obtain ⟨rfl, rfl⟩ := hanswered.listRunners
      have hactive : ∀ children, Teardown.observe set.metadata children = .active := by
        intro children
        simp [Teardown.observe, hlive]
      change Meets _ _ (proceed suffix set _) _
      rw [proceed, hactive]
      exact meets_converge_size suffix hs hnew

/-- If every call of a pass over a live set with a new decision succeeds, and nobody else writes,
the set has as many live runners afterwards as were asked for, less the failed ones that the pass
has removed; or more, if there were more and not enough of them were idle. -/
theorem liveCount_after_pass {suffix : Nat → String} {key : String} {env : Environment}
    {set : RunnerSet} (hreached : env.store.Reachable) (hset : env.store.getSet key = some set)
    (hlive : set.metadata.isDeleting = false) (hfinalizer : set.hasFinalizer = true)
    (hnew : (Fleet.classify (env.store.runnersOf key)).isAdopted set.spec.patchId = false)
    (hsucceeded : ∀ e ∈ (pass suffix key).exchanges Environment.answer env, e.succeeded = true) :
    let before := env.store
    let after := ((pass suffix key).run Environment.answer env).2.store
    (before.liveCount key + before.failedCount key ≤ set.spec.replicas →
      after.liveCount key = set.spec.replicas - before.failedCount key) ∧
    (set.spec.replicas < before.liveCount key + before.failedCount key →
      after.liveCount key = before.liveCount key -
        min (before.liveCount key + before.failedCount key - set.spec.replicas)
          (before.idleCount key) ∧
      set.spec.replicas - before.failedCount key ≤ after.liveCount key) := by
  have hmeets := meets_pass_size suffix hreached.keyed hset hlive hfinalizer hnew
  have hobliging : ∀ (c : Call) (env : Environment),
      Exchange.succeeded ⟨c, (Environment.answer c env).1⟩ = true →
        obliging.answers c env.store (Environment.answer c env).1
          (Environment.answer c env).2.store :=
    fun c env hgood => ⟨answered_answer c env, hgood⟩
  have hafter := hmeets.of_run Environment.store hobliging hsucceeded
  rw [sizeAfter] at hafter
  refine ⟨?_, ?_⟩
  · intro hfew
    rw [hafter, if_pos hfew]
  · intro hmany
    rw [if_neg (by omega)] at hafter
    refine ⟨hafter, ?_⟩
    omega

/-- An environment with a set that asks for two runners, and has one that is up and one that has
failed. -/
def shorthanded : Environment where
  store := Store.ofOperations
    [.createSet (RunnerSet.create "ns" "set" { image := "image" }),
      .setSetFinalizers "ns/set" [RunnerSet.finalizer],
      .createRunner (newRunner (RunnerSet.create "ns" "set" { image := "image" }) "a"),
      .createRunner (newRunner (RunnerSet.create "ns" "set" { image := "image" }) "b"),
      .updateRunnerStatus "ns/set" "set-runner-a" { phase := .running, runnerId := 7 },
      .updateRunnerStatus "ns/set" "set-runner-b" { phase := .failed },
      .patchSpec "ns/set" 2 5]
  service := fun _ => .ok ()
  stamps := fun _ => Stamp.sample

theorem exists_shorthanded_set :
    ∃ set, shorthanded.store.getSet "ns/set" = some set ∧ set.metadata.isDeleting = false ∧
      set.hasFinalizer = true ∧ set.spec.replicas = 2 ∧
      (Fleet.classify (shorthanded.store.runnersOf "ns/set")).isAdopted
        set.spec.patchId = false := by
  have hset : (shorthanded.store.getSet "ns/set").any (fun set =>
      decide (set.metadata.isDeleting = false ∧ set.hasFinalizer = true ∧ set.spec.replicas = 2 ∧
        (Fleet.classify (shorthanded.store.runnersOf "ns/set")).isAdopted set.spec.patchId =
          false)) = true := by decide +kernel
  obtain ⟨set, hset, hfacts⟩ := (Option.any_eq_true _ _).1 hset
  exact ⟨set, hset, of_decide_eq_true hfacts⟩

/-- In the shorthanded environment one runner is live after a pass. -/
theorem liveCount_shorthanded :
    ((pass toString "ns/set").run Environment.answer shorthanded).2.store.liveCount
      "ns/set" = 1 := by
  obtain ⟨set, hset, hlive, hfinalizer, hreplicas, hnew⟩ := exists_shorthanded_set
  have hsucceeded : ∀ e ∈ (pass toString "ns/set").exchanges Environment.answer shorthanded,
      e.succeeded = true := by decide +kernel
  have hsize := (liveCount_after_pass (Store.reachable_ofOperations _) hset hlive hfinalizer hnew
    hsucceeded).1
  have hcounts : shorthanded.store.liveCount "ns/set" = 1 ∧
      shorthanded.store.failedCount "ns/set" = 1 := by decide +kernel
  rw [hcounts.1, hcounts.2, hreplicas] at hsize
  exact hsize (Nat.le_refl 2)

/-- It is not so that a pass always reaches the number that is asked for, or stays above it. -/
theorem size_may_be_missed :
    ¬ ∀ (suffix : Nat → String) (key : String) (env : Environment) (set : RunnerSet),
      env.store.Reachable → env.store.getSet key = some set → set.metadata.isDeleting = false →
      set.hasFinalizer = true →
      (Fleet.classify (env.store.runnersOf key)).isAdopted set.spec.patchId = false →
      (∀ e ∈ (pass suffix key).exchanges Environment.answer env, e.succeeded = true) →
      let after := ((pass suffix key).run Environment.answer env).2.store
      (env.store.liveCount key ≤ set.spec.replicas → after.liveCount key = set.spec.replicas) ∧
        (set.spec.replicas < env.store.liveCount key →
          set.spec.replicas ≤ after.liveCount key) := by
  intro h
  obtain ⟨set, hset, hlive, hfinalizer, hreplicas, hnew⟩ := exists_shorthanded_set
  have hreached := (h toString "ns/set" shorthanded set (Store.reachable_ofOperations _) hset hlive
    hfinalizer hnew (by decide +kernel)).1
  have hcounts : shorthanded.store.liveCount "ns/set" = 1 ∧
      ((pass toString "ns/set").run Environment.answer shorthanded).2.store.liveCount
        "ns/set" = 1 := by
    decide +kernel
  rw [hcounts.1, hcounts.2, hreplicas] at hreached
  have hone := hreached (by decide)
  omega

end Reconcile
end RunnerFleet
