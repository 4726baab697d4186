import RunnerFleet.Proofs.Fleet.Groups
import RunnerFleet.Proofs.Reconcile.Answers
import RunnerFleet.Proofs.Reconcile.Calls
import RunnerFleet.Proofs.Store.Keyed

/-!
# Which runners a pass deletes

A pass deletes only runners that it saw in its first listing, and each at most once.  It deletes
those that are over, and those that were idle and whose registration it removed just before.  What
others do to the store in between, and which calls fail, does not matter.

Main results:

- `meets_pass_lawful`: every deletion and every removal of a registration is lawful when it is made.
- `deletions_are_safe`: which runners are deleted in any run of a pass that may be cut off.
-/

namespace RunnerFleet
namespace Reconcile

open Program

/-! ## What is read off the calls so far -/

namespace Exchange

/-- The runner set that was read. -/
def read? : Exchange → Option RunnerSet
  | ⟨.getSet _, .ok found⟩ => found
  | _ => none

/-- The runners that were listed. -/
def listed? : Exchange → Option (List Runner)
  | ⟨.listRunners _, .ok runners⟩ => some runners
  | _ => none

/-- The name of the runner whose deletion was asked for. -/
def deleted? : Exchange → Option String
  | ⟨.deleteRunner _ name, _⟩ => some name
  | _ => none

end Exchange

/-- The set as it was first read. -/
def firstRead (calls : List Exchange) : Option RunnerSet :=
  calls.findSome? Exchange.read?

/-- The runners as they were first listed. -/
def firstListing (calls : List Exchange) : Option (List Runner) :=
  calls.findSome? Exchange.listed?

/-- The names of the runners whose deletion was asked for, in order. -/
def deletedNames (calls : List Exchange) : List String :=
  calls.filterMap Exchange.deleted?

/-- The set is live, and its runners were made for its present decision. -/
def Settled (set : RunnerSet) (runners : List Runner) : Prop :=
  set.metadata.isDeleting = false ∧
    (Fleet.classify runners).isAdopted set.spec.patchId = true

/-- What the pass goes by was read from the store: the set, and its runners. -/
structure Underway (set : RunnerSet) (runners : List Runner) (calls : List Exchange) : Prop where
  read : firstRead calls = some set
  listed : firstListing calls = some runners

/-- What was read first stays so. -/
theorem Underway.append {set : RunnerSet} {runners : List Runner} {calls : List Exchange}
    (h : Underway set runners calls) (more : List Exchange) :
    Underway set runners (calls ++ more) := by
  obtain ⟨hread, hlisted⟩ := h
  unfold firstRead at hread
  unfold firstListing at hlisted
  refine ⟨?_, ?_⟩
  · rw [firstRead, List.findSome?_append, hread, Option.some_or]
  · rw [firstListing, List.findSome?_append, hlisted, Option.some_or]

/-- The pass goes by one reading of the store. -/
theorem Underway.unique {set set' : RunnerSet} {runners runners' : List Runner}
    {calls : List Exchange} (h : Underway set runners calls) (h' : Underway set' runners' calls) :
    set = set' ∧ runners = runners' :=
  ⟨Option.some.inj (h.read.symm.trans h'.read), Option.some.inj (h.listed.symm.trans h'.listed)⟩

/-! ## The law -/

/-- A runner may be deleted after these calls: it is over, or it is idle and the last call has
removed its registration. -/
def Deletable (r : Runner) (calls : List Exchange) : Prop :=
  r.isDeleting = false ∧
    (r.IsOver ∨ r.IsIdle ∧ ∃ before, calls = before ++ [⟨.deregister r.status.runnerId, .ok ()⟩])

/-- Which calls a pass over a set may make after others. -/
def Lawful (key : String) (calls : List Exchange) : Call → Prop
  | .deleteRunner owner name =>
      owner = key ∧ name ∉ deletedNames calls ∧ ∃ set runners, Underway set runners calls ∧
        ∃ r ∈ runners, r.name = name ∧ Deletable r calls
  | .deregister runnerId =>
      ∃ set runners, Underway set runners calls ∧ ¬ Settled set runners ∧
        ∃ r ∈ runners, r.isDeleting = false ∧ r.IsIdle ∧ r.status.runnerId = runnerId
  | _ => True

/-- The setting of a pass over a set that others may do anything to. -/
def lawful (key : String) : Setting (List Exchange) :=
  .history (Lawful key) Exchange.Possible

/-- Of the calls that were made since, only these runners' deletions were asked for. -/
def Deletes (names : List String) (calls after : List Exchange) : Prop :=
  ∃ more, after = calls ++ more ∧ ∀ name ∈ deletedNames more, name ∈ names

theorem Deletes.refl (names : List String) (calls : List Exchange) : Deletes names calls calls :=
  ⟨[], (List.append_nil calls).symm, fun _ h => absurd h List.not_mem_nil⟩

theorem Deletes.trans {names names' all : List String} {a b c : List Exchange}
    (h : Deletes names a b) (h' : Deletes names' b c) (hsub : ∀ name ∈ names, name ∈ all)
    (hsub' : ∀ name ∈ names', name ∈ all) : Deletes all a c := by
  obtain ⟨more, rfl, hmore⟩ := h
  obtain ⟨more', rfl, hmore'⟩ := h'
  refine ⟨more ++ more', List.append_assoc _ _ _, ?_⟩
  intro name hname
  rw [deletedNames, List.filterMap_append, List.mem_append] at hname
  rcases hname with hname | hname
  · exact hsub name (hmore name hname)
  · exact hsub' name (hmore' name hname)

theorem Deletes.underway {names : List String} {set : RunnerSet} {runners : List Runner}
    {calls after : List Exchange} (h : Deletes names calls after)
    (hu : Underway set runners calls) : Underway set runners after := by
  obtain ⟨more, rfl, -⟩ := h
  exact hu.append more

/-- What was not asked for before, and is none of these, has not been asked for since. -/
theorem Deletes.fresh {names : List String} {name : String} {calls after : List Exchange}
    (h : Deletes names calls after) (hname : name ∉ names) (hcalls : name ∉ deletedNames calls) :
    name ∉ deletedNames after := by
  obtain ⟨more, rfl, hmore⟩ := h
  rw [deletedNames, List.filterMap_append, List.mem_append]
  rintro (hmem | hmem)
  · exact hcalls hmem
  · exact hname (hmore name hmem)

/-! ## Steps that delete nothing -/

/-- Calls that neither delete a runner nor remove a registration. -/
def Call.IsMild : Call → Prop
  | .deleteRunner _ _ => False
  | .deregister _ => False
  | _ => True

theorem lawful_of_isMild {key : String} {calls : List Exchange} {c : Call} (h : c.IsMild) :
    Lawful key calls c := by
  cases c with
  | deleteRunner owner name => exact h.elim
  | deregister runnerId => exact h.elim
  | _ => exact trivial

variable {key : String} {set : RunnerSet} {runners : List Runner} {calls : List Exchange}

/-- A program that makes only mild calls deletes nothing. -/
theorem Uses.meets_lawful {α : Type} {p : Program α} (hp : p.Uses Call.IsMild) :
    p.Meets (lawful key) (fun _ after => Deletes [] calls after) calls := by
  refine hp.meets (Deletes [] calls) ?_ ?_ (Deletes.refl [] calls)
  · intro c state hmild _
    exact lawful_of_isMild hmild
  · rintro c state answer after hmild hstate ⟨-, rfl⟩
    refine hstate.trans ⟨[⟨c, answer⟩], rfl, ?_⟩ (fun _ h => h) (fun _ h => h)
    cases c with
    | deleteRunner owner name => exact hmild.elim
    | _ => exact fun name hname => absurd hname List.not_mem_nil

/-! ## Steps that delete -/

/-- A runner that may be deleted is deleted. -/
theorem meets_discard (key : String) {r : Runner} (hu : Underway set runners calls)
    (hr : r ∈ runners) (hfresh : r.name ∉ deletedNames calls) (hdeletable : Deletable r calls) :
    (discard key r).Meets (lawful key) (fun _ after => Deletes [r.name] calls after) calls := by
  rw [discard, meets_bind]
  refine ⟨⟨rfl, hfresh, set, runners, hu, r, hr, rfl, hdeletable⟩, ?_⟩
  rintro answer after ⟨-, rfl⟩
  have hdeletes : Deletes [r.name] calls (calls ++ [⟨.deleteRunner key r.name, answer⟩]) :=
    ⟨_, rfl, fun name hname => hname⟩
  cases answer <;> exact hdeletes

/-- Runners that are over are deleted. -/
theorem meets_cleanup (key : String) {ended : List Runner} (hu : Underway set runners calls)
    (hover : ∀ r ∈ ended, r ∈ runners ∧ r.isDeleting = false ∧ r.IsOver)
    (hnodup : (ended.map Runner.name).Nodup)
    (hfresh : ∀ name ∈ ended.map Runner.name, name ∉ deletedNames calls) :
    (cleanup key ended).Meets (lawful key)
      (fun _ after => Deletes (ended.map Runner.name) calls after) calls := by
  induction ended generalizing calls with
  | nil => exact Deletes.refl _ _
  | cons r rest ih =>
      obtain ⟨hr, hdeleting, hisOver⟩ := hover r List.mem_cons_self
      obtain ⟨hnot, hrest⟩ := List.nodup_cons.1 hnodup
      rw [cleanup, meets_bind]
      have hdiscard := meets_discard key hu hr (hfresh r.name List.mem_cons_self)
        ⟨hdeleting, Or.inl hisOver⟩
      refine hdiscard.mono fun result after hafter => ?_
      rw [meets_bind]
      have htail := ih (hafter.underway hu) (fun r hr => hover r (List.mem_cons_of_mem _ hr)) hrest
        fun name hname => hafter.fresh (fun h => hnot (List.mem_singleton.1 h ▸ hname))
          (hfresh name (List.mem_cons_of_mem _ hname))
      refine htail.mono fun errors last hlast => ?_
      exact hafter.trans hlast (fun name h => List.mem_singleton.1 h ▸ List.mem_cons_self)
        fun name h => List.mem_cons_of_mem _ h

/-- An idle runner is deleted after its registration was removed. -/
theorem meets_retire (key : String) {r : Runner} (hu : Underway set runners calls)
    (hunsettled : ¬ Settled set runners) (hr : r ∈ runners) (hdeleting : r.isDeleting = false)
    (hidle : r.IsIdle) (hfresh : r.name ∉ deletedNames calls) :
    (retire key r).Meets (lawful key) (fun _ after => Deletes [r.name] calls after) calls := by
  rw [retire, meets_bind]
  refine ⟨⟨set, runners, hu, hunsettled, r, hr, hdeleting, hidle, rfl⟩, ?_⟩
  rintro answer after ⟨-, rfl⟩
  have hasked : Deletes [] calls (calls ++ [⟨.deregister r.status.runnerId, answer⟩]) :=
    ⟨_, rfl, fun name hname => hname⟩
  have hweaker : Deletes [r.name] calls (calls ++ [⟨.deregister r.status.runnerId, answer⟩]) :=
    ⟨_, rfl, fun name hname => absurd hname List.not_mem_nil⟩
  cases answer with
  | error e => exact hweaker
  | ok _ =>
      change Meets _ _ (_ >>= _) _
      rw [meets_bind]
      have hdiscard := meets_discard key (hasked.underway hu) hr
        (hasked.fresh List.not_mem_nil hfresh) ⟨hdeleting, Or.inr ⟨hidle, calls, rfl⟩⟩
      refine hdiscard.mono fun result last hlast => ?_
      exact hweaker.trans hlast (fun _ h => h) fun _ h => h

/-- Of runners that are up, idle ones are reclaimed. -/
theorem meets_reclaim (key : String) {up : List Runner} (count : Nat)
    (hu : Underway set runners calls) (hunsettled : ¬ Settled set runners)
    (hup : ∀ r ∈ up, r ∈ runners ∧ r.isDeleting = false ∧ r.IsUp)
    (hnodup : (up.map Runner.name).Nodup)
    (hfresh : ∀ name ∈ up.map Runner.name, name ∉ deletedNames calls) :
    (reclaim key count up).Meets (lawful key)
      (fun _ after => Deletes (up.map Runner.name) calls after) calls := by
  induction up generalizing calls count with
  | nil => cases count <;> exact Deletes.refl _ _
  | cons r rest ih =>
      cases count with
      | zero => exact Deletes.refl _ _
      | succ count =>
          obtain ⟨hr, hdeleting, hisUp⟩ := hup r List.mem_cons_self
          obtain ⟨hnot, hrest⟩ := List.nodup_cons.1 hnodup
          -- whatever became of the first runner, the others are as they should be
          have hgoOn : ∀ {middle} (n : Nat), Deletes [r.name] calls middle →
              (reclaim key n rest).Meets (lawful key)
                (fun _ after => Deletes ((r :: rest).map Runner.name) calls after) middle := by
            intro middle n hmiddle
            have htail := ih n (hmiddle.underway hu)
              (fun r hr => hup r (List.mem_cons_of_mem _ hr)) hrest
              fun name hname => hmiddle.fresh (fun h => hnot (List.mem_singleton.1 h ▸ hname))
                (hfresh name (List.mem_cons_of_mem _ hname))
            refine htail.mono fun _ last hlast => ?_
            exact hmiddle.trans hlast (fun name h => List.mem_singleton.1 h ▸ List.mem_cons_self)
              fun name h => List.mem_cons_of_mem _ h
          rw [reclaim]
          split
          · rename_i hreclaimable
            rw [meets_bind]
            have hretire := meets_retire key hu hunsettled hr hdeleting
              ⟨hisUp, (isReclaimable_iff r).1 hreclaimable⟩ (hfresh r.name List.mem_cons_self)
            refine hretire.mono ?_
            rintro (e | _ | _) middle hmiddle
            · exact (meets_bind _ _ _ _ _).2 (hgoOn (count + 1) hmiddle)
            · exact hgoOn (count + 1) hmiddle
            · exact (meets_bind _ _ _ _ _).2 (hgoOn count hmiddle)
          · exact hgoOn (count + 1) (Deletes.refl _ _)

/-! ## The pass -/

/-- A gap is closed without deleting any but idle runners. -/
theorem meets_closeGap (suffix : Nat → String) (hu : Underway set runners calls)
    (hnodup : ((Fleet.classify runners).deletionOrder.map Runner.name).Nodup)
    (hfresh : ∀ name ∈ (Fleet.classify runners).deletionOrder.map Runner.name,
      name ∉ deletedNames calls) :
    (closeGap suffix set (Fleet.classify runners)).Meets (lawful set.key)
      (fun _ _ => True) calls := by
  rw [closeGap]
  split
  · exact trivial
  · exact (Uses.meets_lawful (uses_createRunners set (fun _ => trivial) _)).mono
      fun _ _ _ => trivial
  · rename_i count hgap
    have hunsettled : ¬ Settled set runners := by
      rintro ⟨-, hadopted⟩
      simp [gap, hadopted] at hgap
    rw [meets_bind]
    have hreclaim := meets_reclaim set.key count hu hunsettled
      (fun r hr => Fleet.mem_deletionOrder_iff.1 hr) hnodup hfresh
    exact hreclaim.mono fun _ _ _ => trivial

/-- The part of a pass that comes after its reads is lawful. -/
theorem meets_proceed_lawful (suffix : Nat → String) (hu : Underway set runners calls)
    (hnames : (runners.map Runner.name).Nodup) (hnone : deletedNames calls = []) :
    (proceed suffix set runners).Meets (lawful set.key) (fun _ _ => True) calls := by
  have hnodup := Fleet.actedOn_names_nodup hnames
  rw [List.map_append] at hnodup
  obtain ⟨hover, hup, hdisjoint⟩ := List.nodup_append.1 hnodup
  have hcleanup := meets_cleanup set.key hu
    (fun r hr => Fleet.mem_cleanupCandidates_iff.1 hr) hover
    fun name _ => hnone ▸ List.not_mem_nil
  have hfresh : ∀ {after}, Deletes ((Fleet.classify runners).cleanupCandidates.map Runner.name)
      calls after → ∀ name ∈ (Fleet.classify runners).deletionOrder.map Runner.name,
      name ∉ deletedNames after := fun hafter name hname =>
    hafter.fresh (fun h => hdisjoint name h name hname rfl) (hnone ▸ List.not_mem_nil)
  rw [proceed]
  split
  · rw [converge, meets_bind]
    refine hcleanup.mono fun _ after hafter => ?_
    rw [meets_bind]
    refine (meets_closeGap suffix (hafter.underway hu) hup (hfresh hafter)).mono
      fun _ after _ => ?_
    refine (Uses.meets_lawful ?_).mono fun _ _ _ => trivial
    refine uses_bind (uses_review set trivial _ _) fun _ => ?_
    exact uses_bind (uses_writeStatus set (fun _ => trivial) _) fun _ => trivial
  · rename_i hdraining
    have hunsettled : ¬ Settled set runners := by
      rintro ⟨hlive, -⟩
      simp [Teardown.observe, hlive] at hdraining
    rw [drain, meets_bind]
    refine hcleanup.mono fun _ after hafter => ?_
    rw [meets_bind]
    exact (meets_reclaim _ _ (hafter.underway hu) hunsettled
      (fun r hr => Fleet.mem_deletionOrder_iff.1 hr) hup (hfresh hafter)).mono fun _ _ _ => trivial
  · refine (Uses.meets_lawful ?_).mono fun _ _ _ => trivial
    exact uses_bind (uses_call trivial) fun _ => trivial

/-- Every call of a pass is lawful when it is made. -/
theorem meets_pass_lawful (suffix : Nat → String) (key : String) :
    (pass suffix key).Meets (lawful key) (fun _ _ => True) [] := by
  rw [pass, meets_bind]
  refine ⟨trivial, ?_⟩
  rintro (e | _ | set) found ⟨⟨s, after, hreached, hanswered⟩, rfl⟩
  · exact trivial
  · exact trivial
  · obtain ⟨-, hset⟩ := Call.Answered.getSet hanswered
    obtain rfl : set.key = key := hreached.keyed.set hset
    change Meets _ _ (if set.hasFinalizer then _ else _) _
    split
    · rw [meets_bind]
      refine ⟨trivial, ?_⟩
      rintro (e | runners) listed ⟨⟨s, after, hreached, hanswered⟩, rfl⟩
      · exact trivial
      · obtain ⟨-, rfl⟩ := Call.Answered.listRunners hanswered
        exact meets_proceed_lawful suffix ⟨rfl, rfl⟩ (hreached.keyed.names_nodup set.key) rfl
    · split
      · exact trivial
      · rw [meets_bind]
        exact ⟨trivial, fun _ _ _ => trivial⟩

/-! ## Runs of a pass -/

/-- What each call adds to those before it without repetition has no repetition in the end. -/
theorem nodup_filterMap {α β : Type} {f : α → Option β} {t : List α}
    (h : ∀ before e after b, t = before ++ e :: after → f e = some b → b ∉ before.filterMap f) :
    (t.filterMap f).Nodup := by
  suffices hall : ∀ before after, t = before ++ after → (before.filterMap f).Nodup →
      ((before ++ after).filterMap f).Nodup by
    exact hall [] t rfl List.nodup_nil
  intro before after
  induction after generalizing before with
  | nil =>
      intro _ hnodup
      rwa [List.append_nil]
  | cons e after ih =>
      intro hsplit hnodup
      rw [List.append_cons] at hsplit ⊢
      refine ih (before ++ [e]) hsplit ?_
      rw [List.filterMap_append]
      cases hfe : f e with
      | none => simpa [hfe] using hnodup
      | some b =>
          have hnot := h before e after b (by rw [hsplit, List.append_assoc]; rfl) hfe
          rw [List.filterMap_cons_some hfe, List.filterMap_nil, List.nodup_append]
          refine ⟨hnodup, by simp, ?_⟩
          rintro a ha c hc rfl
          exact hnot (List.mem_singleton.1 hc ▸ ha)

/-- In any run of a pass, cut off or not, whatever others do in between: every deletion is of a
runner in the first listing that is over, or is idle and has just lost its registration; only idle
runners lose theirs; a settled fleet loses only runners that are over; and none is deleted twice. -/
theorem deletions_are_safe {suffix : Nat → String} {key : String} {t : List Exchange}
    (ht : (pass suffix key).Trace t) (hpossible : ∀ e ∈ t, e.Possible) :
    (∀ before owner name answer after,
      t = before ++ ⟨.deleteRunner owner name, answer⟩ :: after →
        owner = key ∧ ∃ runners r, firstListing t = some runners ∧ r ∈ runners ∧ r.name = name ∧
          Deletable r before ∧
          ∀ set, firstRead t = some set → Settled set runners → r.IsOver) ∧
    (∀ runnerId answer, ⟨.deregister runnerId, answer⟩ ∈ t →
      ∃ runners r, firstListing t = some runners ∧ r ∈ runners ∧ r.isDeleting = false ∧ r.IsIdle ∧
        r.status.runnerId = runnerId ∧ ∀ set, firstRead t = some set → ¬ Settled set runners) ∧
    (deletedNames t).Nodup := by
  have hlawful : ∀ {before e after}, t = before ++ e :: after → Lawful key before e.call :=
    fun hsplit => (meets_pass_lawful suffix key).permits_of_trace ht hpossible hsplit
  refine ⟨?_, ?_, ?_⟩
  · intro before owner name answer after hsplit
    obtain ⟨howner, -, set, runners, hu, r, hr, hname, hdeletable⟩ := hlawful hsplit
    have hall : Underway set runners t := hsplit ▸ hu.append _
    refine ⟨howner, runners, r, hall.listed, hr, hname, hdeletable, ?_⟩
    intro set' hset' hsettled
    rcases hdeletable.2 with hover | ⟨-, earlier, rfl⟩
    · exact hover
    · -- the removal of the registration was not lawful in a settled fleet
      rw [List.append_assoc] at hsplit
      obtain ⟨set'', runners'', hu'', hunsettled, -⟩ := hlawful hsplit
      obtain ⟨rfl, rfl⟩ := (hsplit ▸ hu''.append _ : Underway set'' runners'' t).unique hall
      obtain rfl : set'' = set' := Option.some.inj (hall.read.symm.trans hset')
      exact absurd hsettled hunsettled
  · intro runnerId answer hmem
    obtain ⟨before, after, hsplit⟩ := List.append_of_mem hmem
    obtain ⟨set, runners, hu, hunsettled, r, hr, hdeleting, hidle, hid⟩ := hlawful hsplit
    have hall : Underway set runners t := hsplit ▸ hu.append _
    refine ⟨runners, r, hall.listed, hr, hdeleting, hidle, hid, ?_⟩
    intro set' hset'
    obtain rfl : set = set' := Option.some.inj (hall.read.symm.trans hset')
    exact hunsettled
  · refine nodup_filterMap ?_
    rintro before ⟨c, answer⟩ after name hsplit hname
    cases c with
    | deleteRunner owner deleted =>
        obtain rfl : deleted = name := Option.some.inj hname
        exact (hlawful hsplit).2.1
    | _ => cases hname

/-- An environment with a set that asks for no runner, and has an idle one and one that is over. -/
def crowded : Environment where
  store := Store.ofOperations
    [.createSet (RunnerSet.create "ns" "set" { image := "image" }),
      .setSetFinalizers "ns/set" [RunnerSet.finalizer],
      .createRunner (newRunner (RunnerSet.create "ns" "set" { image := "image" }) "a"),
      .createRunner (newRunner (RunnerSet.create "ns" "set" { image := "image" }) "b"),
      .updateRunnerStatus "ns/set" "set-runner-a" { phase := .running, runnerId := 7 },
      .updateRunnerStatus "ns/set" "set-runner-b" { phase := .succeeded },
      .patchSpec "ns/set" 0 5]
  service := fun _ => .ok ()
  stamps := fun _ => Stamp.sample

/-- In the crowded environment a pass deletes the runner that is over, and then the idle one. -/
theorem deletions_in_crowded :
    let t := (pass toString "ns/set").exchanges Environment.answer crowded
    deletedNames t = ["set-runner-b", "set-runner-a"] ∧ (deletedNames t).Nodup ∧
      ∀ before owner name answer after,
        t = before ++ ⟨.deleteRunner owner name, answer⟩ :: after →
          ∃ runners r, firstListing t = some runners ∧ r ∈ runners ∧ r.name = name ∧
            Deletable r before := by
  obtain ⟨hdeleted, -, hnodup⟩ := deletions_are_safe
    (trace_exchanges Environment.answer (pass toString "ns/set") crowded)
    (possible_exchanges (pass toString "ns/set") (Store.reachable_ofOperations _))
  refine ⟨by decide +kernel, hnodup, ?_⟩
  intro before owner name answer after hsplit
  obtain ⟨-, runners, r, hlisted, hr, hname, hdeletable, -⟩ :=
    hdeleted before owner name answer after hsplit
  exact ⟨runners, r, hlisted, hr, hname, hdeletable⟩

end Reconcile
end RunnerFleet
