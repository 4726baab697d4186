import Mathlib.Data.List.Infix
import RunnerFleet.Proofs.Daemon.Origins
import RunnerFleet.Proofs.Reconcile.Creation
import RunnerFleet.Proofs.Reconcile.Scene
import RunnerFleet.Proofs.Resource.Spelling
import RunnerFleet.Proofs.Store.Custody

/-!
# A fleet that was filled up in part

A pass that lacks runners may be able to create only some of them.  Those bear the id of the
decision, and so later passes take the decision for carried out: as long as one of them is stored,
and nobody creates runners that bear later ids, no pass creates or reclaims any for it.  What the
runners are doing by then does not matter.

Main results:

- `Bears.step`: what a pass has created bears the id of its decision for as long as it is stored.
- `Waits.step`: passes wait as long as one of these runners is stored.
- `partial_growth_waits`: what a pass that lacks runners creates and reports, and what later passes
  do about the runners that could not be created.
-/

namespace RunnerFleet

namespace Store

/-- A listed runner was listed before, or the operation has created it. -/
theorem mem_runnersOf_perform {s : Store} (hs : s.Keyed) {stamp : Stamp} {op : Operation}
    {key : String} {r : Runner} (h : r ∈ (s.perform stamp op).store.runnersOf key) :
    (∃ old ∈ s.runnersOf key, Akin r old) ∨
      ∃ new, op = .createRunner new ∧ r = created stamp new ∧ op.Populates key := by
  obtain ⟨howner, hget⟩ := (hs.perform stamp op).mem_runnersOf.1 h
  rw [getRunner_perform] at hget
  rcases onRunner_cases hget with ⟨old, hold, hakin⟩ | ⟨-, new, rfl, rfl, -⟩
  · refine Or.inl ⟨old, hs.mem_runnersOf.2 ⟨hakin.owner.symm.trans howner, ?_⟩, hakin⟩
    rw [← hakin.name]
    exact hold
  · exact Or.inr ⟨new, rfl, rfl, howner⟩

end Store

namespace Reconcile

open Program Store

/-- A runner that is listed after a call was listed before, or the call has created it. -/
theorem Call.Answered.mem_runnersOf {c : Call} {s after : Store} {answer : c.Answer}
    (h : c.Answered s answer after) (hs : s.Keyed) {key : String} {r : Runner}
    (hr : r ∈ after.runnersOf key) :
    (∃ old ∈ s.runnersOf key, Akin r old) ∨
      ∃ new stamp, c = .createRunner new ∧ r = Store.created stamp new := by
  rcases h.store with rfl | ⟨op, stamp, hop, rfl⟩
  · exact Or.inl ⟨r, hr, .refl r⟩
  · rcases mem_runnersOf_perform hs hr with hold | ⟨new, rfl, rfl, -⟩
    · exact Or.inl hold
    · refine Or.inr ⟨new, stamp, ?_, rfl⟩
      cases c <;> cases hop
      rfl

/-- Whatever a pass does after its reads, it creates runners for the set that it has read. -/
theorem uses_proceed_newRunner (suffix : Nat → String) (set : RunnerSet) (runners : List Runner) :
    (proceed suffix set runners).Uses
      fun c => ∀ r, c = .createRunner r → ∃ text, r = newRunner set text := by
  rw [proceed]
  split
  · refine (uses_converge set suffix runners).mono ?_
    rintro c (_ | ⟨text, -⟩ | _ | _ | _) r hr <;> cases hr
    exact ⟨text, rfl⟩
  · exact uses_drain set (by simp) (by simp)
  · exact uses_bind (uses_call (by simp)) fun _ => trivial

/-- The runners that a pass has created were made for the set that it has read. -/
theorem Midway.newRunner {suffix : Nat → String} {key : String} {calls : List Exchange}
    {q : Program (Except Error Unit)} (h : Midway suffix key calls q) {r : Runner}
    {answer : (Call.createRunner r).Answer}
    (hr : (⟨.createRunner r, answer⟩ : Exchange) ∈ calls) :
    ∃ set text, firstRead calls = some set ∧ r = Reconcile.newRunner set text := by
  cases h with
  | opening | unread | missing | released | listing | unlisted => simp at hr
  | @adding set rest _ _ _ follows =>
      have hnone : ∀ e ∈ rest, e.call.CreatesNone :=
        (follows.uses ⟨fun _ => nofun, fun _ => trivial⟩).1
      rcases List.mem_cons.1 hr with heq | hr
      · cases heq
      · exact absurd rfl (hnone _ hr r)
  | @acting set runners rest _ _ follows =>
      have hmade := (follows.uses (uses_proceed_newRunner suffix set runners)).1
      rcases List.mem_cons.1 hr with heq | hr
      · cases heq
      rcases List.mem_cons.1 hr with heq | hr
      · cases heq
      obtain ⟨text, rfl⟩ := hmade _ hr r rfl
      exact ⟨set, text, rfl, rfl⟩

namespace Scene

/-- Somebody else creates a runner for a set. -/
def Event.Populates (key : String) : Event → Prop
  | .other _ op => op.Populates key
  | _ => False

/-! ## What a pass has created -/

/-- The runners that the latest pass has created bear the id that they were made for, as long as
they are stored. -/
def Bears (key : String) (sc : Scene) : Prop :=
  ∀ r new, (⟨.createRunner r, .ok new⟩ : Exchange) ∈ sc.calls →
    ∀ stored ∈ sc.store.runnersOf key, stored.name = r.name → stored.patchId = r.patchId

/-- All runners that a pass creates bear the same id, and are runners of its set. -/
theorem Sound.of_creation {key : String} {sc : Scene} (h : sc.Sound key) {r : Runner}
    {answer : (Call.createRunner r).Answer}
    (hr : (⟨.createRunner r, answer⟩ : Exchange) ∈ sc.calls) :
    ∃ set text, firstRead sc.calls = some set ∧ set.key = key ∧ r = newRunner set text := by
  obtain ⟨suffix, q, hleads, -⟩ := h.leads
  obtain ⟨set, text, hread, rfl⟩ := (midway_of_leads hleads).newRunner hr
  exact ⟨set, text, hread, h.key_of_firstRead hread, rfl⟩

/-- Runners that are made for one set bear the same id. -/
theorem patchId_newRunner_eq (set : RunnerSet) (text text' : String) :
    (newRunner set text).patchId = (newRunner set text').patchId := by
  rw [Daemon.patchId_newRunner, Daemon.patchId_newRunner]

/-- What a pass has created bears the id of its decision for as long as it is stored. -/
theorem Bears.step {key : String} {sc : Scene} (h : sc.Bears key) (hs : sc.Sound key)
    {event : Event} (hevent : ¬ event.Populates key) : (sc.step key event).Bears key := by
  have hsound := hs.step event
  have hnext := next_step key sc event
  generalize sc.step key event = after at hnext hsound
  cases hnext with
  | idle => exact h
  | other stamp op =>
      intro r new hr stored hstored hname
      rcases mem_runnersOf_perform hs.reached.keyed hstored with
        ⟨old, hold, hakin⟩ | ⟨_, -, -, hpopulates⟩
      · rw [hakin.patchId]
        exact h r new hr old hold (hakin.name.symm.trans hname)
      · exact absurd hpopulates hevent
  | begin suffix free => exact fun r new hr => absurd hr List.not_mem_nil
  | @answer _ c next answer after hpass hanswered =>
      intro r new hr stored hstored hname
      rcases hanswered.mem_runnersOf hs.reached.keyed hstored with
        ⟨old, hold, hakin⟩ | ⟨made, stamp, rfl, rfl⟩
      · rw [hakin.patchId]
        rcases List.mem_append.1 hr with hr | hr
        · exact h r new hr old hold (hakin.name.symm.trans hname)
        · -- where a runner was just created, there was none before
          cases List.mem_singleton.1 hr
          obtain ⟨set, text, -, rfl, rfl⟩ :=
            hsound.of_creation (List.mem_append_right _ List.mem_cons_self)
          obtain ⟨hnone, -⟩ := hanswered.createRunner (newRunner_ownerKey set text)
          have hget := (hs.reached.keyed.mem_runnersOf.1 hold).2
          rw [← hakin.name, hname, hnone] at hget
          cases hget
      · -- the runner was just created, for the same set as those before it
        obtain ⟨set, text, hread, -, rfl⟩ := hsound.of_creation hr
        obtain ⟨set', text', hread', -, rfl⟩ :=
          hsound.of_creation (List.mem_append_right _ List.mem_cons_self)
        obtain rfl := Option.some.inj (hread.symm.trans hread')
        exact patchId_newRunner_eq set text' text
  | abandon => exact h

end Scene

/-! ## Waiting -/

/-- The call neither creates a runner nor reclaims one. -/
def Call.LeavesSize (c : Call) : Prop :=
  (∀ r, c ≠ .createRunner r) ∧ ∀ runnerId, c ≠ .deregister runnerId

/-- Once its decision counts as carried out, a live set gets no runners and loses none but those
that are over. -/
theorem uses_proceed_leavesSize (suffix : Nat → String) {set : RunnerSet} {runners : List Runner}
    (hlive : set.metadata.isDeleting = false)
    (hadopted : (Fleet.classify runners).isAdopted set.spec.patchId = true) :
    (proceed suffix set runners).Uses Call.LeavesSize := by
  have hgap : gap set (Fleet.classify runners) = .nothing := by rw [gap, if_pos hadopted]
  rw [proceed_of_live suffix hlive, converge]
  refine uses_bind (uses_cleanup (by simp [Call.LeavesSize])) fun _ => ?_
  refine uses_bind (by rw [closeGap, hgap]; exact trivial) fun _ => ?_
  refine uses_bind (uses_review set (by simp [Call.LeavesSize]) _ _) fun _ => ?_
  exact uses_bind (uses_writeStatus set (by simp [Call.LeavesSize]) _) fun _ => trivial

namespace Scene

/-- The set is stored, live and asked for the same, and one of these runners is stored. -/
def Stays (key : String) (spec : RunnerSetSpec) (made : List Runner) (sc : Scene) : Prop :=
  (∃ set ∈ sc.store.getSet key, set.metadata.isDeleting = false ∧ set.spec = spec) ∧
    ∃ r ∈ sc.store.runnersOf key, ∃ new ∈ made, r.name = new.name

instance (key : String) (spec : RunnerSetSpec) (made : List Runner) (sc : Scene) :
    Decidable (sc.Stays key spec made) :=
  inferInstanceAs (Decidable (_ ∧ _))

/-- No runner bears a later id than that of the decision, these runners bear this one, and a pass
in progress goes by nothing else. -/
structure Waits (key : String) (spec : RunnerSetSpec) (made : List Runner) (sc : Scene) :
    Prop where
  notLater : ∀ r ∈ sc.store.runnersOf key, ∀ id, r.patchId = some id → id ≤ spec.patchId
  bears : ∀ r ∈ sc.store.runnersOf key, ∀ new ∈ made, r.name = new.name →
    r.patchId = some spec.patchId
  read : sc.InProgress → ∀ read, firstRead sc.calls = some read →
    read.metadata.isDeleting = false ∧ read.spec = spec
  listed : sc.InProgress → ∀ runners, firstListing sc.calls = some runners →
    (Fleet.classify runners).isAdopted spec.patchId = true

variable {key : String} {spec : RunnerSetSpec} {made : List Runner} {sc : Scene}

/-- A pass that waits neither creates runners nor reclaims any. -/
theorem Waits.leavesSize (h : sc.Waits key spec made) (hs : sc.Sound key) {c : Call}
    {next : c.Answer → Program (Except Error Unit)} (hpass : sc.pass = some (.call c next)) :
    c.LeavesSize := by
  have hread := h.read ⟨c, next, hpass⟩
  have hlisted := h.listed ⟨c, next, hpass⟩
  obtain ⟨suffix, hmidway⟩ := hs.midway hpass
  have hdue := hmidway.due
  generalize sc.calls = calls at hdue hread hlisted
  cases hdue with
  | reading | adding | listing => exact ⟨fun _ => nofun, fun _ => nofun⟩
  | @acting set runners rest _ _ _ follows =>
      obtain ⟨hlive, rfl⟩ := hread set rfl
      exact (follows.uses (uses_proceed_leavesSize suffix hlive (hlisted runners rfl))).2.1

/-- Where one of these runners is listed, the decision counts as carried out. -/
theorem Waits.isAdopted (h : sc.Waits key spec made) (hstays : sc.Stays key spec made) :
    (Fleet.classify (sc.store.runnersOf key)).isAdopted spec.patchId = true := by
  obtain ⟨-, r, hr, new, hnew, hname⟩ := hstays
  exact Fleet.isAdopted_classify_iff.2 ⟨⟨r, hr, h.bears r hr new hnew hname⟩, h.notLater⟩

/-- As long as one of these runners is stored, passes wait. -/
theorem Waits.step (h : sc.Waits key spec made) (hs : sc.Sound key)
    (hstays : sc.Stays key spec made) {event : Event} (hevent : ¬ event.Populates key) :
    (sc.step key event).Waits key spec made := by
  have hakin : ∀ after : Store,
      (∀ r ∈ after.runnersOf key, ∃ old ∈ sc.store.runnersOf key, Akin r old) →
      (∀ r ∈ after.runnersOf key, ∀ id, r.patchId = some id → id ≤ spec.patchId) ∧
        ∀ r ∈ after.runnersOf key, ∀ new ∈ made, r.name = new.name →
          r.patchId = some spec.patchId := by
    intro after hold
    refine ⟨fun r hr id hid => ?_, fun r hr new hnew hname => ?_⟩
    · obtain ⟨old, hold, hakin⟩ := hold r hr
      exact h.notLater old hold id (hakin.patchId ▸ hid)
    · obtain ⟨old, hold, hakin⟩ := hold r hr
      rw [hakin.patchId]
      exact h.bears old hold new hnew (hakin.name.symm.trans hname)
  have hnext := next_step key sc event
  generalize sc.step key event = after at hnext
  cases hnext with
  | idle => exact h
  | other stamp op =>
      obtain ⟨hnotLater, hbears⟩ := hakin (sc.store.perform stamp op).store fun r hr => by
        rcases mem_runnersOf_perform hs.reached.keyed hr with hold | ⟨_, -, -, hpopulates⟩
        · exact hold
        · exact absurd hpopulates hevent
      exact ⟨hnotLater, hbears, h.read, h.listed⟩
  | begin suffix free => exact ⟨h.notLater, h.bears, fun _ _ => nofun, fun _ _ => nofun⟩
  | @answer _ c next answer after hpass hanswered =>
      obtain ⟨hcreates, -⟩ := h.leavesSize hs hpass
      obtain ⟨hnotLater, hbears⟩ := hakin after fun r hr => by
        rcases hanswered.mem_runnersOf hs.reached.keyed hr with hold | ⟨new, -, rfl, -⟩
        · exact hold
        · exact absurd rfl (hcreates new)
      refine ⟨hnotLater, hbears, fun _ read hread => ?_, fun _ runners hlisted => ?_⟩
      · rcases hs.firstRead_answer hpass hanswered hread with hbefore | ⟨-, hfound⟩
        · exact h.read ⟨c, next, hpass⟩ read hbefore
        · obtain ⟨⟨set, hset, hasked⟩, -⟩ := hstays
          obtain rfl : read = set := Option.some.inj (hfound.symm.trans hset)
          exact hasked
      · rcases hs.firstListing_answer hpass hanswered hlisted with hbefore | ⟨-, rfl⟩
        · exact h.listed ⟨c, next, hpass⟩ runners hbefore
        · exact h.isAdopted hstays
  | abandon =>
      exact ⟨h.notLater, h.bears, (fun ⟨_, _, hpass⟩ => nomatch hpass),
        fun ⟨_, _, hpass⟩ => nomatch hpass⟩

/-! ## The pass and what comes after it -/

/-- The latest pass is over, and has found that a live set lacks runners for a decision that does
not count as carried out. -/
structure Fills (sc : Scene) (set : RunnerSet) (runners : List Runner)
    (result : Except Error Unit) : Prop where
  ended : sc.pass = some (.done result)
  read : firstRead sc.calls = some set
  listed : firstListing sc.calls = some runners
  live : set.metadata.isDeleting = false
  unadopted : (Fleet.classify runners).isAdopted set.spec.patchId = false
  lacking : (Fleet.classify runners).scaleTotal < set.spec.replicas

/-- A pass that finds runners missing asks for all of them, and reports those not created. -/
theorem Fills.creations {sc : Scene} {set : RunnerSet} {runners : List Runner}
    {result : Except Error Unit} (h : sc.Fills set runners result) (hs : sc.Sound key) :
    (∃ suffix : Nat → String, creations sc.calls =
      (List.range (set.spec.replicas - (Fleet.classify runners).scaleTotal)).map
        fun i => newRunner set (suffix i)) ∧
    (reported result).filter Error.isCreation = sc.calls.filterMap Exchange.creationError? := by
  obtain ⟨suffix, q, hleads, hq⟩ := hs.leads
  obtain rfl := hq _ h.ended
  refine ⟨⟨suffix, ?_⟩, ?_⟩
  · obtain ⟨-, hread, hlisted, hlive, hunadopted, hlacking⟩ := h
    have hmidway := midway_of_leads hleads
    generalize hp : (done result : Program (Except Error Unit)) = p at hmidway
    generalize sc.calls = calls at hmidway hread hlisted
    cases hmidway with
    | opening | unread | missing | released | listing | unlisted => cases hlisted
    | adding _ _ follows =>
        subst hp
        obtain ⟨answer, rfl, -⟩ := leads_call_done.1 follows
        cases hlisted
    | @acting _ _ rest _ _ follows =>
        subst hp
        cases hread
        cases hlisted
        rw [proceed_of_live suffix hlive] at follows
        change Reconcile.creations rest = _
        exact creations_converge follows (gap_eq_missing hunadopted hlacking)
  · obtain ⟨errors, haccounts, rfl⟩ := collects_pass hleads
    rw [reported_collect haccounts, haccounts.creationErrors]

/-- A runner that was created for a set whose id fits into 64 bits bears this id. -/
theorem patchId_of_creation {sc : Scene} (hs : sc.Sound key) {set : RunnerSet} {r : Runner}
    {answer : (Call.createRunner r).Answer} (hread : firstRead sc.calls = some set)
    (hid : IsInt64 set.spec.patchId)
    (hr : (⟨.createRunner r, answer⟩ : Exchange) ∈ sc.calls) :
    r.ownerKey = some key ∧ r.patchId = some set.spec.patchId ∧ r.status = {} := by
  obtain ⟨set', text, hread', rfl, rfl⟩ := hs.of_creation hr
  obtain rfl := Option.some.inj (hread.symm.trans hread')
  exact ⟨newRunner_ownerKey set text, (Daemon.patchId_newRunner set text).trans (if_pos hid), rfl⟩

/-- When a pass is over, and no runner bears a later id than that of its decision, passes wait. -/
theorem Fills.waits {sc : Scene} {set : RunnerSet} {runners : List Runner}
    {result : Except Error Unit} (h : sc.Fills set runners result) (hs : sc.Sound key)
    (hbears : sc.Bears key) (hid : IsInt64 set.spec.patchId)
    (hnotLater : ∀ r ∈ sc.store.runnersOf key, ∀ id, r.patchId = some id →
      id ≤ set.spec.patchId) :
    sc.Waits key set.spec (sc.calls.filterMap Exchange.created?) where
  notLater := hnotLater
  bears := by
    intro stored hstored new hnew hname
    obtain ⟨e, he, hcreated⟩ := List.mem_filterMap.1 hnew
    obtain ⟨r, rfl⟩ := Exchange.of_created? hcreated
    obtain ⟨howner, hpatch, -⟩ := patchId_of_creation hs h.read hid he
    obtain ⟨s, after, hreached, hanswered⟩ := hs.possible _ he
    obtain ⟨-, hakin, -⟩ := hanswered.created howner hreached.keyed
    rw [hbears r new he stored hstored (hname.trans hakin.name), hpatch]
  read := by
    rintro ⟨c, next, hpass⟩
    cases h.ended.symm.trans hpass
  listed := by
    rintro ⟨c, next, hpass⟩
    cases h.ended.symm.trans hpass

/-- A pass over a live set that lacks runners for a decision which does not count as carried out
asks for exactly as many as are missing, whatever becomes of the first ones, and reports each that
is not created.  Each that is created is listed at that moment, bears the id of the decision, and is
pending, unregistered and without a job.  Suppose that since a moment before the pass others have
created no runners of the set, and that after the pass no runner bears a later id.  Then, as long as
the set is live and asked for the same, and one of the runners that the pass has created is stored,
no later pass creates a runner or reclaims one. -/
theorem partial_growth_waits (key : String) (before during : List Event) (set : RunnerSet)
    (runners : List Runner) (result : Except Error Unit)
    (hunread : (run key before).calls = [])
    (hfills : (run key (before ++ during)).Fills set runners result)
    (hid : IsInt64 set.spec.patchId) :
    (∃ suffix : Nat → String, Reconcile.creations (run key (before ++ during)).calls =
      (List.range (set.spec.replicas - (Fleet.classify runners).scaleTotal)).map
        fun i => newRunner set (suffix i)) ∧
    (reported result).filter Error.isCreation =
      (run key (before ++ during)).calls.filterMap Exchange.creationError? ∧
    (∀ r new, (⟨.createRunner r, .ok new⟩ : Exchange) ∈ (run key (before ++ during)).calls →
      ∃ earlier event later, before ++ during = earlier ++ event :: later ∧
        new ∈ (run key (earlier ++ [event])).store.runnersOf key ∧
        new.patchId = some set.spec.patchId ∧ new.status.phase = .pending ∧
        new.isRegistered = false ∧ new.hasJob = false) ∧
    ∀ after, (∀ event ∈ during ++ after, ¬ event.Populates key) →
      (∀ r ∈ (run key (before ++ during)).store.runnersOf key, ∀ id, r.patchId = some id →
        id ≤ set.spec.patchId) →
      (∀ first, first <+: after → (run key (before ++ during ++ first)).Stays key set.spec
        ((run key (before ++ during)).calls.filterMap Exchange.created?)) →
      ∀ c next, (run key (before ++ during ++ after)).pass = some (.call c next) →
        c.LeavesSize := by
  have hs := sound_run key (before ++ during)
  obtain ⟨hcreations, herrors⟩ := hfills.creations hs
  refine ⟨hcreations, herrors, ?_, ?_⟩
  · intro r new hmem
    obtain ⟨earlier, event, later, hsplit, hanswered⟩ := exists_moment hmem
    obtain ⟨howner, hpatch, hstatus⟩ := patchId_of_creation hs hfills.read hid hmem
    obtain ⟨hlisted, hakin, hsame⟩ :=
      hanswered.created howner (sound_run key earlier).reached.keyed
    refine ⟨earlier, event, later, hsplit, hlisted, hakin.patchId.trans hpatch, ?_⟩
    rw [Runner.isRegistered, Runner.hasJob, hsame, hstatus]
    exact ⟨rfl, rfl, rfl⟩
  · intro after hothers hnotLater hstays c next hpass
    have hbears : (run key (before ++ during)).Bears key := by
      rw [run_append]
      refine (sound_run key before).keeps (fun _ _ hs hkept (_ : True) => hkept.step hs) ?_
        (fun _ _ => trivial) fun event he => hothers event (List.mem_append_left _ he)
      exact fun r new hr => absurd (hunread ▸ hr) List.not_mem_nil
    have hwaits : (run key (before ++ during ++ after)).Waits key set.spec
        ((run key (before ++ during)).calls.filterMap Exchange.created?) := by
      rw [run_append key (before ++ during) after]
      refine hs.keeps (fun _ _ hs hkept hnow => hkept.step hs hnow)
        (hfills.waits hs hbears hid hnotLater) (fun first hfirst => ?_)
        fun event he => hothers event (List.mem_append_right _ he)
      rw [← run_append]
      exact hstays first hfirst
    exact hwaits.leavesSize (sound_run key _) hpass

/-- A set that asks for three runners by a decision with a negative id. -/
def threeWanted : RunnerSet where
  metadata := { name := "set", namespaceName := "ns", finalizers := [RunnerSet.finalizer] }
  spec := { replicas := 3, patchId := -4, template := { image := "image" } }

/-- The set is stored. -/
def storing : List Event :=
  [.other Stamp.sample (.createSet threeWanted)]

/-- Of three runners the second one is not created. -/
def growing : List Event :=
  [.begin toString, serve, serve, serve, .fail ⟨.transaction, "interrupted"⟩, serve, serve, serve]

/-- A runner reports success, and the next pass deletes it. -/
def settling : List Event :=
  [.other Stamp.sample (.updateRunnerStatus "ns/set" "set-runner-0" { phase := .succeeded }),
    .begin toString, serve, serve, serve, serve]

/-- The next pass makes another call, but for none of the two runners that are missing by then. -/
theorem growing_waits :
    (run "ns/set" (storing ++ growing)).Fills (Store.created Stamp.sample threeWanted) []
      (.error (.createRunner "ns/set" ⟨.transaction, "interrupted"⟩)) ∧
    (Reconcile.creations (run "ns/set" (storing ++ growing)).calls).length = 3 ∧
    (∃ new, (⟨.createRunner (newRunner (Store.created Stamp.sample threeWanted) "2"), .ok new⟩ :
      Exchange) ∈ (run "ns/set" (storing ++ growing)).calls ∧ new.patchId = some (-4)) ∧
    (run "ns/set" (storing ++ growing ++ settling)).store.runnersOf "ns/set" ≠ [] ∧
    ∃ c next, (run "ns/set" (storing ++ growing ++ settling)).pass = some (.call c next) ∧
      c.LeavesSize := by
  have hfills : (run "ns/set" (storing ++ growing)).Fills (Store.created Stamp.sample threeWanted)
      [] (.error (.createRunner "ns/set" ⟨.transaction, "interrupted"⟩)) :=
    ⟨rfl, rfl, rfl, rfl, rfl, by decide⟩
  obtain ⟨⟨suffix, hcreations⟩, -, hmade, hwaits⟩ :=
    partial_growth_waits "ns/set" storing growing _ _ _ rfl hfills (by decide)
  have hcreated : (⟨.createRunner (newRunner (Store.created Stamp.sample threeWanted) "2"),
      .ok (Store.created Stamp.sample (newRunner (Store.created Stamp.sample threeWanted) "2"))⟩ :
      Exchange) ∈ (run "ns/set" (storing ++ growing)).calls :=
    List.mem_of_getElem? (i := 4) rfl
  refine ⟨hfills, ?_, ⟨_, hcreated, ?_⟩, by decide +kernel, ?_⟩
  · rw [hcreations, List.length_map, List.length_range]
    rfl
  · obtain ⟨_, _, _, -, -, hpatch, -⟩ := hmade _ _ hcreated
    exact hpatch
  · refine ⟨_, _, rfl, hwaits settling ?_ ?_ (fun first hfirst => ?_) _ _ rfl⟩
    · intro event hevent
      simp only [growing, settling, serve, List.cons_append, List.nil_append, List.mem_cons,
        List.not_mem_nil, or_false] at hevent
      rcases hevent with rfl | rfl | rfl | rfl | rfl | rfl | rfl | rfl | rfl | rfl | rfl | rfl |
        rfl | rfl <;> exact id
    · have hall : ∀ r ∈ (run "ns/set" (storing ++ growing)).store.runnersOf "ns/set",
          r.patchId = some (-4) := by
        decide +kernel
      intro r hr id hid
      exact Int.le_of_eq (Option.some.inj (hid.symm.trans (hall r hr)))
    · have hall : ∀ first ∈ settling.inits, (run "ns/set" (storing ++ growing ++ first)).Stays
          "ns/set" threeWanted.spec
          ((run "ns/set" (storing ++ growing)).calls.filterMap Exchange.created?) := by
        decide +kernel
      exact hall first ((List.mem_inits first settling).2 hfirst)

end Scene
end Reconcile
end RunnerFleet
