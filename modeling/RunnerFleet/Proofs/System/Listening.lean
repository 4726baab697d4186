import Mathlib.Data.List.Infix
import Mathlib.Data.List.Induction
import RunnerFleet.Proofs.Daemon.Lifetimes
import RunnerFleet.Proofs.Store.Places
import RunnerFleet.Proofs.Store.Spec
import RunnerFleet.Proofs.System.Orphans

/-!
# A listener that goes by what it wrote last

A listener does not write a decision again that it wrote last.  It goes by its own memory and does
not look at the store.  This is sound while its runner set stays where it is: requests and passes
never say how many runners a stored set shall have, so that the last decision is still on the set.
A set that was removed and stored anew asks for what its creator says; the listener takes no notice,
and answers with a decision that is not stored.

Main results:

- `take_cases`: what comes of a report.
- `step_store_cases`: what others make of the set between two reports.
- `stored_of_applied`: the decision written last is on the set for as long as the set is stored.
- `skipped_write_unobservable`: a decision that the listener answers with is stored.
- `recreated_set_overlooked`: it may not be stored after the set was removed and stored anew.
-/

namespace RunnerFleet

open Reconcile Scaling Store

/-- Everything that writes to one store, and the listener of one runner set. -/
structure Listening where
  sys : System
  listener : Listener

namespace Listening

/-- What may happen next. -/
inductive Event where
  /-- The listener takes a report; its write fails if there is an error. -/
  | report (stamp : Stamp) (batch : JobBatch) (fault : Option Store.Error)
  /-- Something else happens. -/
  | other (event : System.Event)

/-- It is not that somebody else writes a decision to the set. -/
def Event.SparesSpec (key : String) : Event → Prop
  | .other (.decide _ k _) => k ≠ key
  | _ => True

/-- The store. -/
def store (l : Listening) : Store :=
  l.sys.api.store

/-- The same with another store and another listener. -/
def withStore (l : Listening) (store : Store) (listener : Listener) : Listening :=
  { sys := { l.sys with api := { l.sys.api with store } }, listener }

/-- The listener takes a report, and answers. -/
def take (key : String) (l : Listening) (stamp : Stamp) (batch : JobBatch)
    (fault : Option Store.Error) : Except Store.Error ScalePatch × Listening :=
  let write := Daemon.Lives.write key stamp fault
  let ((answer, listener), store) := ((l.listener.process write batch).run l.store).run
  (answer, l.withStore store listener)

/-- What becomes of everything when something happens. -/
def step (key : String) (l : Listening) : Event → Listening
  | .report stamp batch fault => (l.take key stamp batch fault).2
  | .other event => { l with sys := l.sys.step event }

/-- Everything after these events, from an empty store and a new listener. -/
def run (key : String) (bounds : Bounds) (events : List Event) : Listening :=
  events.foldl (step key) { sys := { api := {} }, listener := { bounds } }

theorem run_append (key : String) (bounds : Bounds) (events : List Event) (event : Event) :
    run key bounds (events ++ [event]) = (run key bounds events).step key event := by
  simp [run, List.foldl_append]

@[simp]
theorem store_withStore (l : Listening) (store : Store) (listener : Listener) :
    (l.withStore store listener).store = store :=
  rfl

@[simp]
theorem listener_withStore (l : Listening) (store : Store) (listener : Listener) :
    (l.withStore store listener).listener = listener :=
  rfl

/-- The set asks for what the decision says. -/
def Carries (set : RunnerSet) (p : ScalePatch) : Prop :=
  set.spec.replicas = p.replicas ∧ set.spec.patchId = p.patchId

/-! ## Writing a decision -/

section Patch

/-- The set after one more write that changed nothing else. -/
def newVersion (set : RunnerSet) : RunnerSet :=
  mapMetadata set fun m => { m with resourceVersion := m.resourceVersion + 1 }

/-- A change that leaves a set held, if its removal was requested, leaves it in its table. -/
theorem changed?_of_held {change : RunnerSet → RunnerSet} {old : RunnerSet}
    (h : (change old).metadata.Held) : changed? change old = some (newVersion (change old)) := by
  have hkept : ((change old).metadata.isDeleting && (change old).metadata.finalizers.isEmpty) =
      false := by
    by_cases hdeleting : (change old).metadata.isDeleting = true
    · simp [h.finalizers hdeleting]
    · simp [hdeleting]
  have hversion : ((newVersion (change old)).metadata.isDeleting &&
      (newVersion (change old)).metadata.finalizers.isEmpty) = false := hkept
  exact if_neg (Bool.eq_false_iff.1 hversion)

variable {s : Store} {key : String} {stamp : Stamp} {p : ScalePatch}

/-- A decision that was accepted is on the set. -/
theorem carries_of_patchSpec {answer : RunnerSet}
    (h : (s.perform stamp (.patchSpec key p.replicas p.patchId)).result = .ok answer)
    (hs : s.Sound) :
    ∃ set, (s.perform stamp (.patchSpec key p.replicas p.patchId)).store.getSet key = some set ∧
      Carries set p := by
  have hrequest : (Operation.patchSpec key p.replicas p.patchId).request =
      some (.change, .sets key) := rfl
  obtain ⟨-, hshown, -⟩ := (perform_acts hs stamp hrequest).of_ok h
  have hset : (s.perform stamp (.patchSpec key p.replicas p.patchId)).store.getSet key =
      some answer :=
    Option.map_injective (fun _ _ => Object.set.inj) hshown.symm
  refine ⟨answer, hset, replicas_of_patchSpec hset, ?_⟩
  rw [getSet_perform, Operation.onSet, if_pos rfl] at hset
  obtain ⟨old, -, hnew⟩ := Option.bind_eq_some_iff.1 hset
  rw [eq_of_changed? hnew]
  rfl

/-- Writing a decision that is on the set already changes the version of the set, and nothing
else. -/
theorem patchSpec_of_carries (hs : s.Sound) {set : RunnerSet} (hset : s.getSet key = some set)
    (hcarries : Carries set p) (stamp : Stamp) :
    (s.perform stamp (.patchSpec key p.replicas p.patchId)).store =
      { s with sets := s.sets.insert key (newVersion set) } := by
  have hsame : { set with spec := { set.spec with replicas := p.replicas, patchId := p.patchId } } =
      set := by
    rw [← hcarries.1, ← hcarries.2]
  have hpatched : changed? (fun set : RunnerSet =>
      { set with spec := { set.spec with replicas := p.replicas, patchId := p.patchId } }) set =
        some (newVersion set) := by
    rw [changed?_of_held (by simpa only [hsame] using hs.set set hset), hsame]
  refine ext_look fun place => ?_
  cases place with
  | sets k =>
      refine congrArg (Option.map Object.set) ((getSet_perform s stamp _ k).trans ?_)
      by_cases hk : k = key
      · subst hk
        simpa [Operation.onSet, hset] using hpatched
      · simp [Operation.onSet, hk, getSet]
  | runners k => exact congrArg (Option.map Object.runner) (getRunner_perform s stamp _ k)

end Patch

/-! ## What comes of a report -/

/-- What may come of a report: the decision is skipped, or written, or its write fails. -/
inductive Takes (key : String) (l : Listening) (stamp : Stamp) (d : ScalePatch) :
    Except Store.Error ScalePatch × Listening → Prop
  | skipped (happlied : l.listener.applied = some d) :
      Takes key l stamp d
        (.ok d, l.withStore l.store { l.listener with decision := some d })
  | written {answer : RunnerSet} (happlied : l.listener.applied ≠ some d)
      (hresult : (l.store.perform stamp (.patchSpec key d.replicas d.patchId)).result =
        .ok answer) :
      Takes key l stamp d
        (.ok d, l.withStore (l.store.perform stamp (.patchSpec key d.replicas d.patchId)).store
          { l.listener with decision := some d, applied := some d })
  | failed {e : Store.Error} (happlied : l.listener.applied ≠ some d) :
      Takes key l stamp d
        (.error e, l.withStore l.store { l.listener with decision := some d })

/-- A listener skips the decision that it wrote last, and tries to write every other one. -/
theorem take_cases (key : String) {l : Listening} (hs : l.store.Sound) (stamp : Stamp)
    (batch : JobBatch) (fault : Option Store.Error) :
    Takes key l stamp (l.listener.decisionFor batch) (l.take key stamp batch fault) := by
  unfold take
  dsimp only
  by_cases happlied : l.listener.applied = some (l.listener.decisionFor batch)
  · rw [Listener.process_of_applied _ happlied]
    exact .skipped happlied
  · rw [Listener.process_run, if_neg happlied]
    cases fault with
    | some e => exact .failed happlied
    | none =>
        have hrequest : (Operation.patchSpec key (l.listener.decisionFor batch).replicas
            (l.listener.decisionFor batch).patchId).request = some (.change, .sets key) := rfl
        have hacts := perform_acts hs stamp hrequest
        cases hresult : (l.store.perform stamp (.patchSpec key
            (l.listener.decisionFor batch).replicas
            (l.listener.decisionFor batch).patchId)).result with
        | ok answer =>
            simp only [Daemon.Lives.write, StateT.run, hresult]
            exact .written happlied hresult
        | error e =>
            -- what is stored is held, so that a refusal changes nothing
            simp only [Daemon.Lives.write, StateT.run, hresult, (hacts.of_error hresult).2.1]
            exact .failed happlied

/-! ## What others make of the set -/

/-- A change of a stored set by anybody but a listener leaves what is asked of it. -/
theorem spec_eq_of_onSet_some {op : Operation} {stamp : Stamp} {key : String} {old new : RunnerSet}
    (h : op.onSet stamp key (some old) = some new)
    (hpatch : ∀ replicas patchId, op ≠ .patchSpec key replicas patchId) : new.spec = old.spec := by
  by_cases hspec : op.Specifies key
  · cases op with
    | createSet set =>
        simp only [Operation.onSet, Option.getD_some, ite_self, Option.some.injEq] at h
        rw [h]
    | patchSpec k replicas patchId =>
        obtain rfl : k = key := hspec
        exact absurd rfl (hpatch replicas patchId)
    | _ => exact hspec.elim
  · obtain ⟨old', hold, hsame⟩ := spec_eq_of_onSet h hspec
    exact Option.some.inj hold ▸ hsame

/-- Somebody else carries out at most one operation, and no decision for the set. -/
theorem ne_patchSpec_of_does {key : String} {event : System.Event} {op : Operation}
    (hspares : (Event.other event).SparesSpec key) (h : event.Does op) :
    ∀ replicas patchId, op ≠ .patchSpec key replicas patchId := by
  rintro replicas patchId rfl
  cases h with
  | request hwrites =>
      obtain ⟨route, -, hwrites⟩ := hwrites
      cases hwrites
  | decide => exact hspares rfl
  | @serve _ _ _ c _ hcalls => cases c <;> cases hcalls

/-! ## The decision written last -/

section Memory

variable {key : String} {bounds : Bounds} {events : List Event} {p : ScalePatch}

/-- Whatever has happened, operations led to the store. -/
theorem reachable_run (key : String) (bounds : Bounds) (events : List Event) :
    (run key bounds events).store.Reachable := by
  induction events using List.reverseRecOn with
  | nil => exact .empty
  | append_singleton events event ih =>
      rw [run_append]
      cases event with
      | report stamp batch fault =>
          have htakes := take_cases key ih.sound stamp batch fault
          rw [step]
          generalize (run key bounds events).take key stamp batch fault = taken at htakes
          cases htakes with
          | skipped | failed => exact ih
          | written => exact ih.perform stamp _
      | other event =>
          change ((run key bounds events).sys.step event).api.store.Reachable
          rcases (run key bounds events).sys.step_store event with hsame | ⟨stamp, op, -, hdone⟩
          · rw [hsame]
            exact ih
          · rw [hdone]
            exact ih.perform stamp op

/-- As long as this decision was the one written last, the set was stored. -/
def Stays (key : String) (bounds : Bounds) (events : List Event) (p : ScalePatch) : Prop :=
  ∀ before, before <+: events → (run key bounds before).listener.applied = some p →
    ((run key bounds before).store.getSet key).isSome

/-- The decision that was written last is on the set, as long as the set is stored. -/
theorem stored_of_applied (hspares : ∀ event ∈ events, event.SparesSpec key)
    (happlied : (run key bounds events).listener.applied = some p)
    (hstays : Stays key bounds events p) :
    ∃ set, (run key bounds events).store.getSet key = some set ∧ Carries set p := by
  induction events using List.reverseRecOn with
  | nil => cases happlied
  | append_singleton events event ih =>
      have hbefore : (run key bounds events).listener.applied = some p →
          ∃ set, (run key bounds events).store.getSet key = some set ∧ Carries set p := by
        intro hearlier
        refine ih (fun e he => hspares e (List.mem_append_left _ he)) hearlier ?_
        exact fun before hpre => hstays before (hpre.trans (List.prefix_append _ _))
      obtain ⟨new, hnew⟩ := Option.isSome_iff_exists.1 (hstays _ (List.prefix_refl _) happlied)
      rw [run_append] at happlied hnew ⊢
      cases event with
      | report stamp batch fault =>
          have htakes := take_cases key (reachable_run key bounds events).sound stamp batch fault
          rw [step] at happlied ⊢
          generalize (run key bounds events).take key stamp batch fault = taken at htakes happlied
          cases htakes with
          | skipped | failed => exact hbefore happlied
          | written _ hresult =>
              obtain rfl := Option.some.inj happlied
              exact carries_of_patchSpec hresult (reachable_run key bounds events).sound
      | other event =>
          obtain ⟨set, hset, hcarries⟩ := hbefore happlied
          change (System.step _ event).api.store.getSet key = some new at hnew
          refine ⟨new, hnew, ?_⟩
          rcases (run key bounds events).sys.step_store event with hsame | ⟨stamp, op, hdoes, hdone⟩
          · rw [hsame] at hnew
            exact Option.some.inj (hset.symm.trans hnew) ▸ hcarries
          · rw [hdone, getSet_perform,
              show (run key bounds events).sys.api.store.getSet key = some set from hset] at hnew
            have hpatch := ne_patchSpec_of_does (hspares _ (by simp)) hdoes
            rw [Carries, spec_eq_of_onSet_some hnew hpatch]
            exact hcarries

end Memory

/-- A decision that the listener answers with is on its set at that moment, provided that the set
was stored ever since, if the decision was written before.  To write it again would change nothing
but the version of the set. -/
theorem skipped_write_unobservable {key : String} {bounds : Bounds} {events : List Event}
    (hspares : ∀ event ∈ events, event.SparesSpec key) {stamp : Stamp} {batch : JobBatch}
    {fault : Option Store.Error} {p : ScalePatch} {after : Listening}
    (htake : (run key bounds events).take key stamp batch fault = (.ok p, after))
    (hstays : (run key bounds events).listener.applied = some p → Stays key bounds events p) :
    ∃ set, after.store.getSet key = some set ∧ Carries set p ∧ ∀ stamp',
      (after.store.perform stamp' (.patchSpec key p.replicas p.patchId)).store =
        { after.store with sets := after.store.sets.insert key (newVersion set) } := by
  have hreachable := reachable_run key bounds events
  have htakes := take_cases key hreachable.sound stamp batch fault
  rw [htake] at htakes
  suffices hstored : ∃ set, after.store.getSet key = some set ∧ Carries set p by
    obtain ⟨set, hset, hcarries⟩ := hstored
    have hreached : after.store.Reachable := by
      cases htakes with
      | skipped => exact hreachable
      | written => exact hreachable.perform stamp _
    exact ⟨set, hset, hcarries, patchSpec_of_carries hreached.sound hset hcarries⟩
  cases htakes with
  | skipped happlied => exact stored_of_applied hspares happlied (hstays happlied)
  | written _ hresult => exact carries_of_patchSpec hresult hreachable.sound

/-- A set is stored, scaled to two runners, and held and looked after by a pass; a report of nothing
follows. -/
def quietHistory : List Event :=
  [.other (.provide Stamp.sample (RunnerSet.create "ci" "linux" { image := "image" }) 1),
    .report Stamp.sample { acquired := 2 } none,
    .other (.begin "ci/linux" toString),
    .other (.serve "ci/linux" (fun _ => .ok ()) Stamp.sample),
    .other (.serve "ci/linux" (fun _ => .ok ()) Stamp.sample)]

/-- What comes of a report of nothing after this. -/
def quietReport : Except Store.Error ScalePatch × Listening :=
  (run "ci/linux" { min := 0 } quietHistory).take "ci/linux" Stamp.sample {} none

/-- After a report of nothing the listener writes nothing, and its decision is on the set. -/
theorem skipped_write_quietHistory :
    quietReport.1 = .ok ⟨2, 0⟩ ∧
      quietReport.2.store = (run "ci/linux" { min := 0 } quietHistory).store ∧
      ∃ set, quietReport.2.store.getSet "ci/linux" = some set ∧ Carries set ⟨2, 0⟩ := by
  have hspares : ∀ event ∈ quietHistory, event.SparesSpec "ci/linux" := by
    simp [quietHistory, Event.SparesSpec]
  have hanswer : quietReport.1 = .ok ⟨2, 0⟩ := by decide +kernel
  have htake : quietReport = (.ok ⟨2, 0⟩, quietReport.2) := by rw [← hanswer]
  have hinits : ∀ before ∈ quietHistory.inits,
      (run "ci/linux" { min := 0 } before).listener.applied = some ⟨2, 0⟩ →
        ((run "ci/linux" { min := 0 } before).store.getSet "ci/linux").isSome := by
    decide +kernel
  have hstays : Stays "ci/linux" { min := 0 } quietHistory ⟨2, 0⟩ :=
    fun before hpre => hinits before ((List.mem_inits _ _).2 hpre)
  obtain ⟨set, hset, hcarries, -⟩ := skipped_write_unobservable hspares htake fun _ => hstays
  exact ⟨hanswer, by decide +kernel, set, hset, hcarries⟩

/-- A set is stored, scaled to two runners, removed, and stored anew. -/
def recreation : List Event :=
  [.other (.provide Stamp.sample (RunnerSet.create "ci" "linux" { image := "image" }) 1),
    .report Stamp.sample { acquired := 2 } none,
    .other (.request Stamp.sample ⟨.delete, "/api/v1/runnersets/ci/linux", none, ""⟩),
    .other (.request Stamp.sample ⟨.post, "/api/v1/runnersets", some "application/json",
      "\x7b\"metadata\":\x7b\"name\":\"linux\",\"namespace\":\"ci\"\x7d,\"spec\":\x7b\"replicas\":0,\"runner_template\":\x7b\"image\":\"image\"\x7d\x7d\x7d"⟩)]

/-- The listener answers that two runners are asked for, while the new set asks for none. -/
theorem recreated_set_overlooked :
    (∀ event ∈ recreation, event.SparesSpec "ci/linux") ∧
      ((run "ci/linux" { min := 0 } recreation).take "ci/linux" Stamp.sample {} none).1 =
        .ok ⟨2, 0⟩ ∧
      (((run "ci/linux" { min := 0 } recreation).take "ci/linux" Stamp.sample {}
        none).2.store.getSet "ci/linux").map (·.spec.replicas) = some 0 := by
  refine ⟨?_, ?_, ?_⟩
  · simp [recreation, Event.SparesSpec]
  · decide +kernel
  · decide +kernel

end Listening
end RunnerFleet
