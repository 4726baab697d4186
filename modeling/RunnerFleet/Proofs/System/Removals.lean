import RunnerFleet.Proofs.Reconcile.Refusal
import RunnerFleet.Proofs.Store.Spec
import RunnerFleet.Proofs.System.Orphans

/-!
# Removals that were interrupted

To reclaim a runner, a pass first has its registration removed by the Actions service, and then
deletes it from the store.  If it is cut off in between, or the deletion fails, the runner stays
without a registration.  The next pass asks for the removal of the same registration; the service,
which does not know it any more, answers with an error, and the pass leaves the runner where it is.
So does every pass after it.  A set whose removal was requested is never released from such a
runner.

Main results:

- `Stuck.step`: whatever happens next, a runner without its registration stays.
- `removal_never_finished`: no later pass finishes the removal, and the set waits for ever.
- `removal_left_unfinished`: a pass over a set that is being removed leaves such a runner.
-/

namespace RunnerFleet

open Reconcile Store

/-- The registrations that the Actions service knows, and which of their runners have a job. -/
structure Registry where
  registered : List Int
  busy : List Int
  /-- The answer to the removal of a registration that the service does not know. -/
  unknown : Actions.Error
  /-- The answer does not say that the runner has a job. -/
  unknown_idle : unknown.isJobStillRunning = false

namespace Registry

/-- A service that nobody has registered with yet. -/
def empty : Registry where
  registered := []
  busy := []
  unknown := .api 404 none "not found"
  unknown_idle := rfl

/-- The answer to the removal of the registration of a runner with a job. -/
def refusal : Actions.Error :=
  .api 400 (some Actions.jobStillRunning) "the runner has a job"

/-- Remove a registration, unless its runner has a job. -/
def remove (g : Registry) (runnerId : Int) : Except Actions.Error Unit × Registry :=
  if runnerId ∈ g.registered then
    if runnerId ∈ g.busy then (.error refusal, g)
    else (.ok (), { g with registered := g.registered.filter (· ≠ runnerId) })
  else (.error g.unknown, g)

/-- How the service answers the next removal. -/
def service (g : Registry) : Actions.Service :=
  fun runnerId => (g.remove runnerId).1

theorem service_of_not_registered {g : Registry} {runnerId : Int} (h : runnerId ∉ g.registered) :
    g.service runnerId = .error g.unknown := by
  rw [service, remove, if_neg h]

/-- A removal adds no registration. -/
theorem mem_of_mem_remove {g : Registry} {runnerId other : Int}
    (h : other ∈ (g.remove runnerId).2.registered) : other ∈ g.registered := by
  unfold remove at h
  split at h
  · split at h
    · exact h
    · exact (List.mem_filter.1 h).1
  · exact h

end Registry

/-! ## The system and the service -/

/-- The event is the answer to a call of a pass. -/
def System.Event.isServe : System.Event → Bool
  | .serve _ _ _ => true
  | _ => false

/-- All that writes to one store, and the registrations of the Actions service. -/
structure Ensemble where
  sys : System
  registry : Registry

namespace Ensemble

/-- What may happen next. -/
inductive Event where
  /-- Something in which no call is answered. -/
  | apart (event : System.Event) (unserved : event.isServe = false)
  /-- The next call of the pass over a runner set is answered. -/
  | serve (key : String) (stamp : Stamp)
  /-- A runner registers. -/
  | register (runnerId : Int)
  /-- The runners with these registrations have a job. -/
  | employ (runnerIds : List Int)

/-- The registrations after the next call of a pass was answered. -/
def registryAfter (e : Ensemble) (key : String) : Registry :=
  match e.sys.passes.get? key with
  | some (.call (.deregister runnerId) _) => (e.registry.remove runnerId).2
  | _ => e.registry

/-- What becomes of everything when something happens. -/
def step (e : Ensemble) : Event → Ensemble
  | .apart event _ => { e with sys := e.sys.step event }
  | .serve key stamp =>
      { sys := e.sys.step (.serve key e.registry.service stamp)
        registry := e.registryAfter key }
  | .register runnerId =>
      { e with registry := { e.registry with registered := runnerId :: e.registry.registered } }
  | .employ runnerIds => { e with registry := { e.registry with busy := runnerIds } }

/-- Everything after these events, from an empty store. -/
def run (registry : Registry) (events : List Event) : Ensemble :=
  events.foldl step { sys := { api := {} }, registry }

theorem run_append (registry : Registry) (events later : List Event) :
    run registry (events ++ later) = later.foldl step (run registry events) :=
  List.foldl_append

/-- A step does nothing to the system, or is one of its own. -/
theorem step_sys (e : Ensemble) (event : Event) :
    (e.step event).sys = e.sys ∨ ∃ event', (e.step event).sys = e.sys.step event' := by
  cases event with
  | apart event _ => exact Or.inr ⟨event, rfl⟩
  | serve key stamp => exact Or.inr ⟨.serve key e.registry.service stamp, rfl⟩
  | register _ | employ _ => exact Or.inl rfl

theorem run_sound (registry : Registry) (events : List Event) :
    (run registry events).sys.Sound := by
  unfold run
  suffices h : ∀ e : Ensemble, e.sys.Sound → (events.foldl step e).sys.Sound by
    exact h _ (System.run_sound [])
  induction events with
  | nil => exact fun e he => he
  | cons event events ih =>
      intro e he
      refine ih _ ?_
      rcases e.step_sys event with heq | ⟨event', heq⟩
      · exact heq ▸ he
      · exact heq ▸ he.step event'

/-! ## A runner without its registration -/

/-- Somebody other than a pass changes nothing of what lies under a key of the runners, and does not
register this number. -/
def Event.Spares (k : String) (runnerId : Int) (e : Ensemble) : Event → Prop
  | .apart event _ =>
      (e.sys.step event).api.store.runners.get? k = e.sys.api.store.runners.get? k
  | .register other => other ≠ runnerId
  | _ => True

/-- What may come later, while nobody but the passes concerns himself with a runner. -/
inductive Later (k : String) (runnerId : Int) (e : Ensemble) : Ensemble → Prop where
  | now : Later k runnerId e e
  | step {e' : Ensemble} (later : Later k runnerId e e') (event : Event)
      (spares : event.Spares k runnerId e') : Later k runnerId e (e'.step event)

/-- The runner is stored, its registration is gone, and no pass in progress will delete it. -/
structure Stuck (k : String) (r : Runner) (e : Ensemble) : Prop where
  sound : e.sys.Sound
  up : r.IsUp
  stored : e.sys.api.store.runners.get? k = some r
  gone : r.status.runnerId ∉ e.registry.registered
  passes : ∀ {key : String} {p : Program (Except Reconcile.Error Unit)},
    e.sys.passes.get? key = some p → p.Meets (refusing k r) (fun _ _ => True) ()

section Stuck

variable {k : String} {r : Runner} {e : Ensemble}

/-- A pass that goes on does not delete the runner. -/
theorem Stuck.advance (h : Stuck k r e) (key : String)
    {answer : (c : Call) → Option (c.Answer × Store)}
    (hanswer : ∀ c reply after, answer c = some (reply, after) →
      c.Answered e.sys.api.store reply after ∧
        Exchange.Refuses r.status.runnerId ⟨c, reply⟩) :
    (e.sys.advance key answer).api.store.runners.get? k = some r ∧
      ∀ {key' : String} {p : Program (Except Reconcile.Error Unit)},
        (e.sys.advance key answer).passes.get? key' = some p →
          p.Meets (refusing k r) (fun _ _ => True) () := by
  rcases e.sys.advance_cases key answer with heq | ⟨c, next, reply, after, hpass, hreply, heq⟩
  · rw [heq]
    exact ⟨h.stored, h.passes⟩
  · obtain ⟨hanswered, hrefuses⟩ := hanswer c reply after hreply
    obtain ⟨hpermits, hnext⟩ := h.passes hpass
    rw [heq]
    refine ⟨hanswered.getRunner h.stored hpermits, fun {key' p} hp => ?_⟩
    rcases System.of_get?_resume hp with ⟨rfl, rfl⟩ | ⟨-, hother⟩
    · exact hnext reply () ⟨hrefuses, _, after, h.sound.custody.toKeyed, h.stored, hanswered⟩
    · exact h.passes hother

/-- Something in which no call is answered. -/
theorem Stuck.apart (h : Stuck k r e) {event : System.Event} (hunserved : event.isServe = false)
    (hspares : (e.sys.step event).api.store.runners.get? k = e.sys.api.store.runners.get? k) :
    Stuck k r { e with sys := e.sys.step event } := by
  refine ⟨h.sound.step event, h.up, hspares.trans h.stored, h.gone, ?_⟩
  cases event with
  | request | provide | decide => exact h.passes
  | begin key suffix =>
      rw [System.step]
      split
      · exact h.passes
      · intro key' p hp
        obtain ⟨-, rfl⟩ | ⟨-, hother⟩ := KeyMap.get?_insert_eq_some_iff.1 hp
        · exact meets_pass_refusing suffix key h.up
        · exact h.passes hother
  | serve key service stamp => cases hunserved
  | fail key error =>
      refine (h.advance key fun c reply after hreply => ⟨answered_fail error c reply after hreply,
        ?_⟩).2
      obtain ⟨answer, hfail, -⟩ := Option.map_eq_some_iff.1 hreply
      cases c with
      | deregister runnerId => cases hfail -- only calls to the store fail in this way
      | _ => trivial
  | abandon key =>
      exact fun {key' p} hp => h.passes (KeyMap.get?_erase_eq_some_iff.1 hp).2

/-- A call of a pass that is answered. -/
theorem Stuck.serve (h : Stuck k r e) (key : String) (stamp : Stamp) :
    Stuck k r (e.step (.serve key stamp)) := by
  have hadvance := h.advance key fun c reply after hreply =>
    ⟨answered_serve e.registry.service stamp c reply after hreply, by
      injection hreply with hreply
      injection hreply with hreply hafter
      cases c with
      | deregister runnerId =>
          -- the service knows the registration no more, so that it cannot agree to its removal
          rintro rfl
          exact ⟨e.registry.unknown,
            hreply.symm.trans (Registry.service_of_not_registered h.gone)⟩
      | _ => trivial⟩
  refine ⟨h.sound.step (.serve key e.registry.service stamp), h.up, hadvance.1, ?_, hadvance.2⟩
  change r.status.runnerId ∉ (e.registryAfter key).registered
  unfold registryAfter
  split
  · exact fun hmem => h.gone (Registry.mem_of_mem_remove hmem)
  · exact h.gone

/-- Whatever happens next, a runner without its registration stays. -/
theorem Stuck.step (h : Stuck k r e) {event : Event}
    (hspares : event.Spares k r.status.runnerId e) : Stuck k r (e.step event) := by
  cases event with
  | apart event hunserved => exact h.apart hunserved hspares
  | serve key stamp => exact h.serve key stamp
  | register other =>
      refine ⟨h.sound, h.up, h.stored, ?_, h.passes⟩
      rw [Ensemble.step, List.mem_cons, not_or]
      exact ⟨Ne.symm hspares, h.gone⟩
  | employ runnerIds => exact ⟨h.sound, h.up, h.stored, h.gone, h.passes⟩

/-- The owner of the runner is stored and held. -/
theorem Stuck.holds (h : Stuck k r e) {owner : String} (howner : r.ownerKey = some owner) :
    e.sys.api.store.Holds owner :=
  h.sound.custody.holds h.stored howner

end Stuck

/-- Whatever happens while nobody else concerns himself with the runner, it stays. -/
theorem Stuck.later {k : String} {r : Runner} {e e' : Ensemble} (h : Stuck k r e)
    (hlater : Later k r.status.runnerId e e') : Stuck k r e' := by
  induction hlater with
  | now => exact h
  | step _ event spares ih => exact ih.step spares

/-! ## The set of a runner without its registration -/

/-- A set whose removal was requested waits for it as long as it is stored. -/
theorem isDeleting_step {e : Ensemble} {event : Event} {key : String} {old new : RunnerSet}
    (hold : e.sys.api.store.getSet key = some old)
    (hnew : (e.step event).sys.api.store.getSet key = some new)
    (hremoving : old.metadata.isDeleting = true) : new.metadata.isDeleting = true := by
  rcases e.step_sys event with heq | ⟨event', heq⟩
  · rw [heq, hold] at hnew
    exact Option.some.inj hnew ▸ hremoving
  · rw [heq] at hnew
    rcases e.sys.step_store event' with hstore | ⟨stamp, op, -, hstore⟩
    · rw [hstore, hold] at hnew
      exact Option.some.inj hnew ▸ hremoving
    · rw [hstore, getSet_perform, hold] at hnew
      exact isDeleting_of_onSet hnew hremoving

/-- A runner that is up and without its registration when no pass is in progress is never deleted
by a pass, and the set that owns it waits for its own removal for ever. -/
theorem removal_never_finished {registry : Registry} {before : List Event} {later : Ensemble}
    {k owner : String} {r : Runner} {set : RunnerSet}
    (hrunner : (run registry before).sys.api.store.runners.get? k = some r) (hup : r.IsUp)
    (hgone : r.status.runnerId ∉ (run registry before).registry.registered)
    (hpasses : ∀ key, (run registry before).sys.passes.get? key = none)
    (howner : r.ownerKey = some owner)
    (hset : (run registry before).sys.api.store.getSet owner = some set)
    (hremoving : set.metadata.isDeleting = true)
    (hlater : Later k r.status.runnerId (run registry before) later) :
    later.sys.api.store.runners.get? k = some r ∧
      ∃ set', later.sys.api.store.getSet owner = some set' ∧ set'.hasFinalizer = true ∧
        set'.metadata.isDeleting = true := by
  have hstuck : Stuck k r (run registry before) :=
    ⟨run_sound registry before, hup, hrunner, hgone, fun hp => by rw [hpasses] at hp; cases hp⟩
  refine ⟨(hstuck.later hlater).stored, ?_⟩
  induction hlater with
  | now =>
      obtain ⟨set', hset', hfinalizer⟩ := hstuck.holds howner
      obtain rfl := Option.some.inj (hset.symm.trans hset')
      exact ⟨set, hset, hfinalizer, hremoving⟩
  | step later event spares ih =>
      obtain ⟨old, hold, -, hdeleting⟩ := ih
      obtain ⟨new, hnew, hfinalizer⟩ := ((hstuck.later later).step spares).holds howner
      exact ⟨new, hnew, hfinalizer, isDeleting_step hold hnew hdeleting⟩

/-! ## A removal that is cut off in between -/

/-- A pass over a runner set begins, and this many of its calls are answered. -/
def passOver (key : String) (answers : Nat) : List Event :=
  .apart (.begin key toString) rfl :: List.replicate answers (.serve key Stamp.sample)

/-- A pass may come later, and get any number of answers. -/
theorem Later.passOver {k : String} {runnerId : Int} (registry : Registry) (before : List Event)
    (key : String) (answers : Nat) :
    Later k runnerId (run registry before) (run registry (before ++ passOver key answers)) := by
  rw [run_append]
  generalize run registry before = e
  have hbegin : Later k runnerId e (e.step (.apart (.begin key toString) rfl)) := by
    refine .step .now _ ?_
    simp only [Event.Spares, System.step]
    split <;> rfl
  rw [Ensemble.passOver, List.foldl_cons]
  generalize e.step (.apart (.begin key toString) rfl) = e' at hbegin
  induction answers generalizing e' with
  | zero => exact hbegin
  | succ answers ih => exact ih _ (hbegin.step (.serve key Stamp.sample) trivial)

/-- A set is scaled to one runner, which registers as number 7; then the removal of the set is
requested.  A pass has the registration removed, and fails to delete the runner. -/
def interrupted : List Event :=
  [.apart (.provide Stamp.sample (RunnerSet.create "ns" "set" { image := "image" }) 1) rfl] ++
    passOver "ns/set" 2 ++
    [.apart (.decide Stamp.sample "ns/set" ⟨1, 0⟩) rfl] ++
    passOver "ns/set" 5 ++
    [.register 7,
      .apart (.request Stamp.sample
        ⟨.put, "/api/v1/runnersets/ns/set/runners/set-runner-0/status", some "application/json",
          "\x7b\"phase\":\"running\",\"runner_id\":7\x7d"⟩) rfl,
      .apart (.request Stamp.sample ⟨.delete, "/api/v1/runnersets/ns/set", none, ""⟩) rfl] ++
    passOver "ns/set" 3 ++
    [.apart (.fail "ns/set" ⟨.transaction, "interrupted"⟩) rfl]

/-- A pass over a set that is being removed, whose calls to the store all succeed, leaves a runner
whose registration an earlier pass has removed. -/
theorem removal_left_unfinished :
    7 ∈ (run .empty (interrupted.take 17)).registry.registered ∧
      7 ∉ (run .empty (interrupted.take 18)).registry.registered ∧
      ((run .empty interrupted).sys.api.store.getSet "ns/set").any (·.metadata.isDeleting) ∧
      ((run .empty interrupted).sys.passes.contains "ns/set" = false) ∧
      (run .empty (interrupted ++ passOver "ns/set" 2)).sys.passes.contains "ns/set" ∧
      ((run .empty (interrupted ++ passOver "ns/set" 3)).sys.passes.contains "ns/set" = false) ∧
      ((run .empty (interrupted ++ passOver "ns/set" 3)).sys.api.store.runners.get?
        "ns/set:set-runner-0").any (fun r => r.IsLive ∧ r.status.runnerId = 7) := by
  decide +kernel

/-- After this history no pass finishes the removal, however many of its calls are answered. -/
theorem interrupted_never_finished :
    ∃ r set,
      (run .empty interrupted).sys.api.store.runners.get? "ns/set:set-runner-0" = some r ∧
      r.IsUp ∧ r.status.runnerId ∉ (run .empty interrupted).registry.registered ∧
      (∀ key, (run .empty interrupted).sys.passes.get? key = none) ∧
      r.ownerKey = some "ns/set" ∧
      (run .empty interrupted).sys.api.store.getSet "ns/set" = some set ∧
      set.metadata.isDeleting = true ∧
      ∀ answers,
        Later "ns/set:set-runner-0" r.status.runnerId (run .empty interrupted)
          (run .empty (interrupted ++ passOver "ns/set" answers)) ∧
        (run .empty (interrupted ++ passOver "ns/set" answers)).sys.api.store.runners.get?
          "ns/set:set-runner-0" = some r ∧
        ∃ set',
          (run .empty (interrupted ++ passOver "ns/set" answers)).sys.api.store.getSet "ns/set" =
            some set' ∧ set'.hasFinalizer = true ∧ set'.metadata.isDeleting = true := by
  have hrunner : ((run .empty interrupted).sys.api.store.runners.get? "ns/set:set-runner-0").map
      (fun r => decide (r.IsUp ∧ r.status.runnerId = 7 ∧ r.ownerKey = some "ns/set")) =
        some true := by decide +kernel
  obtain ⟨r, hr, hfacts⟩ := Option.map_eq_some_iff.1 hrunner
  obtain ⟨hup, hid, howner⟩ := of_decide_eq_true hfacts
  have hgone : r.status.runnerId ∉ (run .empty interrupted).registry.registered := by
    rw [hid]
    decide +kernel
  have hpasses : ∀ key, (run .empty interrupted).sys.passes.get? key = none := by
    have hnone : (run .empty interrupted).sys.passes.entries.isEmpty = true := by decide +kernel
    intro key
    rw [KeyMap.get?, List.isEmpty_iff.1 hnone]
    rfl
  have hstored : ((run .empty interrupted).sys.api.store.getSet "ns/set").map
      (fun set => set.metadata.isDeleting) = some true := by decide +kernel
  obtain ⟨set, hset, hremoving⟩ := Option.map_eq_some_iff.1 hstored
  refine ⟨r, set, hr, hup, hgone, hpasses, howner, hset, hremoving, fun answers => ?_⟩
  have hlater : Later "ns/set:set-runner-0" r.status.runnerId (run .empty interrupted)
      (run .empty (interrupted ++ passOver "ns/set" answers)) :=
    Later.passOver .empty interrupted "ns/set" answers
  exact ⟨hlater, removal_never_finished hr hup hgone hpasses howner hset hremoving hlater⟩

end Ensemble
end RunnerFleet
