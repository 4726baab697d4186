import RunnerFleet.Proofs.Api.Requests
import RunnerFleet.Proofs.Reconcile.Sharing
import RunnerFleet.Proofs.System.Interleaving

/-!
# No runner is orphaned

Whatever happens in whichever order, the owner of every stored runner is stored and holds the
controller's finalizer.  The invariant has two parts: runners are in custody, and every pass in
progress keeps the promise that it made when it began, from the store as it is now.

Main results:

- `Sound.step`: whatever happens next, the invariant holds after it.
- `runners_never_orphaned`: a runner's set holds the finalizer, and leaves the store only without
  runners.
-/

namespace RunnerFleet
namespace System

open Reconcile Store

/-- Runners are in custody, and what is left of each pass keeps the promise of passes. -/
structure Sound (sys : System) : Prop where
  custody : sys.api.store.Custody
  keeps : ∀ {key : String} {p : Program (Except Reconcile.Error Unit)},
    sys.passes.get? key = some p → p.Meets (sharing key) (fun _ _ => True) sys.api.store

/-! ## Those who make no pass -/

/-- An operation is harmless if it neither releases nor populates any set. -/
structure Harmless (op : Operation) : Prop where
  releases : ∀ key, ¬ op.Releases key
  populates : ∀ key, ¬ op.Populates key

/-- What requests do to the store is harmless. -/
theorem harmless_of_mayWrite {request : Api.Request} {op : Operation} (h : request.MayWrite op) :
    Harmless op := by
  obtain ⟨route, -, hwrites⟩ := h
  cases hwrites <;> exact ⟨fun _ => id, fun _ => id⟩

/-- A harmless operation of somebody else leaves everything sound. -/
theorem Sound.perform {sys : System} (h : sys.Sound) {op : Operation} (hop : Harmless op)
    (stamp : Stamp) (queues : Api.Queues) :
    Sound { sys with api := ⟨(sys.api.store.perform stamp op).store, queues⟩ } where
  custody :=
    (careful_of_harmless hop.releases hop.populates "" sys.api.store).custody h.custody stamp
  keeps hp :=
    Meets.stable (h.keeps hp) (respects_perform _ stamp (hop.releases _) (hop.populates _))

/-- A request leaves everything sound. -/
theorem Sound.respond {sys : System} (h : sys.Sound) (stamp : Stamp) (request : Api.Request) :
    Sound { sys with api := (sys.api.respond stamp request).state } := by
  rcases Api.State.touched_respond sys.api stamp request with ⟨hstore, -⟩ | ⟨op, hop, hstore, -⟩
  · refine ⟨?_, fun hp => ?_⟩
    · rw [hstore]
      exact h.custody
    · rw [hstore]
      exact h.keeps hp
  · have hsound :=
      h.perform (harmless_of_mayWrite hop) stamp (sys.api.respond stamp request).state.queues
    rw [← hstore] at hsound
    exact hsound

/-! ## Passes -/

/-- A pass that goes on with a possible answer to its call leaves everything sound. -/
theorem Sound.advance {sys : System} (h : sys.Sound) (key : String)
    {answer : (c : Call) → Option (c.Answer × Store)}
    (hanswer : ∀ c reply after, answer c = some (reply, after) →
      c.Answered sys.api.store reply after) :
    Sound (sys.advance key answer) := by
  rcases advance_cases sys key answer with heq | ⟨c, next, reply, after, hpass, hreply, heq⟩
  · rw [heq]
    exact h
  · rw [heq]
    have hanswered := hanswer c reply after hreply
    have hmeets := h.keeps hpass
    refine ⟨?_, fun {k p} hp => ?_⟩
    · rcases hanswered.store with rfl | ⟨op, stamp, hop, rfl⟩
      · exact h.custody
      · exact (hmeets.1 op hop).custody h.custody stamp
    · rcases of_get?_resume hp with ⟨rfl, rfl⟩ | ⟨hne, hother⟩
      · exact hmeets.2 reply after ⟨_, Respects.refl k _, h.custody, hanswered⟩
      · -- the other passes rely on what this one promised
        rcases hanswered.store with rfl | ⟨op, stamp, hop, rfl⟩
        · exact h.keeps hother
        · exact Meets.stable (h.keeps hother) ((hmeets.1 op hop).respects hne stamp)

/-- Whatever happens next, everything is sound after it. -/
theorem Sound.step {sys : System} (h : sys.Sound) (event : Event) : (sys.step event).Sound := by
  cases event with
  | request stamp request => exact h.respond stamp request
  | provide stamp set capacity => exact h.perform ⟨fun _ => id, fun _ => id⟩ stamp _
  | decide stamp key patch => exact h.perform ⟨fun _ => id, fun _ => id⟩ stamp _
  | begin key suffix =>
      rw [System.step]
      split
      · exact h
      · refine ⟨h.custody, fun {k p} hp => ?_⟩
        obtain ⟨rfl, rfl⟩ | ⟨-, hother⟩ := KeyMap.get?_insert_eq_some_iff.1 hp
        · exact meets_pass suffix k sys.api.store
        · exact h.keeps hother
  | serve key service stamp => exact h.advance key (answered_serve service stamp)
  | fail key e => exact h.advance key (answered_fail e)
  | abandon key =>
      refine ⟨h.custody, fun {k p} hp => ?_⟩
      exact h.keeps (KeyMap.get?_erase_eq_some_iff.1 hp).2

/-- Whatever happens from a sound state on, the state after it is sound. -/
theorem Sound.foldl {sys : System} (h : sys.Sound) (events : List Event) :
    (events.foldl System.step sys).Sound := by
  induction events generalizing sys with
  | nil => exact h
  | cons event events ih => exact ih (h.step event)

/-- Everything is sound, whatever has happened since the store was empty. -/
theorem run_sound (events : List Event) : (run events).Sound := by
  refine Sound.foldl ⟨⟨Reachable.empty.keyed, ?_⟩, ?_⟩ events
  · intro k key r hr
    cases hr
  · intro key p hp
    cases hp

/-! ## The moment at which a set leaves -/

/-- The operations by which an event may change the store. -/
inductive Event.Does : Event → Operation → Prop where
  | request {stamp : Stamp} {request : Api.Request} {op : Operation} (writes : request.MayWrite op) :
      Does (.request stamp request) op
  | provide {stamp : Stamp} {set : RunnerSet} {capacity : Nat} :
      Does (.provide stamp set capacity) (.createSet set)
  | decide {stamp : Stamp} {key : String} {patch : ScalePatch} :
      Does (.decide stamp key patch) (.patchSpec key patch.replicas patch.patchId)
  | serve {key : String} {service : Actions.Service} {stamp : Stamp} {c : Call} {op : Operation}
      (calls : c.operation? = some op) : Does (.serve key service stamp) op

/-- Whatever happens next, the store is as before, or one operation was carried out on it. -/
theorem step_store (sys : System) (event : Event) :
    (sys.step event).api.store = sys.api.store ∨
      ∃ stamp op, event.Does op ∧
        (sys.step event).api.store = (sys.api.store.perform stamp op).store := by
  cases event with
  | request stamp request =>
      rcases Api.State.touched_respond sys.api stamp request with ⟨heq, -⟩ | ⟨op, hwrites, heq, -⟩
      · exact Or.inl heq
      · exact Or.inr ⟨stamp, op, .request hwrites, heq⟩
  | provide stamp set capacity => exact Or.inr ⟨stamp, _, .provide, rfl⟩
  | decide stamp key patch => exact Or.inr ⟨stamp, _, .decide, rfl⟩
  | begin key suffix =>
      rw [System.step]
      split <;> exact Or.inl rfl
  | serve key service stamp =>
      rw [System.step]
      rcases advance_cases sys key _ with heq | ⟨c, next, reply, after, -, hreply, heq⟩
      · exact Or.inl (by rw [heq])
      · rw [heq]
        rcases (answered_serve service stamp c reply after hreply).store with
          hstore | ⟨op, stamp', hop, hstore⟩
        · exact Or.inl hstore
        · exact Or.inr ⟨stamp', op, .serve hop, hstore⟩
  | fail key e =>
      rw [System.step]
      rcases advance_cases sys key _ with heq | ⟨c, next, reply, after, -, hreply, heq⟩
      · exact Or.inl (by rw [heq])
      · -- a call that fails has no effect
        obtain ⟨answer, -, hafter⟩ := Option.map_eq_some_iff.1 hreply
        rw [heq]
        exact Or.inl (Prod.mk.inj hafter).2.symm
  | abandon key => exact Or.inl rfl

/-- A step by which a runner set leaves the store touches no runner. -/
theorem runners_of_leaves {sys : System} {event : Event} {key : String}
    (hbefore : (sys.api.store.getSet key).isSome)
    (hafter : (sys.step event).api.store.getSet key = none) (k : String) :
    (sys.step event).api.store.runners.get? k = sys.api.store.runners.get? k := by
  rcases step_store sys event with heq | ⟨stamp, op, -, heq⟩
  · rw [heq]
  · rw [heq, getSet_perform] at hafter
    rw [heq, getRunner_perform]
    have hchanged : op.onSet stamp key (sys.api.store.getSet key) ≠ sys.api.store.getSet key := by
      intro hsame
      rw [← hsame, hafter] at hbefore
      cases hbefore
    exact onRunner_of_onSet_ne hchanged k _

/-- In every state, the owner of every stored runner is stored and holds the finalizer; and at the
moment when a runner set leaves the store, it owns no runner. -/
theorem runners_never_orphaned (events : List Event) :
    (∀ k r, (run events).api.store.runners.get? k = some r →
      ∃ owner set, r.ownerKey = some owner ∧ (run events).api.store.getSet owner = some set ∧
        set.key = owner ∧ set.hasFinalizer = true) ∧
    ∀ event key, ((run events).api.store.getSet key).isSome →
      (run (events ++ [event])).api.store.getSet key = none →
        (run events).api.store.Childless key ∧
          (run (events ++ [event])).api.store.Childless key := by
  refine ⟨?_, ?_⟩
  · intro k r hr
    have hcustody := (run_sound events).custody
    obtain ⟨owner, howner, -⟩ := hcustody.runner hr
    obtain ⟨set, hset, hfinalizer⟩ := hcustody.holds hr howner
    exact ⟨owner, set, howner, hset, hcustody.set hset, hfinalizer⟩
  · intro event key hbefore hafter
    have hchildless : (run (events ++ [event])).api.store.Childless key := by
      intro k r hr howner
      obtain ⟨set, hset, -⟩ := (run_sound (events ++ [event])).custody.holds hr howner
      rw [hafter] at hset
      cases hset
    refine ⟨fun k r hr => hchildless k r ?_, hchildless⟩
    rw [run_append] at hafter ⊢
    rw [runners_of_leaves hbefore hafter, hr]

/-- The next call of the pass over the set is answered. -/
def serve : Event :=
  .serve "ns/set" (fun _ => .ok ()) Stamp.sample

/-- A set is stored, held, scaled to one runner, condemned, and rid of its runner after that has
reported success. -/
def briefHistory : List Event :=
  [.provide Stamp.sample (RunnerSet.create "ns" "set" { image := "image" }) 1,
    .begin "ns/set" toString, serve, serve,
    .decide Stamp.sample "ns/set" ⟨1, 0⟩,
    .begin "ns/set" toString, serve, serve, serve, serve, serve,
    .request Stamp.sample ⟨.delete, "/api/v1/runnersets/ns/set", none, ""⟩,
    .request Stamp.sample
      ⟨.put, "/api/v1/runnersets/ns/set/runners/set-runner-0/status", some "application/json",
        "\x7b\"phase\":\"succeeded\"\x7d"⟩,
    .begin "ns/set" toString, serve, serve, serve,
    .begin "ns/set" toString, serve, serve]

/-- While the runner is stored its set is; the set leaves with the release that comes next. -/
theorem briefHistory_not_orphaned :
    (∃ r owner set,
      (run (briefHistory.take 16)).api.store.runners.get? "ns/set:set-runner-0" = some r ∧
        r.ownerKey = some owner ∧ (run (briefHistory.take 16)).api.store.getSet owner = some set ∧
        set.hasFinalizer = true) ∧
    (run briefHistory).api.store.Childless "ns/set" := by
  refine ⟨?_, ?_⟩
  · have hstored : ((run (briefHistory.take 16)).api.store.runners.get?
        "ns/set:set-runner-0").isSome := by decide +kernel
    obtain ⟨r, hr⟩ := Option.isSome_iff_exists.1 hstored
    obtain ⟨owner, set, howner, hset, -, hfinalizer⟩ :=
      (runners_never_orphaned (briefHistory.take 16)).1 _ r hr
    exact ⟨r, owner, set, hr, howner, hset, hfinalizer⟩
  · have hbefore : ((run briefHistory).api.store.getSet "ns/set").isSome := by decide +kernel
    have hafter : (run (briefHistory ++ [serve])).api.store.getSet "ns/set" = none := by
      decide +kernel
    exact ((runners_never_orphaned briefHistory).2 _ "ns/set" hbefore hafter).1

end System
end RunnerFleet
