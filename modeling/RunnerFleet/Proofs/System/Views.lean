import RunnerFleet.Proofs.Reconcile.Scene
import RunnerFleet.Proofs.System.Removals

/-!
# The system, seen from one side

A history of the system has passes over many runner sets.  Seen from one of these sets it is a
history of its own passes, and everything else is done by others.  And if the Actions service
answers like one that keeps registrations, some registrations explain its answers.

Main results:

- `Scene.exists_shows`: every history of the system is, for each runner set, a scene.
- `Ensemble.exists_explains`: registrations that explain the answers of the Actions service.
-/

namespace RunnerFleet

open Reconcile

/-! ## One runner set -/

/-- What is left of a program that is not done. -/
def Reconcile.Program.unfinished? {α : Type} : Program α → Option (Program α)
  | .done _ => none
  | .call c next => some (.call c next)

/-- The passes in progress after one went on: it is there, if it is not done. -/
theorem System.get?_resume (passes : KeyMap (Program (Except Reconcile.Error Unit)))
    (key k : String) (p : Program (Except Reconcile.Error Unit)) :
    (resume passes key p).get? k = if k = key then p.unfinished? else passes.get? k := by
  cases p <;> simp [resume, Program.unfinished?]

namespace Reconcile.Scene

/-- The scene has the store of the system, and the pass over the set that is in progress there. -/
structure Shows (key : String) (sys : System) (sc : Scene) : Prop where
  store : sc.store = sys.api.store
  pass : sys.passes.get? key = sc.pass.bind Program.unfinished?

section Shows

variable {key : String} {sys : System} {sc : Scene}

/-- The pass goes on, here and there. -/
theorem Shows.advance (h : Shows key sys sc) (answer : (c : Call) → Option (c.Answer × Store)) :
    Shows key (sys.advance key answer) (sc.advance answer) := by
  have hsame : (sys.passes.get? key).bind (Program.answerNext answer) =
      sc.pass.bind (Program.answerNext answer) := by
    rw [h.pass, Option.bind_assoc]
    refine congrArg _ (funext fun p => ?_)
    cases p <;> rfl
  unfold System.advance Scene.advance
  rw [hsame]
  cases sc.pass.bind (Program.answerNext answer) with
  | none => exact h
  | some gone => exact ⟨rfl, by rw [System.get?_resume, if_pos rfl]; rfl⟩

/-- A pass over another set goes on as its answer says: somebody else is at work. -/
theorem Shows.advance_other (h : Shows key sys sc) {k : String} (hk : k ≠ key)
    {answer : (c : Call) → Option (c.Answer × Store)}
    (hanswer : ∀ c reply after, answer c = some (reply, after) →
      c.Answered sys.api.store reply after) :
    ∃ events : List Event, Shows key (sys.advance k answer) (events.foldl (step key) sc) := by
  rcases sys.advance_cases k answer with heq | ⟨c, next, reply, after, -, hreply, heq⟩
  · rw [heq]
    exact ⟨[], h⟩
  · have hpass : (System.resume sys.passes k (next reply)).get? key =
        sc.pass.bind Program.unfinished? := by
      rw [System.get?_resume, if_neg fun heq => hk heq.symm, h.pass]
    rw [heq]
    rcases (hanswer c reply after hreply).store with hstore | ⟨op, stamp, -, hstore⟩
    · exact ⟨[], h.store.trans hstore.symm, hpass⟩
    · exact ⟨[.other stamp op], by rw [hstore, ← h.store]; rfl, hpass⟩

/-- Somebody else carries out an operation. -/
theorem Shows.other (h : Shows key sys sc) {api : Api.State} {stamp : Stamp}
    {op : Store.Operation} (hstore : api.store = (sys.api.store.perform stamp op).store) :
    Shows key { sys with api } ([Event.other stamp op].foldl (step key) sc) :=
  ⟨by rw [hstore, ← h.store]; rfl, h.pass⟩

/-- A pass over the set begins, here and there. -/
theorem Shows.begin (h : Shows key sys sc) (suffix : Nat → String)
    (hfree : sys.passes.contains key = false) :
    Shows key { sys with passes := sys.passes.insert key (Reconcile.pass suffix key) }
      (sc.step key (.begin suffix)) := by
  have hnone : sc.pass.bind Program.unfinished? = none := by
    rw [← h.pass]
    simpa [KeyMap.contains] using hfree
  have hbegin : sc.step key (.begin suffix) =
      { sc with pass := some (Reconcile.pass suffix key), calls := [] } := by
    unfold step
    dsimp only
    split
    · rename_i hpass
      rw [hpass] at hnone
      cases hnone
    · rfl
  rw [hbegin]
  exact ⟨h.store, by rw [KeyMap.get?_insert, if_pos rfl]; rfl⟩

/-- Whatever happens in the system, the scene can show it. -/
theorem Shows.exists_step (h : Shows key sys sc) (event : System.Event) :
    ∃ events : List Event, Shows key (sys.step event) (events.foldl (step key) sc) := by
  cases event with
  | request stamp request =>
      rcases Api.State.touched_respond sys.api stamp request with ⟨hsame, -⟩ | ⟨op, -, hdone, -⟩
      · exact ⟨[], h.store.trans hsame.symm, h.pass⟩
      · exact ⟨_, h.other hdone⟩
  | provide stamp set capacity => exact ⟨_, h.other rfl⟩
  | decide stamp k patch => exact ⟨_, h.other rfl⟩
  | begin k suffix =>
      rw [System.step]
      split
      · exact ⟨[], h⟩
      · rename_i hfree
        by_cases hk : k = key
        · subst hk
          exact ⟨[.begin suffix], h.begin suffix (Bool.not_eq_true _ ▸ hfree)⟩
        · refine ⟨[], h.store, ?_⟩
          rw [KeyMap.get?_insert, if_neg fun heq => hk heq.symm, h.pass]
          rfl
  | serve k service stamp =>
      by_cases hk : k = key
      · subst hk
        refine ⟨[.serve service stamp], ?_⟩
        simp only [List.foldl_cons, List.foldl_nil, step, System.step, h.store]
        exact h.advance _
      · exact h.advance_other hk (answered_serve service stamp)
  | fail k e =>
      by_cases hk : k = key
      · subst hk
        refine ⟨[.fail e], ?_⟩
        simp only [List.foldl_cons, List.foldl_nil, step, System.step, h.store]
        exact h.advance _
      · exact h.advance_other hk (answered_fail e)
  | abandon k =>
      by_cases hk : k = key
      · subst hk
        exact ⟨[.abandon], h.store, by simp [System.step, step]⟩
      · refine ⟨[], h.store, ?_⟩
        rw [System.step, KeyMap.get?_erase, if_neg fun heq => hk heq.symm, h.pass]
        rfl

end Shows

/-- Every history of the system is, for each runner set, a scene with the same store and with the
pass over the set that is in progress. -/
theorem exists_shows (key : String) (events : List System.Event) :
    ∃ shown : List Event, Shows key (System.run events) (run key shown) := by
  suffices h : ∀ (sys : System) (shown : List Event), Shows key sys (run key shown) →
      ∃ more : List Event, Shows key (events.foldl System.step sys) (run key more) from
    h _ [] ⟨rfl, rfl⟩
  induction events with
  | nil => exact fun sys shown h => ⟨shown, h⟩
  | cons event events ih =>
      intro sys shown h
      obtain ⟨later, hlater⟩ := h.exists_step event
      refine ih _ (shown ++ later) ?_
      rw [run_append]
      exact hlater

end Reconcile.Scene

/-! ## Registrations -/

/-- If the event is the answer to a call, it comes from a service of this kind. -/
def System.Event.AnsweredBy (kind : Actions.Service → Prop) : System.Event → Prop
  | .serve _ service _ => kind service
  | _ => True

namespace Ensemble

/-- A service that answers like one that keeps registrations: it agrees, it says that the runner has
a job, or it says that it does not know the registration. -/
def Keeps (unknown : Actions.Error) (service : Actions.Service) : Prop :=
  ∀ id, service id = .ok () ∨ service id = .error Registry.refusal ∨ service id = .error unknown

/-- The ensemble is the system, with no registration that the service does not know. -/
structure Explains (unknown : Actions.Error) (service : Actions.Service) (sys : System)
    (e : Ensemble) : Prop where
  sys : e.sys = sys
  sameAnswer : e.registry.unknown = unknown
  known : ∀ id ∈ e.registry.registered, service id ≠ .error unknown

section Explains

variable {unknown : Actions.Error} {service : Actions.Service} {sys : System} {e : Ensemble}

/-- Before a removal runners register and take jobs such that it is answered as the service does. -/
theorem Explains.exists_prepared (h : Explains unknown service sys e)
    (hkeeps : Keeps unknown service) (id : Int) : ∃ events : List Event, Explains unknown service sys (events.foldl step e) ∧
      (events.foldl step e).registry.service id = service id := by
  have hregister : ∀ busy : List Int, service id ≠ .error unknown →
      Explains unknown service sys ((e.step (.register id)).step (.employ busy)) := by
    refine fun busy hid => ⟨h.sys, h.sameAnswer, fun other hother => ?_⟩
    rcases List.mem_cons.1 hother with rfl | hother
    · exact hid
    · exact h.known other hother
  have hrefusal : Registry.refusal ≠ unknown := by
    intro heq
    have hidle := e.registry.unknown_idle
    rw [h.sameAnswer, ← heq] at hidle
    cases hidle
  rcases hkeeps id with hid | hid | hid
  · refine ⟨[.register id, .employ []], hregister [] (by rw [hid]; nofun), ?_⟩
    rw [hid]
    simp [step, Registry.service, Registry.remove]
  · refine ⟨[.register id, .employ [id]], hregister [id] ?_, ?_⟩
    · rw [hid]
      exact fun heq => hrefusal (Except.error.inj heq)
    · rw [hid]
      simp [step, Registry.service, Registry.remove]
  · refine ⟨[], h, ?_⟩
    have hid' : id ∉ e.registry.registered := fun hmem => h.known id hmem hid
    exact (Registry.service_of_not_registered hid').trans (by rw [hid, h.sameAnswer])

/-- A call that is answered alike by two services is answered alike in the system. -/
theorem step_serve_congr (sys : System) (key : String) (stamp : Stamp) (v v' : Actions.Service)
    (h : ∀ id next, sys.passes.get? key = some (.call (.deregister id) next) → v id = v' id) :
    sys.step (.serve key v stamp) = sys.step (.serve key v' stamp) := by
  simp only [System.step, System.advance]
  cases hpass : sys.passes.get? key with
  | none => rfl
  | some p =>
      cases p with
      | done result => rfl
      | call c next =>
          cases c with
          | deregister id =>
              simp only [Option.bind_some, Program.answerNext, Call.perform, h id next hpass]
          | _ => rfl

/-- The next call of a pass is answered as the service does. -/
theorem Explains.exists_serve (h : Explains unknown service sys e) (hkeeps : Keeps unknown service)
    (key : String) (stamp : Stamp) : ∃ events : List Event,
      Explains unknown service (sys.step (.serve key service stamp)) (events.foldl step e) := by
  obtain ⟨events, hprepared, hanswer⟩ : ∃ events : List Event,
      Explains unknown service sys (events.foldl step e) ∧
        ∀ id next, sys.passes.get? key = some (.call (.deregister id) next) →
          (events.foldl step e).registry.service id = service id := by
    by_cases hcall : ∃ id next, sys.passes.get? key = some (.call (.deregister id) next)
    · obtain ⟨id, next, hpass⟩ := hcall
      obtain ⟨events, hprepared, hanswer⟩ := h.exists_prepared hkeeps id
      refine ⟨events, hprepared, fun id' next' hpass' => ?_⟩
      rw [hpass] at hpass'
      cases hpass'
      exact hanswer
    · exact ⟨[], h, fun id next hpass => absurd ⟨id, next, hpass⟩ hcall⟩
  refine ⟨events ++ [.serve key stamp], ?_⟩
  rw [List.foldl_append]
  generalize events.foldl step e = e at hprepared hanswer
  refine ⟨?_, ?_, ?_⟩ <;> simp only [List.foldl_cons, List.foldl_nil, step]
  · rw [hprepared.sys]
    exact step_serve_congr sys key stamp _ _ hanswer
  · unfold registryAfter Registry.remove
    repeat' split
    all_goals exact hprepared.sameAnswer
  · intro id hid
    refine hprepared.known id ?_
    unfold registryAfter at hid
    split at hid
    · exact Registry.mem_of_mem_remove hid
    · exact hid

end Explains

/-- A history of the system, in which one service that keeps registrations answers, is a history
with registrations. -/
theorem exists_explains {unknown : Actions.Error} (hidle : unknown.isJobStillRunning = false)
    {service : Actions.Service} (hkeeps : Keeps unknown service) {events : List System.Event}
    (hservice : ∀ event ∈ events, event.AnsweredBy (· = service)) :
    ∃ explained, (run { Registry.empty with unknown, unknown_idle := hidle } explained).sys =
      System.run events := by
  suffices h : ∀ (sys : System) (e : Ensemble), Explains unknown service sys e →
      ∃ explained : List Event,
        Explains unknown service (events.foldl System.step sys) (explained.foldl step e) by
    obtain ⟨explained, hexplained⟩ := h { api := {} }
      ⟨{ api := {} }, { Registry.empty with unknown, unknown_idle := hidle }⟩
      ⟨rfl, rfl, fun id hid => absurd hid List.not_mem_nil⟩
    exact ⟨explained, hexplained.sys⟩
  induction events with
  | nil => exact fun sys e h => ⟨[], h⟩
  | cons event events ih =>
      intro sys e h
      obtain ⟨first, hfirst⟩ : ∃ first : List Event,
          Explains unknown service (sys.step event) (first.foldl step e) := by
        by_cases hserve : event.isServe = true
        · cases event with
          | serve key v stamp =>
              obtain rfl : v = service := hservice _ List.mem_cons_self
              exact h.exists_serve hkeeps key stamp
          | _ => cases hserve
        · refine ⟨[.apart event (Bool.eq_false_iff.2 hserve)], ?_, h.sameAnswer, h.known⟩
          rw [← h.sys]
          rfl
      obtain ⟨later, hlater⟩ :=
        ih (fun event he => hservice event (List.mem_cons_of_mem _ he)) _ _ hfirst
      refine ⟨first ++ later, ?_⟩
      rw [List.foldl_append]
      exact hlater

end Ensemble
end RunnerFleet
