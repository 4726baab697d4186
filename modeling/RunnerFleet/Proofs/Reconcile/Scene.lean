import Mathlib.Data.List.Induction
import RunnerFleet.Proofs.Reconcile.Transcript

/-!
# Passes over one set amid others

Passes over one runner set are made one after the other, and each takes a step when its next call is
answered.  Between two calls others may do anything to the store: operations of any kind on any
object.  A call may fail without effect, and a pass may be cut off before any call.  The calls of
the latest pass are kept with their answers.

Main results:

- `next_step`: everything that a step can do.
- `Sound.keeps`: what each step keeps, a run keeps.
- `exists_moment`: every call of the latest pass was answered from the store of some moment.
- `Sound.step`, `sound_run`: the store is one that operations lead to, and the calls of the latest
  pass are a transcript with possible answers.
-/

namespace RunnerFleet
namespace Reconcile

open Program

/-- A store that others write to, and the latest pass over a set in it. -/
structure Scene where
  store : Store := {}
  /-- What is left of the latest pass, unless it was cut off. -/
  pass : Option (Program (Except Error Unit)) := none
  /-- The calls of the latest pass so far. -/
  calls : List Exchange := []

namespace Scene

/-- What may happen next. -/
inductive Event where
  /-- Somebody else carries out an operation. -/
  | other (stamp : Stamp) (op : Store.Operation)
  /-- A pass begins, unless one is in progress. -/
  | begin (suffix : Nat → String)
  /-- The next call of the pass is carried out. -/
  | serve (service : Actions.Service) (stamp : Stamp)
  /-- The next call of the pass fails. -/
  | fail (e : Store.Error)
  /-- The pass is cut off. -/
  | abandon

/-- The pass goes on with the answer to its next call, if there is one. -/
def advance (sc : Scene) (reply : (c : Call) → Option (c.Answer × Store)) : Scene :=
  match sc.pass.bind (answerNext reply) with
  | some (e, rest, store) => { store, pass := some rest, calls := sc.calls ++ [e] }
  | none => sc

/-- What becomes of the scene when something happens. -/
def step (key : String) (sc : Scene) : Event → Scene
  | .other stamp op => { sc with store := (sc.store.perform stamp op).store }
  | .begin suffix =>
      match sc.pass with
      | some (.call _ _) => sc
      | _ => { sc with pass := some (Reconcile.pass suffix key), calls := [] }
  | .serve service stamp =>
      sc.advance fun c =>
        let reply := c.perform service stamp sc.store
        some (reply.answer, reply.store)
  | .fail e => sc.advance fun c => (c.failWith e).map fun answer => (answer, sc.store)
  | .abandon => { sc with pass := none }

/-- The scene after these events, from an empty store. -/
def run (key : String) (events : List Event) : Scene :=
  events.foldl (step key) {}

theorem run_append (key : String) (events more : List Event) :
    run key (events ++ more) = more.foldl (step key) (run key events) :=
  List.foldl_append

theorem run_concat (key : String) (events : List Event) (event : Event) :
    run key (events ++ [event]) = (run key events).step key event := by
  rw [run_append]
  rfl

/-- The next call of a pass is carried out. -/
theorem step_serve (key : String) {sc : Scene} {c : Call}
    {next : c.Answer → Program (Except Error Unit)} (h : sc.pass = some (.call c next))
    (service : Actions.Service) (stamp : Stamp) :
    sc.step key (.serve service stamp) =
      { store := (c.perform service stamp sc.store).store
        pass := some (next (c.perform service stamp sc.store).answer)
        calls := sc.calls ++ [⟨c, (c.perform service stamp sc.store).answer⟩] } := by
  rw [step, advance, h]
  rfl

/-- Whether the pass has a call yet to make. -/
def InProgress (sc : Scene) : Prop :=
  ∃ c next, sc.pass = some (.call c next)

/-! ## Steps -/

/-- Everything that a step can do. -/
inductive Next (key : String) (sc : Scene) : Event → Scene → Prop where
  /-- Nothing comes of the event. -/
  | idle (event : Event) : Next key sc event sc
  | other (stamp : Stamp) (op : Store.Operation) :
      Next key sc (.other stamp op) { sc with store := (sc.store.perform stamp op).store }
  | begin (suffix : Nat → String) (free : ¬ sc.InProgress) :
      Next key sc (.begin suffix)
        { sc with pass := some (Reconcile.pass suffix key), calls := [] }
  /-- The next call of the pass is answered. -/
  | answer {event : Event} {c : Call} {next : c.Answer → Program (Except Error Unit)}
      {answer : c.Answer} {after : Store} (pass : sc.pass = some (.call c next))
      (answered : c.Answered sc.store answer after) :
      Next key sc event
        { store := after, pass := some (next answer), calls := sc.calls ++ [⟨c, answer⟩] }
  | abandon : Next key sc .abandon { sc with pass := none }

/-- A pass goes on with possible answers. -/
theorem next_advance (key : String) (sc : Scene) (event : Event)
    {reply : (c : Call) → Option (c.Answer × Store)}
    (h : ∀ c answer after, reply c = some (answer, after) → c.Answered sc.store answer after) :
    sc.Next key event (sc.advance reply) := by
  unfold advance
  split
  · rename_i e rest store hgone
    obtain ⟨p, hpass, hnext⟩ := Option.bind_eq_some_iff.1 hgone
    obtain ⟨c, next, answer, after, rfl, hreply, heq⟩ := answerNext_eq_some hnext
    cases heq
    exact .answer hpass (h c answer store hreply)
  · exact .idle event

/-- There is nothing else that a step can do. -/
theorem next_step (key : String) (sc : Scene) (event : Event) :
    sc.Next key event (sc.step key event) := by
  cases event with
  | other stamp op => exact .other stamp op
  | begin suffix =>
      rw [step]
      split
      · exact .idle _
      · rename_i hfree
        exact .begin suffix fun ⟨c, next, hpass⟩ => hfree c next hpass
  | serve service stamp => exact next_advance key sc _ (answered_serve service stamp)
  | fail e => exact next_advance key sc _ (answered_fail e)
  | abandon => exact .abandon

/-! ## What holds throughout -/

/-- Operations led to the store, and the calls of the latest pass are a transcript of it, with
possible answers. -/
structure Sound (key : String) (sc : Scene) : Prop where
  reached : sc.store.Reachable
  leads : ∃ suffix q, (Reconcile.pass suffix key).Leads sc.calls q ∧ ∀ p, sc.pass = some p → p = q
  possible : ∀ e ∈ sc.calls, e.Possible

/-- Whatever happens next, the scene stays sound. -/
theorem Sound.step {key : String} {sc : Scene} (h : sc.Sound key) (event : Event) :
    (sc.step key event).Sound key := by
  have hnext := next_step key sc event
  generalize sc.step key event = after at hnext
  cases hnext with
  | idle => exact h
  | other stamp op => exact ⟨h.reached.perform stamp op, h.leads, h.possible⟩
  | begin suffix free =>
      refine ⟨h.reached, ⟨suffix, _, .refl _, ?_⟩, fun e he => absurd he List.not_mem_nil⟩
      exact fun p hp => (Option.some.inj hp).symm
  | @answer _ c next answer after hpass hanswered =>
      obtain ⟨suffix, q, hleads, hq⟩ := h.leads
      obtain rfl := hq _ hpass
      refine ⟨hanswered.reachable h.reached, ⟨suffix, _, hleads.concat answer, ?_⟩, ?_⟩
      · exact fun p hp => (Option.some.inj hp).symm
      · intro e he
        rcases List.mem_append.1 he with he | he
        · exact h.possible e he
        · obtain rfl := List.mem_singleton.1 he
          exact ⟨sc.store, after, h.reached, hanswered⟩
  | abandon =>
      obtain ⟨suffix, q, hleads, -⟩ := h.leads
      exact ⟨h.reached, ⟨suffix, q, hleads, fun p hp => nomatch hp⟩, h.possible⟩

/-- The scene is sound, whatever has happened since the store was empty. -/
theorem sound_run (key : String) (events : List Event) : (run key events).Sound key := by
  suffices h : ∀ sc : Scene, sc.Sound key → (events.foldl (Scene.step key) sc).Sound key by
    refine h {} ⟨.empty, ⟨toString, _, .refl _, fun p hp => nomatch hp⟩, ?_⟩
    exact fun e he => absurd he List.not_mem_nil
  induction events with
  | nil => exact fun sc hsc => hsc
  | cons event events ih => exact fun sc hsc => ih _ (hsc.step event)

/-- What each step keeps under a condition is kept by a run, if the condition holds throughout. -/
theorem Sound.keeps {key : String} {kept condition : Scene → Prop} {allowed : Event → Prop}
    (hstep : ∀ sc event, sc.Sound key → kept sc → condition sc → allowed event →
      kept (sc.step key event))
    {sc : Scene} (hs : sc.Sound key) (hkept : kept sc) {events : List Event}
    (hcondition : ∀ first, first <+: events → condition (first.foldl (Scene.step key) sc))
    (hallowed : ∀ event ∈ events, allowed event) :
    kept (events.foldl (Scene.step key) sc) := by
  induction events generalizing sc with
  | nil => exact hkept
  | cons event events ih =>
      have hnow := hcondition [] List.nil_prefix
      have hnext := hstep sc event hs hkept hnow (hallowed event List.mem_cons_self)
      refine ih (hs.step event) hnext ?_ fun event he => hallowed event (List.mem_cons_of_mem _ he)
      intro first hfirst
      exact hcondition (event :: first) ((List.prefix_cons_inj event).2 hfirst)

/-- Every call of the latest pass was answered at some moment, from the store of that moment. -/
theorem exists_moment {key : String} {events : List Event} {e : Exchange}
    (h : e ∈ (run key events).calls) :
    ∃ earlier event later, events = earlier ++ event :: later ∧
      e.call.Answered (run key earlier).store e.answer (run key (earlier ++ [event])).store := by
  induction events using List.reverseRecOn with
  | nil => exact absurd h List.not_mem_nil
  | append_singleton events event ih =>
      have hearlier : e ∈ (run key events).calls → ∃ earlier event' later,
          events ++ [event] = earlier ++ event' :: later ∧
            e.call.Answered (run key earlier).store e.answer
              (run key (earlier ++ [event'])).store := by
        intro he
        obtain ⟨earlier, event', later, rfl, hanswered⟩ := ih he
        exact ⟨earlier, event', later ++ [event], by simp, hanswered⟩
      have hnext := next_step key (run key events) event
      have hlast := run_concat key events event
      generalize (run key events).step key event = after at hnext hlast
      rw [hlast] at h
      cases hnext with
      | idle | other | abandon => exact hearlier h
      | begin => exact absurd h List.not_mem_nil
      | answer hpass hanswered =>
          rcases List.mem_append.1 h with he | he
          · exact hearlier he
          · obtain rfl := List.mem_singleton.1 he
            exact ⟨events, event, [], rfl, by rw [hlast]; exact hanswered⟩

/-- The set that the latest pass goes by lay under its own key. -/
theorem Sound.key_of_firstRead {key : String} {sc : Scene} (h : sc.Sound key) {set : RunnerSet}
    (hread : firstRead sc.calls = some set) : set.key = key := by
  obtain ⟨suffix, q, hleads, -⟩ := h.leads
  have hmem := (midway_of_leads hleads).mem_of_firstRead hread
  obtain ⟨s, after, hreached, hanswered⟩ := h.possible _ hmem
  exact hreached.keyed.set hanswered.getSet.2

/-- What the latest pass has done and has left to do. -/
theorem Sound.midway {key : String} {sc : Scene} (h : sc.Sound key)
    {p : Program (Except Error Unit)} (hpass : sc.pass = some p) :
    ∃ suffix, Midway suffix key sc.calls p := by
  obtain ⟨suffix, q, hleads, hq⟩ := h.leads
  exact ⟨suffix, midway_of_leads (hq p hpass ▸ hleads)⟩

/-- After an answer the latest pass goes by the set that it went by before, or by what is stored
just now. -/
theorem Sound.firstRead_answer {key : String} {sc : Scene} (h : sc.Sound key) {c : Call}
    {next : c.Answer → Program (Except Error Unit)} (hpass : sc.pass = some (.call c next))
    {answer : c.Answer} {after : Store} (hanswered : c.Answered sc.store answer after)
    {read : RunnerSet} (hread : firstRead (sc.calls ++ [⟨c, answer⟩]) = some read) :
    firstRead sc.calls = some read ∨ after = sc.store ∧ sc.store.getSet key = some read := by
  rw [firstRead, List.findSome?_append] at hread
  obtain ⟨suffix, hmidway⟩ := h.midway hpass
  cases hbefore : firstRead sc.calls with
  | some read' =>
      rw [show sc.calls.findSome? Exchange.read? = some read' from hbefore, Option.some_or] at hread
      exact Or.inl hread
  | none =>
      obtain ⟨hnil, rfl⟩ := hmidway.due.eq_getSet hbefore
      rw [hnil] at hread
      rcases answer with e | found
      · cases hread
      · obtain rfl : found = some read := by simpa [Exchange.read?] using hread
        exact Or.inr hanswered.getSet

/-- After an answer the latest pass goes by the runners that it went by before, or by those that are
stored just now. -/
theorem Sound.firstListing_answer {key : String} {sc : Scene} (h : sc.Sound key) {c : Call}
    {next : c.Answer → Program (Except Error Unit)} (hpass : sc.pass = some (.call c next))
    {answer : c.Answer} {after : Store} (hanswered : c.Answered sc.store answer after)
    {runners : List Runner}
    (hlisted : firstListing (sc.calls ++ [⟨c, answer⟩]) = some runners) :
    firstListing sc.calls = some runners ∨
      after = sc.store ∧ sc.store.runnersOf key = runners := by
  rw [firstListing, List.findSome?_append] at hlisted
  obtain ⟨suffix, hmidway⟩ := h.midway hpass
  cases hbefore : firstListing sc.calls with
  | some runners' =>
      rw [show sc.calls.findSome? Exchange.listed? = some runners' from hbefore,
        Option.some_or] at hlisted
      exact Or.inl hlisted
  | none =>
      rw [show sc.calls.findSome? Exchange.listed? = none from hbefore, Option.none_or] at hlisted
      cases c with
      | listRunners k =>
          obtain rfl := hmidway.due.eq_of_listRunners hbefore
          rcases answer with e | found
          · cases hlisted
          · obtain rfl : found = runners := by simpa [Exchange.listed?] using hlisted
            exact Or.inr hanswered.listRunners
      | _ => simp [Exchange.listed?] at hlisted

/-- The next call is carried out, and the Actions service agrees to everything. -/
def serve : Event :=
  .serve (fun _ => .ok ()) Stamp.sample

end Scene
end Reconcile
end RunnerFleet
