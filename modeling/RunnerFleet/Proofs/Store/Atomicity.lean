import RunnerFleet.Proofs.Store.Places

/-!
# Operations are carried out whole and announced once

An operation on the store either fails and leaves no trace, or writes to its own place and to no
other.  Then exactly one event says what became of the place.  Only a repeated request for removal
is answered without any write, and without an event.

Main results:

- `Becomes.tells`: how a change of a place is announced.
- `announced_of_ok`: an accepted request is announced once, unless it repeats one.
- `perform_announced_once`: every operation is carried out whole, and announced once.
-/

namespace RunnerFleet
namespace Store

/-- An event tells what became of a place, and for which runner set this matters. -/
def Tells (e : WatchEvent) : Option Object → Option Object → Prop
  | none, some new => e.action = .added ∧ e.runnerSetKey = new.runnerSetKey
  | some _, some new => e.action = .modified ∧ e.runnerSetKey = new.runnerSetKey
  | some old, none => e.action = .deleted ∧ e.runnerSetKey = old.runnerSetKey
  | none, none => False

/-- The operation cannot be carried out: something lies where it creates an object, or nothing where
it changes or removes one, or nothing owns the runner that it creates. -/
def Operation.isRefused (s : Store) (op : Operation) : Bool :=
  match op.request with
  | some (.create, place) => (s.look place).isSome
  | some (_, place) => (s.look place).isNone
  | none => !op.isRead

section Becomes

variable {request : Request} {before after : Option Object} {events : List WatchEvent}

/-- A place is announced once, unless its removal is requested again. -/
theorem Becomes.tells (h : Becomes request before after events)
    (hfirst : request = .remove → ∀ old, before = some old → old.metadata.isWaiting = false) :
    ∃ e, events = [e] ∧ Tells e before after := by
  cases h with
  | added hheld => exact ⟨_, rfl, Object.announce_action _ _, Object.announce_runnerSetKey _ _⟩
  | modified => exact ⟨_, rfl, Object.announce_action _ _, Object.announce_runnerSetKey _ _⟩
  | deleted => exact ⟨_, rfl, Object.announce_action _ _, Object.announce_runnerSetKey _ _⟩
  | waiting hwaiting => exact absurd hwaiting (by simp [hfirst rfl _ rfl])

/-- A place that is announced has changed: even what is written anew bears another version. -/
theorem Becomes.changes (h : Becomes request before after events) (htold : events ≠ []) :
    after ≠ before := by
  cases h with
  | added | deleted => simp
  | modified _ _ _ _ hversion =>
      intro hsame
      rw [Option.some.inj hsame] at hversion
      omega
  | waiting => exact absurd rfl htold

end Becomes

section Operation

variable {s : Store} {op : Operation} {request : Request} {place : Place}

/-- An operation that asks something of a place does not only look. -/
theorem isRead_of_request (h : op.request = some (request, place)) : op.isRead = false := by
  cases op <;> first | rfl | cases h

/-- A request that is refused for what lies at its place is a refused operation. -/
theorem isRefused_of_refuses (h : op.request = some (request, place)) {key : String} {e : Error}
    (hrefuses : Refuses key e request (s.look place)) : op.isRefused s = true := by
  rw [Operation.isRefused, h]
  cases request <;> cases hlook : s.look place <;> simp_all [Refuses]

/-- A request that is accepted is no refused operation. -/
theorem not_isRefused_of_becomes (h : op.request = some (request, place)) {after : Option Object}
    {events : List WatchEvent} (hplace : Becomes request (s.look place) after events) :
    op.isRefused s = false := by
  rw [Operation.isRefused, h]
  cases hlook : s.look place with
  | none =>
      rw [hlook] at hplace
      cases hplace with
      | added => simp [hlook]
  | some old =>
      have hwrites : request ≠ .create := by
        rw [hlook] at hplace
        cases hplace with
        | modified hwrites => exact hwrites
        | deleted hwrites => exact hwrites
        | waiting => simp
      cases request <;> simp_all

/-- A request is refused exactly for what lies at its place. -/
theorem error_iff_isRefused (hs : s.Sound) (stamp : Stamp)
    (h : op.request = some (request, place)) :
    (∃ e, (s.perform stamp op).result = .error e) ↔ op.isRefused s = true := by
  have hacts := perform_acts hs stamp h
  cases hresult : (s.perform stamp op).result with
  | error e => exact iff_of_true ⟨e, rfl⟩ (isRefused_of_refuses h (hacts.of_error hresult).1)
  | ok answer =>
      refine iff_of_false (fun ⟨_, he⟩ => by cases he) ?_
      rw [not_isRefused_of_becomes h (hacts.of_ok hresult).2.2]
      exact Bool.false_ne_true

/-- A request that is accepted is announced once, unless it repeats one and changes nothing. -/
theorem announced_of_ok (hs : s.Sound) (stamp : Stamp) (h : op.request = some (request, place))
    {answer : op.Answer} (hok : (s.perform stamp op).result = .ok answer) :
    if op.repeats s then
      (s.look place).isSome = true ∧ (s.perform stamp op).store = s ∧
        (s.perform stamp op).events = []
    else ∃ e, (s.perform stamp op).events = [e] ∧
      Tells e (s.look place) ((s.perform stamp op).store.look place) := by
  obtain ⟨hothers, -, hplace⟩ := (perform_acts hs stamp h).of_ok hok
  split
  · rename_i hrepeats
    obtain ⟨rfl, old, hold, hwaiting⟩ := (repeats_iff h).1 hrepeats
    rw [hold] at hplace
    obtain ⟨hafter, hevents⟩ := hplace.of_waiting hwaiting
    refine ⟨by rw [hold]; rfl, ext_look fun p => ?_, hevents⟩
    by_cases hp : p = place
    · rw [hp, hafter, hold]
    · exact hothers p hp
  · rename_i hfirst
    refine hplace.tells fun hremove old hold => Bool.eq_false_iff.2 fun hwaiting => ?_
    exact hfirst ((repeats_iff h).2 ⟨hremove, old, hold, hwaiting⟩)

end Operation

/-- An operation that fails leaves no trace, and so does one that only looks.  Every other operation
writes to its own place alone, and one event tells what became of it; only a repeated request for
the removal of an object that waits for it shows that object, changes nothing and is not
announced. -/
theorem perform_announced_once {s : Store} (hs : s.Reachable) (stamp : Stamp) (op : Operation) :
    let o := s.perform stamp op
    ((∃ e, o.result = .error e) ↔ op.isRefused s = true) ∧
    (∀ e, o.result = .error e → o.store = s ∧ o.events = []) ∧
    (op.isRead = true → o.store = s ∧ o.events = []) ∧
    ∀ answer, o.result = .ok answer → op.isRead = false →
      ∃ place, op.place = some place ∧ op.shown answer = o.store.look place ∧
        (∀ p, p ≠ place → o.store.look p = s.look p) ∧
        if op.repeats s then (s.look place).isSome = true ∧ o.store = s ∧ o.events = []
        else ∃ e, o.events = [e] ∧ Tells e (s.look place) (o.store.look place) := by
  intro o
  cases hrequest : op.request with
  | none =>
      obtain ⟨hstore, hevents, hresult⟩ := perform_of_request_eq_none s stamp hrequest
      refine ⟨?_, fun _ _ => ⟨hstore, hevents⟩, fun _ => ⟨hstore, hevents⟩, ?_⟩
      · rw [hresult, Operation.isRefused, hrequest]
        simp
      · intro answer hanswer hread
        obtain ⟨e, he⟩ := hresult.2 hread
        cases he.symm.trans hanswer
  | some asked =>
      obtain ⟨request, place⟩ := asked
      have hread := isRead_of_request hrequest
      have hacts : Acts s request place op.shown o := perform_acts hs.sound stamp hrequest
      refine ⟨error_iff_isRefused hs.sound stamp hrequest, fun e he => (hacts.of_error he).2,
        fun h => ?_, fun answer hok _ => ?_⟩
      · rw [hread] at h
        cases h
      · obtain ⟨hothers, hshown, -⟩ := hacts.of_ok hok
        refine ⟨place, ?_, hshown, hothers, announced_of_ok hs.sound stamp hrequest hok⟩
        rw [Operation.place, hrequest, Option.map_some]

/-- A runner set that a finalizer holds, after the request for its removal. -/
def awaitingRelease : Store :=
  ofOperations
    [.createSet
        { metadata := { name := "linux", namespaceName := "ci", finalizers := ["archive"] }
          spec := { replicas := 0, template := { image := "image" } } },
      .deleteSet "ci/linux"]

/-- The removal of this set is not announced when it is requested again, but when the finalizer is
released. -/
theorem awaitingRelease_announced_once :
    (awaitingRelease.perform Stamp.sample (.deleteSet "ci/linux")).events = [] ∧
    ∃ e, (awaitingRelease.perform Stamp.sample (.setSetFinalizers "ci/linux" [])).events = [e] ∧
      e.action = .deleted := by
  have hreached : awaitingRelease.Reachable := reachable_ofOperations _
  constructor
  · have hrepeats : (Operation.deleteSet "ci/linux").repeats awaitingRelease = true := by
      decide +kernel
    obtain ⟨place, -, -, -, hplace⟩ :=
      (perform_announced_once hreached Stamp.sample (.deleteSet "ci/linux")).2.2.2 _ rfl rfl
    rw [if_pos hrepeats] at hplace
    exact hplace.2.2
  · have hfirst : (Operation.setSetFinalizers "ci/linux" []).repeats awaitingRelease ≠ true := by
      decide +kernel
    obtain ⟨place, hown, -, -, hplace⟩ := (perform_announced_once hreached Stamp.sample
      (.setSetFinalizers "ci/linux" [])).2.2.2 none rfl rfl
    rw [if_neg hfirst] at hplace
    obtain ⟨e, hevents, htells⟩ := hplace
    obtain rfl : Place.sets "ci/linux" = place := Option.some.inj hown
    exact ⟨e, hevents, htells.1⟩

end Store
end RunnerFleet
