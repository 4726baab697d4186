import RunnerFleet.Proofs.Api.Requests
import RunnerFleet.Proofs.Daemon.Lifetimes
import RunnerFleet.Proofs.Daemon.Work
import RunnerFleet.Proofs.Store.Effect

/-!
# Machines as lifetimes of daemons

A machine whose daemons serve the same runner set, one after the other, and which is asked for
nothing but reports and answers, does what the lifetimes of daemons do.  Its controller may start
passes over other runner sets; they find nothing, since no other set is ever stored.

Main results:

- `Site.listen_eq_process`: a listener at a site takes a report as it does over the store alone.
- `Lives.getSet_other`: no set is stored but the one that is served.
- `Lives.kept_serves`: what a daemon does by itself happens in its lifetime.
- `Lives.exists_history`: the store of such a machine and its listener are those of lifetimes.
-/

namespace RunnerFleet
namespace Daemon

open Reconcile

/-! ## Reports -/

/-- A listener at a site takes a report as it does over the store of the site. -/
theorem Site.listen_eq_process (s : Site) (key : String) (l : Scaling.Listener) (batch : JobBatch) :
    ((s.listen key l [batch]).1, (s.listen key l [batch]).2.store) =
      (((l.process (Lives.write key s.stamp none) batch).run s.store).run.1.2,
        ((l.process (Lives.write key s.stamp none) batch).run s.store).run.2) := by
  change (((l.process (writePatch key) batch).run s).1.2,
    ((l.process (writePatch key) batch).run s).2.store) = _
  rw [Scaling.Listener.process_run, Scaling.Listener.process_run]
  split
  · rfl
  · simp only [writePatch, Lives.write, StateT.run, perform]
    cases (s.store.perform s.stamp (.patchSpec key (l.decisionFor batch).replicas
      (l.decisionFor batch).patchId)).result <;> rfl

/-- A listener keeps its bounds. -/
theorem Site.listen_bounds (s : Site) (key : String) (l : Scaling.Listener) (batch : JobBatch) :
    (s.listen key l [batch]).1.bounds = l.bounds := by
  change ((l.process (writePatch key) batch).run s).1.2.bounds = l.bounds
  rw [Scaling.Listener.process_run]
  split
  · rfl
  · split <;> rfl

namespace Lives

variable {plan : Plan} {l : Lives}

/-! ## The only runner set -/

/-- No runner set is stored but perhaps the one with this key. -/
def OnlySet (key : String) (s : Store) : Prop :=
  ∀ k, k ≠ key → s.getSet k = none

/-- An operation that stores no other runner set brings no other one. -/
theorem OnlySet.perform {key : String} {s : Store} (h : OnlySet key s) (stamp : Stamp)
    {op : Store.Operation} (hop : ∀ set, op = .createSet set → set.key = key) :
    OnlySet key (s.perform stamp op).store := by
  intro k hk
  rw [Store.getSet_perform, h k hk]
  cases op with
  | createSet set => exact if_neg fun heq => hk (heq.trans (hop set rfl))
  | patchSpec | updateSetStatus | setSetFinalizers | deleteSet =>
      simp [Store.Operation.onSet]
  | _ => rfl

/-- No call of a pass stores a runner set. -/
theorem OnlySet.answered {key : String} {s after : Store} (h : OnlySet key s) {c : Call}
    {answer : c.Answer} (hanswered : c.Answered s answer after) : OnlySet key after := by
  rcases hanswered.store with rfl | ⟨op, stamp, hop, rfl⟩
  · exact h
  · refine h.perform stamp fun set heq => ?_
    cases c <;> simp [heq, Call.operation?] at hop

/-- A daemon that starts stores no other runner set. -/
theorem OnlySet.launch (h : OnlySet plan.key l.store) (lifetime : Nat) (stamp : Stamp) :
    OnlySet plan.key (l.launch plan lifetime stamp).store := by
  unfold Lives.launch
  dsimp only
  split
  · exact h
  · refine h.perform stamp fun set heq => ?_
    cases heq
    exact plan.key_runnerSet lifetime

/-- Whatever happens next, no other runner set is stored. -/
theorem OnlySet.step (h : OnlySet plan.key l.store) (event : Event) :
    OnlySet plan.key (l.step plan event).store := by
  have hadvance : ∀ answer : (c : Call) → Option (c.Answer × Store),
      (∀ c reply after, answer c = some (reply, after) → c.Answered l.store reply after) →
        OnlySet plan.key (l.advance plan answer).store := by
    intro answer hanswer
    rcases advance_cases plan l answer with heq | ⟨c, next, read, reply, store, -, hreply, heq⟩
    · rw [heq]
      exact h
    · rw [heq]
      exact h.answered (hanswer c reply store hreply)
  cases event with
  | batch stamp batch fault =>
      obtain ⟨store, listener, current, written, heq, -, hstore⟩ :=
        takeBatch_cases plan l stamp batch fault
      rw [Lives.step, heq]
      rcases hstore with rfl | rfl
      · exact h
      · exact h.perform stamp fun set heq => by cases heq
  | report stamp name status => exact h.perform stamp fun set heq => by cases heq
  | begin suffix =>
      rw [Lives.step]
      split <;> exact h
  | serve service stamp => exact hadvance _ (answered_serve service stamp)
  | fail e => exact hadvance _ (answered_fail e)
  | abandon => exact h
  | restart stamp => exact h.launch (l.lifetime + 1) stamp

/-- No runner set is ever stored but the one that is served. -/
theorem getSet_other (plan : Plan) (stamp : Stamp) (events : List Event) :
    OnlySet plan.key (run plan stamp events).store := by
  unfold run
  suffices h : ∀ l : Lives, OnlySet plan.key l.store →
      OnlySet plan.key (events.foldl (Lives.step plan) l).store from
    h _ (OnlySet.launch (fun _ _ => rfl) 0 stamp)
  induction events with
  | nil => exact fun l h => h
  | cons event events ih => exact fun l h => ih _ (h.step event)

/-! ## A daemon in its lifetime -/

/-- No pass is in progress in the lifetime with this number, and this is the store. -/
structure Idle (lifetime : Nat) (store : Store) (l : Lives) : Prop where
  lifetime : l.lifetime = lifetime
  store : l.store = store
  pass : l.pass = none

/-- Lifetimes that lead to the store of the site. -/
def Ended (plan : Plan) (lifetime : Nat) (s : Site) : Prop :=
  ∃ stamp events, (run plan stamp events).Idle lifetime s.store

/-- Lifetimes that lead to the store of the site and to the listener of the daemon. -/
def Serves (plan : Plan) (lifetime : Nat) (d : Running) (s : Site) : Prop :=
  d.key = plan.key ∧ ∃ stamp events, (run plan stamp events).Idle lifetime s.store ∧
    (run plan stamp events).listener = d.listener

section Serves

variable {lifetime : Nat} {d : Running} {s : Site}

theorem run_append (plan : Plan) (stamp : Stamp) (events : List Event) (event : Event) :
    run plan stamp (events ++ [event]) = (run plan stamp events).step plan event := by
  rw [run, List.foldl_append]
  rfl

/-- The listener takes a report. -/
theorem Serves.report (h : Serves plan lifetime d s) (batch : JobBatch) :
    Serves plan lifetime { d with listener := (s.listen d.key d.listener [batch]).1 }
      (s.listen d.key d.listener [batch]).2 := by
  obtain ⟨hkey, stamp, events, ⟨hlifetime, hstore, hpass⟩, hlistener⟩ := h
  have htaken := s.listen_eq_process d.key d.listener batch
  rw [← hstore, ← hlistener, hkey] at htaken
  refine ⟨hkey, stamp, events ++ [.batch s.stamp batch none], ?_⟩
  rw [run_append, step, ← hlistener, hkey]
  generalize run plan stamp events = l at *
  have hfields : (l.takeBatch plan s.stamp batch none).lifetime = l.lifetime ∧
      (l.takeBatch plan s.stamp batch none).pass = l.pass ∧
        ((l.takeBatch plan s.stamp batch none).listener,
          (l.takeBatch plan s.stamp batch none).store) =
            ((s.listen plan.key l.listener [batch]).1,
              (s.listen plan.key l.listener [batch]).2.store) := by
    rw [htaken, takeBatch]
    dsimp only
    split <;> exact ⟨rfl, rfl, rfl⟩
  obtain ⟨hlifetime', hpass', hboth⟩ := hfields
  exact ⟨⟨hlifetime'.trans hlifetime, (Prod.mk.inj hboth).2, hpass'.trans hpass⟩,
    (Prod.mk.inj hboth).1⟩

/-- Lifetimes that lead to where a pass over the set has this left to do. -/
def Within (plan : Plan) (lifetime : Nat) (d : Running)
    (p : Program (Except Reconcile.Error Unit)) (env : Environment) : Prop :=
  ∃ stamp events read, (run plan stamp events).lifetime = lifetime ∧
    (run plan stamp events).store = env.store ∧
      (run plan stamp events).pass = Progress.remaining ⟨p, read⟩ ∧
        (run plan stamp events).listener = d.listener

/-- A pass goes on with the answer of its environment. -/
theorem Within.serve {c : Call} {next : c.Answer → Program (Except Reconcile.Error Unit)}
    {env : Environment} (h : Within plan lifetime d (.call c next) env) :
    Within plan lifetime d (next (env.serve c).1) (env.serve c).2 := by
  obtain ⟨stamp, events, read, hlifetime, hstore, hpass, hlistener⟩ := h
  refine ⟨stamp, events ++ [.serve env.service (env.stamps env.clock)],
    noteRead (run plan stamp events).current read ⟨c, (env.serve c).1⟩, ?_⟩
  have hpass : (run plan stamp events).pass = some ⟨.call c next, read⟩ := hpass
  rw [run_append]
  simp only [step, advance, hpass, Program.answerNext, Option.map_some, hstore]
  exact ⟨hlifetime, rfl, rfl, hlistener⟩

/-- A pass runs over a runner set. -/
theorem Serves.runPass (h : Serves plan lifetime d s) (key : String) {d' : Running}
    (hd : Running.SameServed d d') : Serves plan lifetime d' (s.runPass key).2 := by
  obtain ⟨hkey, stamp, events, ⟨hlifetime, hstore, hpass⟩, hlistener⟩ := h
  refine ⟨hd.key.trans hkey, ?_⟩
  rw [hd.listener]
  by_cases hk : key = plan.key
  · have hbegin : Within plan lifetime d (Reconcile.pass s.suffix key) s.surroundings := by
      refine ⟨stamp, events ++ [.begin s.suffix], none, ?_⟩
      rw [run_append]
      simp only [step, hpass]
      exact ⟨hlifetime, hstore, by rw [hk]; rfl, hlistener⟩
    obtain ⟨result, env, ⟨stamp', events', read, hlifetime', hstore', hpass', hlistener'⟩, -,
      hlast, -⟩ := Site.runPass_keeps (fun hwithin => Within.serve hwithin) hbegin
    exact ⟨stamp', events', ⟨hlifetime', hstore'.trans hlast.symm, hpass'⟩, hlistener'⟩
  · have hnone : s.store.getSet key = none := hstore ▸ getSet_other plan stamp events key hk
    rw [s.runPass_of_missing hnone]
    exact ⟨stamp, events, ⟨hlifetime, hstore, hpass⟩, hlistener⟩

/-- What a daemon does by itself happens in its lifetime. -/
theorem kept_serves (plan : Plan) (lifetime : Nat) : Kept (Serves plan lifetime) where
  control {d s} h := by
    obtain ⟨hkey, hlistener⟩ := d.sameServed_control s
    exact ⟨hkey.trans h.1, hlistener ▸ h.2⟩
  drain _ h := h
  report batch h := h.report batch
  pass {_ _ key _} _ h := h.runPass key ⟨rfl, rfl⟩
  expire _ h := h
  around h hstore _ _ := ⟨h.1, hstore ▸ h.2⟩

/-! ## Daemons that start, and requests -/

/-- A daemon that starts is one whose lifetime begins. -/
theorem launch_idle (plan : Plan) (hstore : l.store = s.store) (lifetime : Nat) :
    (l.launch plan lifetime s.stamp).Idle lifetime
        (Machine.ensureSet s (plan.config lifetime)).store ∧
      (l.launch plan lifetime s.stamp).listener = { bounds := plan.bounds lifetime } := by
  unfold Lives.launch Machine.ensureSet
  rw [plan.key_runnerSet, hstore]
  cases s.store.getSet plan.key <;> exact ⟨⟨rfl, rfl, rfl⟩, rfl⟩

/-- The first daemon starts on an empty store. -/
theorem serves_first (plan : Plan) (hstore : s.store = {}) :
    Serves plan 0 (Running.new (plan.config 0)) (Machine.ensureSet s (plan.config 0)) := by
  obtain ⟨hidle, hlistener⟩ := launch_idle plan (s := s)
    (l := { listener := { bounds := plan.bounds 0 }, current := ⟨0, ⟨0, 0⟩⟩ }) hstore.symm 0
  exact ⟨rfl, s.stamp, [], hidle, hlistener⟩

/-- The next daemon starts where the one before has left the store. -/
theorem Ended.serves_next (h : Ended plan lifetime s) :
    Serves plan (lifetime + 1) (Running.new (plan.config (lifetime + 1)))
      (Machine.ensureSet s (plan.config (lifetime + 1))) := by
  obtain ⟨stamp, events, hlifetime, hstore, -⟩ := h
  obtain ⟨hidle, hlistener⟩ := launch_idle plan hstore (lifetime + 1)
  refine ⟨plan.key_runnerSet (lifetime + 1), stamp, events ++ [.restart s.stamp], ?_⟩
  rw [run_append, step, hlifetime]
  exact ⟨hidle, hlistener⟩

/-- The request writes nothing but the statuses of the runners of the set. -/
def OnlyReports (key : String) (request : Api.Request) : Prop :=
  ∀ op, request.MayWrite op → ∃ name status, op = .updateRunnerStatus key name status

/-- A request brings the report of a runner, or leaves the store alone. -/
theorem Serves.respond (h : Serves plan lifetime d s) {request : Api.Request}
    (hrequest : OnlyReports plan.key request) :
    Serves plan lifetime { d with queues := (s.respond d.queues request).2.1 }
      (s.respond d.queues request).2.2 := by
  obtain ⟨hkey, stamp, events, ⟨hlifetime, hstore, hpass⟩, hlistener⟩ := h
  refine ⟨hkey, stamp, ?_⟩
  rcases Api.State.touched_respond ⟨s.store, d.queues⟩ s.stamp request with
    ⟨hsame, -⟩ | ⟨op, hop, hdone, -⟩
  · exact ⟨events, ⟨hlifetime, hstore.trans hsame.symm, hpass⟩, hlistener⟩
  · obtain ⟨name, status, rfl⟩ := hrequest op hop
    refine ⟨events ++ [.report s.stamp name status], ?_⟩
    rw [run_append, step, hstore]
    exact ⟨⟨hlifetime, hdone.symm, hpass⟩, hlistener⟩

end Serves

/-! ## Commands -/

/-- A command to a daemon by which nothing but reports and answers is asked for, and no operation is
carried out from outside. -/
def Admitted (key : String) : Command → Prop
  | .respond request => OnlyReports key request
  | .start _ | .perform _ => False
  | _ => True

/-- Commands to daemons that serve the plan, of which the next to start has this number. -/
def Follows (plan : Plan) : Nat → List Command → Prop
  | _, [] => True
  | next, .start c :: rest => c = plan.config next ∧ Follows plan (next + 1) rest
  | next, command :: rest => Admitted plan.key command ∧ Follows plan next rest

/-- What holds of the site while no daemon runs, and the next to start has this number. -/
def Before (plan : Plan) : Nat → Site → Prop
  | 0, s => s.store = {}
  | lifetime + 1, s => Ended plan lifetime s

/-- What holds while a daemon runs, and the next to start has this number. -/
def During (plan : Plan) : Nat → Running → Site → Prop
  | 0, _, _ => False
  | lifetime + 1, d, s => Serves plan lifetime d s

section Commands

variable {next : Nat} {m : Machine}

/-- Before the first daemon starts the store stays empty. -/
theorem lasting_first (plan : Plan) :
    Lasting (Admitted plan.key) (Before plan 0) (During plan 0) where
  control := id
  drain _ := id
  report _ := id
  pass _ := id
  expire _ := id
  around h _ _ _ := h
  ends := False.elim
  start h _ := h.elim
  respond _ := id
  perform h _ := h.elim
  performAlone h _ := h.elim
  replaceService _ := id
  replaceServiceAlone _ := id
  alone h hstore _ := hstore.trans h

/-- In a lifetime the store stays one that lifetimes lead to. -/
theorem lasting_next (plan : Plan) (lifetime : Nat) :
    Lasting (Admitted plan.key) (Before plan (lifetime + 1)) (During plan (lifetime + 1)) where
  toKept := kept_serves plan lifetime
  ends h := h.2.imp fun _ => Exists.imp fun _ => And.left
  start h _ := h.elim
  respond hrequest h := h.respond hrequest
  perform h _ := h.elim
  performAlone h _ := h.elim
  replaceService _ := id
  replaceServiceAlone _ := id
  alone {_ s'} h hstore _ := by
    change Ended plan lifetime s'
    rw [Ended, hstore]
    exact h

/-- Whatever is admitted keeps the machine where the lifetimes may be. -/
theorem lasting_before (plan : Plan) :
    ∀ next, Lasting (Admitted plan.key) (Before plan next) (During plan next)
  | 0 => lasting_first plan
  | lifetime + 1 => lasting_next plan lifetime

/-- A daemon starts, in place of one that may run. -/
theorem holds_start (h : m.Holds (Before plan next) (During plan next)) :
    (m.start (plan.config next)).Holds (Before plan (next + 1)) (During plan (next + 1)) := by
  have hbefore : Before plan next { m.site with inbox := none } := by
    obtain ⟨site, daemon⟩ := m
    cases daemon with
    | none => exact (lasting_before plan next).alone h rfl rfl
    | some d => exact (lasting_before plan next).ends h
  cases next with
  | zero => exact serves_first plan hbefore
  | succ lifetime => exact Ended.serves_next hbefore

/-- Commands that follow a plan keep the machine where the lifetimes may be. -/
theorem exists_holds_run {commands : List Command} (hfollows : Follows plan next commands)
    (h : m.Holds (Before plan next) (During plan next)) :
    ∃ next', (m.run commands).Holds (Before plan next') (During plan next') := by
  induction commands generalizing m next with
  | nil => exact ⟨next, h⟩
  | cons command rest ih =>
      cases command with
      | start c =>
          obtain ⟨rfl, hrest⟩ := hfollows
          exact ih hrest (holds_start h)
      | _ => exact ih hfollows.2 ((lasting_before plan next).act hfollows.1 h)

/-- The store of a machine that follows a plan, and the listener of its daemon, are those of
lifetimes of daemons. -/
theorem exists_history {commands : List Command} (hfollows : Follows plan 0 commands)
    (hstore : m.site.store = {}) (hdaemon : m.daemon = none) {d : Running}
    (hlast : (m.run commands).daemon = some d) :
    ∃ stamp events, (run plan stamp events).store = (m.run commands).site.store ∧
      (run plan stamp events).listener = d.listener ∧ (run plan stamp events).pass = none := by
  have hfirst : m.Holds (Before plan 0) (During plan 0) := by
    rw [Machine.Holds, hdaemon]
    exact hstore
  obtain ⟨next, hholds⟩ := exists_holds_run hfollows hfirst
  rw [Machine.Holds, hlast] at hholds
  cases next with
  | zero => exact hholds.elim
  | succ lifetime =>
      obtain ⟨-, stamp, events, hidle, hlistener⟩ := hholds
      exact ⟨stamp, events, hidle.store, hlistener, hidle.pass⟩

end Commands

end Lives

end Daemon
end RunnerFleet
