import RunnerFleet.Daemon.Machine
import RunnerFleet.Proofs.Reconcile.Answers

/-!
# What is done with a machine

A machine is told to start and to stop its daemon, to wait, to answer requests, and to carry out
operations.  What a daemon does by itself while it waits, or before it stops, is made of a few
single things: the controller takes what it has heard, the listener takes one report, one pass runs,
and waits that are due end.  What each of these keeps, everything keeps.

Main results:

- `runPass_keeps`: what every call keeps, a pass at a site keeps.
- `Kept.wait`, `Kept.stop`: what the single things keep is kept while a daemon waits or stops.
- `Lasting.run`: what lasts, holds after any commands.
-/

namespace RunnerFleet
namespace Daemon

open Reconcile

/-! ## Passes at a site -/

namespace Site

/-- What a pass at the site finds around it. -/
def surroundings (s : Site) : Environment :=
  { store := s.store, service := s.service, stamps := s.stamps, clock := s.stampsTaken }

/-- The suffixes that the next pass takes for the names of new runners. -/
def suffix (s : Site) (i : Nat) : String :=
  s.suffixes (s.suffixesTaken + i)

/-- What every call keeps, a pass at the site keeps; its events are announced when it is over. -/
theorem runPass_keeps {s : Site} {key : String}
    {kept : Program (Except Reconcile.Error Unit) → Environment → Prop}
    (hserve : ∀ {c : Call} {next : c.Answer → Program (Except Reconcile.Error Unit)}
      {env : Environment}, kept (.call c next) env → kept (next (env.serve c).1) (env.serve c).2)
    (h : kept (pass s.suffix key) s.surroundings) :
    ∃ result env, kept (.done result) env ∧ (s.runPass key).1 = result.isOk ∧
      (s.runPass key).2.store = env.store ∧ (s.runPass key).2.service = s.service ∧
      (s.runPass key).2.inbox = s.inbox.map fun inbox => inbox.add env.events :=
  ⟨_, _, keeps_run hserve _ rfl h, rfl, rfl, rfl, rfl⟩

/-- A pass over a runner set that is not there does nothing to the store. -/
theorem runPass_of_missing (s : Site) {key : String} (h : s.store.getSet key = none) :
    (s.runPass key).2.store = s.store := by
  have hanswer : s.surroundings.serve (.getSet key) =
      (.ok none, (s.surroundings.serve (.getSet key)).2) := by
    rw [← h]
    rfl
  change ((pass s.suffix key).run Environment.answer s.surroundings).2.store = s.store
  change ((Program.call (.getSet key) _).run Environment.answer s.surroundings).2.store = _
  rw [Program.run_call, answer_of_faultless rfl, hanswer]
  rfl

/-! ## Reports and runner sets -/

/-- A listener that takes a report leaves the site alone, or writes a decision. -/
theorem listen_cases (s : Site) (key : String) (l : Scaling.Listener) (batch : JobBatch) :
    (s.listen key l [batch]).2 = s ∨ ∃ patch : ScalePatch,
      (s.listen key l [batch]).2 = (s.perform (.patchSpec key patch.replicas patch.patchId)).2 := by
  change ((l.process (writePatch key) batch).run s).2 = s ∨ ∃ patch : ScalePatch,
    ((l.process (writePatch key) batch).run s).2 =
      (s.perform (.patchSpec key patch.replicas patch.patchId)).2
  rw [Scaling.Listener.process_run]
  split
  · exact Or.inl rfl
  · refine Or.inr ⟨l.decisionFor batch, ?_⟩
    split <;> rename_i hwrite <;> exact (congrArg Prod.snd hwrite).symm

end Site

/-- The configured runner set is there, or is stored. -/
theorem Machine.ensureSet_cases (s : Site) (c : Config) :
    ensureSet s c = s ∨ ensureSet s c = (s.perform (.createSet c.runnerSet)).2 := by
  unfold ensureSet
  split
  · exact Or.inl rfl
  · exact Or.inr rfl

/-! ## What a daemon does by itself -/

namespace Running

/-- The daemon serves the same runner set with the same listener. -/
structure SameServed (d d' : Running) : Prop where
  key : d'.key = d.key
  listener : d'.listener = d.listener

theorem SameServed.trans {d d' d'' : Running} (h : SameServed d d') (h' : SameServed d' d'') :
    SameServed d d'' :=
  ⟨h'.key.trans h.key, h'.listener.trans h.listener⟩

theorem sameServed_apply (now : Nat) (d : Running) (effect : Controller.Effect) :
    SameServed d (d.apply now effect) := by
  cases effect <;> exact ⟨rfl, rfl⟩

/-- Doing one such thing after the other leaves what is served. -/
theorem sameServed_foldl {α : Type} {f : Running → α → Running}
    (hf : ∀ d a, SameServed d (f d a)) (l : List α) (d : Running) : SameServed d (l.foldl f d) := by
  induction l generalizing d with
  | nil => exact ⟨rfl, rfl⟩
  | cons a l ih => exact (hf d a).trans (ih _)

theorem sameServed_tell (d : Running) (now : Nat) (message : Controller.Message) :
    SameServed d (d.tell now message) := by
  have hfold := sameServed_foldl (sameServed_apply now) (d.loop.step message).2
    { d with loop := (d.loop.step message).1 }
  exact ⟨hfold.key, hfold.listener⟩

/-- The controller does not touch the listener. -/
theorem sameServed_control (d : Running) (s : Site) : SameServed d (d.control s).1 := by
  have hfold := sameServed_foldl (fun d message => sameServed_tell d s.now message)
    (s.heard ++ d.retries.map .retry ++ d.ended.map fun ended => .ended ended.1 ended.2)
    { d with retries := [], ended := [] }
  exact ⟨hfold.key, hfold.listener⟩

end Running

/-- A relation between a daemon and its site that each single thing keeps which the daemon does. -/
structure Kept (R : Running → Site → Prop) : Prop where
  control {d : Running} {s : Site} : R d s → R (d.control s).1 (d.control s).2
  drain {d : Running} {s : Site} (queues : Api.Queues) : R d s → R { d with queues } s
  report {d : Running} {s : Site} (batch : JobBatch) :
    R d s → R { d with listener := (s.listen d.key d.listener [batch]).1 }
      (s.listen d.key d.listener [batch]).2
  pass {d : Running} {s : Site} {key : String} {rest : List String}
    (next : d.passes = key :: rest) :
    R d s → R { d with passes := rest, ended := d.ended ++ [(key, (s.runPass key).1)] }
      (s.runPass key).2
  expire {d : Running} {s : Site} (now : Nat) : R d s → R (d.expire now) s
  /-- Nothing but the store, the inbox and the service of the site matters. -/
  around {d : Running} {s s' : Site} : R d s → s'.store = s.store → s'.inbox = s.inbox →
    s'.service = s.service → R d s'

namespace Kept

variable {R : Running → Site → Prop} {d : Running} {s : Site}

/-- Reports are taken one after the other. -/
theorem listen (h : Kept R) (batches : List JobBatch) (hR : R d s) :
    R { d with listener := (s.listen d.key d.listener batches).1 }
      (s.listen d.key d.listener batches).2 := by
  induction batches generalizing d s with
  | nil => exact hR
  | cons batch batches ih => exact ih (h.report batch hR)

theorem scale (h : Kept R) (hR : R d s) : R (d.scale s).1 (d.scale s).2 :=
  h.listen (d.queues.drain d.key).1 (h.drain (d.queues.drain d.key).2 hR)

/-- Passes run one after the other. -/
theorem runPasses (h : Kept R) (hR : R d s) : R (d.runPasses s).1 (d.runPasses s).2 := by
  unfold Running.runPasses
  generalize hpasses : d.passes = passes
  induction passes generalizing d s with
  | nil =>
      cases d
      cases hpasses
      exact hR
  | cons key rest ih => exact ih (h.pass hpasses hR) rfl

theorem round (h : Kept R) (hR : R d s) : R (d.round s).1 (d.round s).2 :=
  h.runPasses (h.scale (h.control hR))

theorem settle (h : Kept R) (rounds : Nat) (hR : R d s) :
    R (d.settle s rounds).1 (d.settle s rounds).2 := by
  induction rounds generalizing d s with
  | zero => exact hR
  | succ rounds ih =>
      unfold Running.settle
      split
      · exact hR
      · exact ih (h.round hR)

theorem runUntil (h : Kept R) (limit stops : Nat) (hR : R d s) :
    R (d.runUntil s limit stops).1 (d.runUntil s limit stops).2 := by
  induction stops generalizing d s with
  | zero => exact h.around hR rfl rfl rfl
  | succ stops ih =>
      have hsettled := h.settle roundLimit (h.expire s.now hR)
      unfold Running.runUntil
      dsimp only
      split
      · exact h.around hsettled rfl rfl rfl
      · exact ih (h.around hsettled rfl rfl rfl)

/-- A daemon that waits. -/
theorem wait (h : Kept R) {m : Machine} (hdaemon : m.daemon = some d) (hR : R d m.site)
    (millis : Nat) : ∃ d' s', R d' s' ∧ m.wait millis = ⟨s', some d'⟩ := by
  unfold Machine.wait
  split
  · exact ⟨d, m.site, hR, by rw [← hdaemon]⟩
  · rw [hdaemon]
    exact ⟨_, _, h.runUntil (m.site.now + millis) (millis + 1) hR, rfl⟩

/-- A daemon that stops. -/
theorem stop (h : Kept R) {m : Machine} (hdaemon : m.daemon = some d) (hR : R d m.site) :
    ∃ d' s', R d' s' ∧ m.stop = ⟨{ s' with inbox := none }, none⟩ := by
  unfold Machine.stop
  rw [hdaemon]
  dsimp only
  split
  · exact ⟨_, _, h.runPasses (h.control hR), rfl⟩
  · exact ⟨_, _, h.runPasses hR, rfl⟩

end Kept

/-! ## Commands -/

/-- What may be done with a machine. -/
inductive Command where
  | start (c : Config)
  | stop
  | wait (millis : Nat)
  | respond (request : Api.Request)
  | perform (op : Store.Operation)
  | takeRemovals
  /-- The Actions service answers differently from now on. -/
  | replaceService (service : Actions.Service)

/-- A daemon that has just started. -/
def Running.new (c : Config) : Running where
  key := c.runnerSet.key
  queues := Api.Queues.register .empty c.runnerSet.key queueDepth
  listener := { bounds := c.bounds }
  loop := { settings := c.settings }

namespace Machine

/-- Do something with a machine. -/
def act (m : Machine) : Command → Machine
  | .start c => m.start c
  | .stop => m.stop
  | .wait millis => m.wait millis
  | .respond request => (m.respond request).2
  | .perform op => (m.perform op).2
  | .takeRemovals => m.takeRemovals.2
  | .replaceService service => { m with site := { m.site with service } }

/-- Do one thing after the other. -/
def run (m : Machine) (commands : List Command) : Machine :=
  commands.foldl act m

/-- One thing holds of the site of a machine without a daemon, another one with a daemon. -/
def Holds (S : Site → Prop) (R : Running → Site → Prop) (m : Machine) : Prop :=
  match m.daemon with
  | none => S m.site
  | some d => R d m.site

end Machine

/-- What commands of some kind keep, with and without a daemon. -/
structure Lasting (allowed : Command → Prop) (S : Site → Prop) (R : Running → Site → Prop) : Prop
    extends Kept R where
  ends {d : Running} {s : Site} : R d s → S { s with inbox := none }
  start {s : Site} {c : Config} (h : allowed (.start c)) :
    S { s with inbox := none } → R (Running.new c) (Machine.ensureSet { s with inbox := none } c)
  respond {d : Running} {s : Site} {request : Api.Request} (h : allowed (.respond request)) :
    R d s → R { d with queues := (s.respond d.queues request).2.1 } (s.respond d.queues request).2.2
  perform {d : Running} {s : Site} {op : Store.Operation} (h : allowed (.perform op)) :
    R d s → R d (s.perform op).2
  performAlone {s : Site} {op : Store.Operation} (h : allowed (.perform op)) :
    S s → S (s.perform op).2
  replaceService {d : Running} {s : Site} {service : Actions.Service}
    (h : allowed (.replaceService service)) : R d s → R d { s with service }
  replaceServiceAlone {s : Site} {service : Actions.Service}
    (h : allowed (.replaceService service)) : S s → S { s with service }
  /-- Nothing but the store and the service of the site matters while no daemon runs. -/
  alone {s s' : Site} : S s → s'.store = s.store → s'.service = s.service → S s'

namespace Lasting

variable {allowed : Command → Prop} {S : Site → Prop} {R : Running → Site → Prop} {m : Machine}

/-- What holds of a machine holds after an allowed command. -/
theorem act (h : Lasting allowed S R) {command : Command} (hallowed : allowed command)
    (hm : m.Holds S R) : (m.act command).Holds S R := by
  obtain ⟨site, daemon⟩ := m
  cases daemon with
  | none =>
      cases command with
      | start c => exact h.start hallowed (h.alone hm rfl rfl)
      | stop => exact hm
      | wait millis =>
          rw [Machine.act, Machine.wait]
          split
          · exact hm
          · exact h.alone hm rfl rfl
      | respond request => exact hm
      | perform op => exact h.performAlone hallowed hm
      | takeRemovals => exact h.alone hm rfl rfl
      | replaceService service => exact h.replaceServiceAlone hallowed hm
  | some d =>
      cases command with
      | start c => exact h.start hallowed (h.ends hm)
      | stop =>
          obtain ⟨d', s', hR, hstop⟩ := h.toKept.stop rfl hm
          rw [Machine.act, hstop]
          exact h.ends hR
      | wait millis =>
          obtain ⟨d', s', hR, hwait⟩ := h.toKept.wait rfl hm millis
          rw [Machine.act, hwait]
          exact hR
      | respond request => exact h.respond hallowed hm
      | perform op => exact h.perform hallowed hm
      | takeRemovals => exact h.around hm rfl rfl rfl
      | replaceService service => exact h.replaceService hallowed hm

/-- What lasts, holds after any allowed commands. -/
theorem run (h : Lasting allowed S R) (hm : m.Holds S R) {commands : List Command}
    (hallowed : ∀ command ∈ commands, allowed command) : (m.run commands).Holds S R := by
  induction commands generalizing m with
  | nil => exact hm
  | cons command commands ih =>
      exact ih (h.act (hallowed command List.mem_cons_self) hm)
        fun command h => hallowed command (List.mem_cons_of_mem _ h)

end Lasting

end Daemon
end RunnerFleet
