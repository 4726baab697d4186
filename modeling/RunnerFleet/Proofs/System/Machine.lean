import RunnerFleet.Proofs.Daemon.Serving
import RunnerFleet.Proofs.System.Listening
import RunnerFleet.Proofs.System.Views

/-!
# Machines as parts of the system

What a machine does is something that happens to the system: a request, a runner set that is stored,
a decision that is written, or a pass from its beginning to its end.  So the store of a machine is
the store of a history of the system, and its listener is that of a history with a listener.  Seen
from one runner set such a history is one of its passes amid others; and if the Actions service
answers as one that keeps registrations, it is a history with that service.

Main results:

- `System.exists_history`: the store of a machine is that of a history of the system.
- `Listening.exists_history`: the listener of a machine is that of a history with a listener.
- `Scene.exists_history`, `Ensemble.exists_history`: a history of the system, seen from one runner
  set, and with the registrations of the Actions service.
-/

namespace RunnerFleet

open Reconcile Daemon

/-! ## The system -/

namespace System

/-- No pass is in progress, and this is the store. -/
structure Rests (sys : System) (store : Store) : Prop where
  passes : sys.passes = .empty
  store : sys.api.store = store

/-- Events with services of this kind lead to a system that rests with this store. -/
def LeadsTo (kind : Actions.Service → Prop) (sys : System) (store : Store) : Prop :=
  ∃ events : List Event, (∀ event ∈ events, event.AnsweredBy kind) ∧
    (events.foldl step sys).Rests store

section LeadsTo

variable {kind : Actions.Service → Prop} {sys : System}

/-- A system that rests is where it is without any event. -/
theorem Rests.leadsTo {store : Store} (h : sys.Rests store) : sys.LeadsTo kind store :=
  ⟨[], fun _ he => absurd he List.not_mem_nil, h⟩

/-- One event leads to where it leads. -/
theorem leadsTo_step (event : Event) (hkind : event.AnsweredBy kind) {store : Store}
    (h : (sys.step event).Rests store) : sys.LeadsTo kind store :=
  ⟨[event], fun _ he => List.mem_singleton.1 he ▸ hkind, h⟩

/-- A pass that goes on twice has gone on. -/
theorem resume_resume (passes : KeyMap (Program (Except Reconcile.Error Unit))) (key : String)
    (p q : Program (Except Reconcile.Error Unit)) :
    resume (resume passes key p) key q = resume passes key q := by
  refine KeyMap.ext_get? fun k => ?_
  cases p <;> cases q <;> simp only [resume, KeyMap.get?_insert, KeyMap.get?_erase] <;>
    split <;> rfl

/-- Events with services of this kind lead to where a pass over the set has this left to do, in a
store like that of the environment. -/
def LeadsInto (kind : Actions.Service → Prop) (sys : System) (key : String)
    (p : Program (Except Reconcile.Error Unit)) (env : Environment) : Prop :=
  kind env.service ∧ ∃ events : List Event, (∀ event ∈ events, event.AnsweredBy kind) ∧
    (events.foldl step sys).api.store = env.store ∧
      (events.foldl step sys).passes = resume .empty key p

/-- A pass begins while none is in progress. -/
theorem leadsInto_begin {s : Site} (h : sys.Rests s.store) (hservice : kind s.service)
    (key : String) : sys.LeadsInto kind key (pass s.suffix key) s.surroundings := by
  have hfree : sys.passes.contains key = false := by
    rw [h.passes]
    rfl
  refine ⟨hservice, [.begin key s.suffix], fun _ he => List.mem_singleton.1 he ▸ trivial, ?_⟩
  simp only [List.foldl_cons, List.foldl_nil, step, hfree, Bool.false_eq_true, if_false]
  exact ⟨h.store, by rw [h.passes]; rfl⟩

/-- A pass goes on with the answer of its environment. -/
theorem LeadsInto.serve {key : String} {c : Call}
    {next : c.Answer → Program (Except Reconcile.Error Unit)} {env : Environment}
    (h : sys.LeadsInto kind key (.call c next) env) :
    sys.LeadsInto kind key (next (env.serve c).1) (env.serve c).2 := by
  obtain ⟨hservice, events, hkind, happ, hpasses⟩ := h
  refine ⟨hservice, events ++ [.serve key env.service (env.stamps env.clock)], ?_, ?_⟩
  · rw [List.forall_mem_append, List.forall_mem_singleton]
    exact ⟨hkind, hservice⟩
  · have hpass : (events.foldl step sys).passes.get? key = some (.call c next) := by
      rw [hpasses, resume, KeyMap.get?_insert, if_pos rfl]
    rw [List.foldl_append]
    simp only [List.foldl_cons, List.foldl_nil, step, advance, hpass, Option.bind_some,
      Program.answerNext, Option.map_some, happ]
    refine ⟨rfl, ?_⟩
    rw [hpasses, resume_resume]
    rfl

/-- A pass at a site is one that begins, and goes on until it is over. -/
theorem leadsTo_runPass {s : Site} (h : sys.Rests s.store) (hservice : kind s.service)
    (key : String) : sys.LeadsTo kind (s.runPass key).2.store := by
  obtain ⟨result, env, ⟨-, events, hkind, happ, hpasses⟩, -, hstore, -⟩ :=
    Site.runPass_keeps (fun hinto => LeadsInto.serve hinto) (leadsInto_begin h hservice key)
  refine ⟨events, hkind, ?_, happ.trans hstore.symm⟩
  rw [hpasses]
  exact KeyMap.ext_get? fun k => by simp [resume]

/-- A report leads to a decision that is written, or to nothing. -/
theorem leadsTo_listen {s : Site} (h : sys.Rests s.store) (key : String) (l : Scaling.Listener)
    (batch : JobBatch) : sys.LeadsTo kind (s.listen key l [batch]).2.store := by
  rcases s.listen_cases key l batch with heq | ⟨patch, heq⟩
  · rw [heq]
    exact h.leadsTo
  · rw [heq]
    refine leadsTo_step (.decide s.stamp key patch) trivial ⟨h.passes, ?_⟩
    rw [step, h.store]
    rfl

/-- A daemon that starts stores its runner set, unless it is there. -/
theorem leadsTo_ensureSet {s : Site} (h : sys.Rests s.store) (c : Config) :
    sys.LeadsTo kind (Machine.ensureSet s c).store := by
  rcases Machine.ensureSet_cases s c with heq | heq
  · rw [heq]
    exact h.leadsTo
  · rw [heq]
    refine leadsTo_step (.provide s.stamp c.runnerSet queueDepth) trivial ⟨h.passes, ?_⟩
    rw [step, h.store]
    rfl

/-- A request does to the store what it does in the system, whatever waits in the queues. -/
theorem leadsTo_respond {s : Site} (h : sys.Rests s.store) (queues : Api.Queues)
    (request : Api.Request) : sys.LeadsTo kind (s.respond queues request).2.2.store := by
  refine leadsTo_step (.request s.stamp request) trivial ⟨h.passes, ?_⟩
  obtain ⟨⟨store, queues'⟩, passes⟩ := sys
  obtain rfl : store = s.store := h.store
  exact Api.State.respond_store_congr s.store queues' queues s.stamp request

/-- What leads on from wherever it rests with a store leads on from there. -/
theorem LeadsTo.trans {store store' : Store} (h : sys.LeadsTo kind store)
    (hnext : ∀ {sys' : System}, sys'.Rests store → sys'.LeadsTo kind store') :
    sys.LeadsTo kind store' := by
  obtain ⟨events, hkind, hrests⟩ := h
  obtain ⟨later, hlater, hrests'⟩ := hnext hrests
  refine ⟨events ++ later, List.forall_mem_append.2 ⟨hkind, hlater⟩, ?_⟩
  rw [List.foldl_append]
  exact hrests'

end LeadsTo

/-- A command that carries out no operation from outside, and brings no service of another kind. -/
def Regular (kind : Actions.Service → Prop) : Command → Prop
  | .perform _ => False
  | .replaceService service => kind service
  | _ => True

/-- The service is of this kind, and the store is that of a history. -/
def Reaches (kind : Actions.Service → Prop) (s : Site) : Prop :=
  kind s.service ∧ LeadsTo kind { api := {} } s.store

/-- Whatever a machine does, its store is that of a history of the system. -/
theorem lasting_reaches (kind : Actions.Service → Prop) :
    Lasting (Regular kind) (Reaches kind) fun _ s => Reaches kind s where
  control h := h
  drain _ h := h
  report {d s} batch h := by
    refine ⟨?_, h.2.trans fun hrests => leadsTo_listen hrests d.key d.listener batch⟩
    rcases s.listen_cases d.key d.listener batch with heq | ⟨patch, heq⟩ <;> rw [heq] <;> exact h.1
  pass {_ _ key _} _ h := ⟨h.1, h.2.trans fun hrests => leadsTo_runPass hrests h.1 key⟩
  expire _ h := h
  around h hstore _ hservice := ⟨hservice ▸ h.1, hstore ▸ h.2⟩
  ends h := h
  start {s c} _ h := by
    refine ⟨?_, h.2.trans fun hrests => leadsTo_ensureSet hrests c⟩
    rcases Machine.ensureSet_cases { s with inbox := none } c with heq | heq <;> rw [heq] <;>
      exact h.1
  respond {d _ request} _ h :=
    ⟨h.1, h.2.trans fun hrests => leadsTo_respond hrests d.queues request⟩
  perform hregular _ := hregular.elim
  performAlone hregular _ := hregular.elim
  replaceService hkind h := ⟨hkind, h.2⟩
  replaceServiceAlone hkind h := ⟨hkind, h.2⟩
  alone h hstore hservice := ⟨hservice ▸ h.1, hstore ▸ h.2⟩

section History

variable {m : Machine} {commands : List Command}

/-- The store of a machine is that of a history of the system, in which no pass is in progress, and
which knows no other services than the machine. -/
theorem exists_history (kind : Actions.Service → Prop) (hstore : m.site.store = {})
    (hdaemon : m.daemon = none) (hservice : kind m.site.service)
    (hcommands : ∀ command ∈ commands, Regular kind command) :
    ∃ events : List Event, (∀ event ∈ events, event.AnsweredBy kind) ∧
      (run events).passes = .empty ∧ (run events).api.store = (m.run commands).site.store := by
  have hfirst : m.Holds (Reaches kind) fun _ s => Reaches kind s := by
    rw [Machine.Holds, hdaemon]
    exact ⟨hservice, hstore ▸ Rests.leadsTo ⟨rfl, rfl⟩⟩
  have hlast := (lasting_reaches kind).run hfirst hcommands
  obtain ⟨-, events, hkind, hrests⟩ : Reaches kind (m.run commands).site := by
    unfold Machine.Holds at hlast
    split at hlast <;> exact hlast
  exact ⟨events, hkind, hrests.passes, hrests.store⟩

end History

end System

/-! ## A listener -/

namespace Listening

/-- Others at work leave the listener as it is. -/
theorem foldl_others (key : String) (l : Listening) (events : List System.Event) :
    (events.map Event.other).foldl (step key) l =
      { l with sys := events.foldl System.step l.sys } := by
  induction events generalizing l with
  | nil => rfl
  | cons event events ih => exact ih _

/-- The store is that of a history with the listener of the daemon, in which no pass is in
progress. -/
def Tracks (d : Running) (s : Site) : Prop :=
  ∃ events, (run d.key d.listener.bounds events).sys.Rests s.store ∧
    (run d.key d.listener.bounds events).listener = d.listener

section Tracks

variable {d : Running} {s s' : Site}

/-- What others do to the store leads on with the same listener. -/
theorem Tracks.others (h : Tracks d s) (kind : Actions.Service → Prop)
    (hnext : ∀ {sys : System}, sys.Rests s.store → sys.LeadsTo kind s'.store) : Tracks d s' := by
  obtain ⟨events, hrests, hlistener⟩ := h
  obtain ⟨later, -, hrests'⟩ := hnext hrests
  have hrun : run d.key d.listener.bounds (events ++ later.map Event.other) =
      { run d.key d.listener.bounds events with
        sys := later.foldl System.step (run d.key d.listener.bounds events).sys } := by
    rw [run, List.foldl_append]
    exact foldl_others _ _ _
  refine ⟨events ++ later.map Event.other, ?_, ?_⟩ <;> rw [hrun]
  · exact hrests'
  · exact hlistener

/-- The listener takes a report. -/
theorem Tracks.listen (h : Tracks d s) (batch : JobBatch) :
    Tracks { d with listener := (s.listen d.key d.listener [batch]).1 }
      (s.listen d.key d.listener [batch]).2 := by
  obtain ⟨events, ⟨hpasses, hstore⟩, hlistener⟩ := h
  have htakes : run d.key (s.listen d.key d.listener [batch]).1.bounds
      (events ++ [.report s.stamp batch none]) =
        ((run d.key d.listener.bounds events).take d.key s.stamp batch none).2 := by
    rw [s.listen_bounds, run_append]
    rfl
  refine ⟨events ++ [.report s.stamp batch none], ?_⟩
  rw [htakes]
  generalize run d.key d.listener.bounds events = l at hpasses hstore hlistener
  have htaken := s.listen_eq_process d.key d.listener batch
  rw [← hstore, ← hlistener] at htaken
  rw [← hlistener]
  exact ⟨⟨hpasses, (Prod.mk.inj htaken).2.symm⟩, (Prod.mk.inj htaken).1.symm⟩

/-- A daemon that has just started has a new listener. -/
theorem tracks_new {kind : Actions.Service → Prop}
    (h : System.LeadsTo kind { api := {} } s.store) (c : Config) : Tracks (Running.new c) s := by
  obtain ⟨events, -, hrests⟩ := h
  refine ⟨events.map Event.other, ?_, ?_⟩ <;> rw [run, foldl_others]
  · exact hrests
  · rfl

end Tracks

/-- Whatever a machine does, its listener is that of a history. -/
theorem lasting_tracks :
    Lasting (System.Regular fun _ => True) (System.Reaches fun _ => True)
      fun d s => System.Reaches (fun _ => True) s ∧ Tracks d s := by
  have hlasting := System.lasting_reaches fun _ => True
  exact {
    control := fun {d s} h => by
      obtain ⟨hkey, hlistener⟩ := d.sameServed_control s
      refine ⟨h.1, ?_⟩
      unfold Tracks
      rw [hkey, hlistener]
      exact h.2
    drain := fun _ h => h
    report := fun batch h => ⟨hlasting.report batch h.1, h.2.listen batch⟩
    pass := fun {_ _ key _} next h => ⟨hlasting.pass next h.1,
      h.2.others (fun _ => True) fun hrests => System.leadsTo_runPass hrests trivial key⟩
    expire := fun _ h => h
    around := fun h hstore _ hservice =>
      ⟨hlasting.alone h.1 hstore hservice, by
        unfold Tracks
        rw [hstore]
        exact h.2⟩
    ends := fun h => h.1
    start := fun {_ c} hregular h =>
      ⟨hlasting.start hregular h, tracks_new (hlasting.start hregular h).2 c⟩
    respond := fun {d _ request} hregular h => ⟨hlasting.respond hregular h.1,
      h.2.others (fun _ => True) fun hrests => System.leadsTo_respond hrests d.queues request⟩
    perform := fun hregular _ => hregular.elim
    performAlone := fun hregular _ => hregular.elim
    replaceService := fun hregular h => ⟨⟨hregular, h.1.2⟩, h.2⟩
    replaceServiceAlone := fun hregular h => ⟨hregular, h.2⟩
    alone := hlasting.alone }

/-- The listener of a machine and its store are those of a history with a listener. -/
theorem exists_history {m : Machine} (hstore : m.site.store = {}) (hdaemon : m.daemon = none)
    {commands : List Command}
    (hcommands : ∀ command ∈ commands, System.Regular (fun _ => True) command)
    {d : Running} (hlast : (m.run commands).daemon = some d) :
    ∃ events, (run d.key d.listener.bounds events).store = (m.run commands).site.store ∧
      (run d.key d.listener.bounds events).listener = d.listener := by
  have hfirst : m.Holds (System.Reaches fun _ => True)
      fun d s => System.Reaches (fun _ => True) s ∧ Tracks d s := by
    rw [Machine.Holds, hdaemon]
    exact ⟨trivial, hstore ▸ System.Rests.leadsTo ⟨rfl, rfl⟩⟩
  have hholds := lasting_tracks.run hfirst hcommands
  rw [Machine.Holds, hlast] at hholds
  obtain ⟨-, events, hrests, hlistener⟩ := hholds
  exact ⟨events, hrests.store, hlistener⟩

end Listening

/-! ## One runner set, and registrations -/

section Views

variable {m : Machine} {commands : List Command}

/-- The store of a machine is that of a scene for each runner set, with no pass in progress. -/
theorem Reconcile.Scene.exists_history (key : String) (hstore : m.site.store = {})
    (hdaemon : m.daemon = none)
    (hcommands : ∀ command ∈ commands, System.Regular (fun _ => True) command) :
    ∃ events, (Scene.run key events).store = (m.run commands).site.store ∧
      ¬ (Scene.run key events).InProgress := by
  obtain ⟨events, -, hpasses, hlast⟩ :=
    System.exists_history (fun _ => True) hstore hdaemon trivial hcommands
  obtain ⟨shown, hshown⟩ := Scene.exists_shows key events
  refine ⟨shown, hshown.store.trans hlast, ?_⟩
  rintro ⟨c, next, hpass⟩
  have hnone := hshown.pass
  rw [hpasses, hpass] at hnone
  cases hnone

/-- If the Actions service of a machine answers like one that keeps registrations, the store of the
machine is that of a history with registrations. -/
theorem Ensemble.exists_history {unknown : Actions.Error}
    (hidle : unknown.isJobStillRunning = false) (hkeeps : Ensemble.Keeps unknown m.site.service)
    (hstore : m.site.store = {}) (hdaemon : m.daemon = none)
    (hcommands : ∀ command ∈ commands, System.Regular (· = m.site.service) command) :
    ∃ events, ((Ensemble.run { Registry.empty with unknown, unknown_idle := hidle } events).sys.api
        ).store = (m.run commands).site.store := by
  obtain ⟨events, hservice, -, hlast⟩ :=
    System.exists_history (· = m.site.service) hstore hdaemon rfl hcommands
  obtain ⟨explained, hexplained⟩ := Ensemble.exists_explains hidle hkeeps hservice
  exact ⟨explained, hexplained ▸ hlast⟩

end Views
end RunnerFleet
