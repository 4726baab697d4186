import Mathlib.Data.List.Forall2
import RunnerFleet.Proofs.Api.Requests
import RunnerFleet.Proofs.Controller.Watching
import RunnerFleet.Proofs.Daemon.Work

/-!
# Daemons and their watches

A watch takes its steps one at a time and in any order; a daemon that waits takes many at once and
in a fixed order.  What the daemon does, some watch does too: its controller takes the same messages,
it starts passes over the same runner sets, and its writes are announced, all of them at once, where
those of the watch are announced one by one.  A watch chooses the suffixes for new runners when a
pass begins, and a daemon when the pass runs; so a watch goes with a daemon if one does for every
choice that may still be made.

Main results:

- `Inbox.add_add`: it does not matter whether events come together or one after the other.
- `comes_fill`: starting several passes is starting one after the other.
- `Accompanies.control`, `Accompanies.pass`, `Accompanies.expire`: what the daemon does by itself.
- `exists_history`: whatever was done with a machine, some watch is where its daemon is.
-/

namespace RunnerFleet
namespace Controller

open Reconcile Daemon

/-! ## Inboxes -/

namespace Inbox

theorem eq_of_events {a b : Inbox} (hevents : a.events = b.events) (hlagged : a.lagged = b.lagged) :
    a = b := by
  obtain ⟨events, lagged, hlength⟩ := a
  obtain rfl : events = b.events := hevents
  obtain rfl : lagged = b.lagged := hlagged
  rfl

/-- Nothing is put in. -/
theorem add_nil (inbox : Inbox) : inbox.add [] = inbox := by
  have hfits : (inbox.events ++ []).length ≤ inboxCapacity := by
    rw [List.append_nil]
    exact inbox.length_le
  refine eq_of_events ?_ ?_
  · rw [add_events_of_fits hfits, List.append_nil]
  · exact Bool.eq_iff_iff.2 (add_lagged_iff.trans (or_iff_left (Nat.not_lt.2 hfits)))

/-- To keep the last ones before and after more have come is to keep the last ones of all. -/
theorem keep_append {α : Type} (waiting later : List α) (room : Nat) :
    (waiting.drop (waiting.length - room) ++ later).drop
        ((waiting.drop (waiting.length - room) ++ later).length - room) =
      (waiting ++ later).drop ((waiting ++ later).length - room) := by
  rw [← List.drop_append_of_le_length (Nat.sub_le _ _), List.drop_drop]
  refine congrArg (List.drop · _) ?_
  simp only [List.length_drop, List.length_append]
  omega

/-- Events may be put in all together or in two parts. -/
theorem add_add (inbox : Inbox) (first later : List WatchEvent) :
    (inbox.add first).add later = inbox.add (first ++ later) := by
  refine eq_of_events ?_ (Bool.eq_iff_iff.2 ?_)
  · simp only [add]
    rw [keep_append, List.append_assoc]
  · rw [add_lagged_iff, add_lagged_iff, add_lagged_iff, or_assoc]
    refine or_congr_right ?_
    simp only [add, List.length_append, List.length_drop]
    omega

end Inbox

namespace Watch

/-! ## States up to their notes -/

/-- Some events lead from one state to the other, whatever is noted on the way. -/
def Comes (w w' : Watch) : Prop :=
  ∃ (events : List Event) (history : List Occurrence),
    events.foldl step w = { w' with history }

theorem Comes.refl (w : Watch) : w.Comes w :=
  ⟨[], w.history, rfl⟩

/-- What leads on whatever was noted leads on. -/
theorem Comes.trans {w w' w'' : Watch} (h : w.Comes w')
    (hnext : ∀ history, Comes { w' with history } w'') : w.Comes w'' := by
  obtain ⟨events, history, hevents⟩ := h
  obtain ⟨later, history', hlater⟩ := hnext history
  refine ⟨events ++ later, history', ?_⟩
  rw [List.foldl_append, hevents, hlater]

/-- One event leads on. -/
theorem comes_step {w w' : Watch} (event : Event) (history : List Occurrence)
    (h : w.step event = { w' with history }) : w.Comes w' :=
  ⟨[event], history, h⟩

/-! ## Writes -/

/-- All announcements are sent. -/
theorem comes_send (w : Watch) :
    w.Comes { w with unsent := [], inbox := w.inbox.map fun inbox => inbox.add w.unsent } := by
  obtain ⟨store, unsent, inbox, listed, loop, tasks, timers, retries, history⟩ := w
  dsimp only
  induction unsent generalizing inbox history with
  | nil =>
      have hsame : (inbox.map fun inbox => inbox.add []) = inbox := by
        simp [Inbox.add_nil]
      rw [hsame]
      exact .refl _
  | cons e rest ih =>
      have hfirst : Comes ⟨store, e :: rest, inbox, listed, loop, tasks, timers, retries, history⟩
          ⟨store, rest, inbox.map fun inbox => inbox.add [e], listed, loop, tasks, timers, retries,
            history⟩ :=
        comes_step (.send 0) history rfl
      refine hfirst.trans fun history' => ?_
      have hboth : ((inbox.map fun inbox => inbox.add [e]).map fun inbox => inbox.add rest) =
          inbox.map fun inbox => inbox.add (e :: rest) := by
        simp [Function.comp_def, Inbox.add_add]
      rw [← hboth]
      exact ih _ history'

/-- After a change of the store its announcements are sent. -/
theorem comes_commit {w : Watch} (hsent : w.unsent = []) (event : Event) (after : Watch)
    {history : List Occurrence} {events : List WatchEvent}
    (h : w.step event = { after with unsent := w.unsent ++ events, inbox := w.inbox, history })
    (hafter : after.unsent = []) :
    w.Comes { after with inbox := w.inbox.map fun inbox => inbox.add events } := by
  have hfirst : w.Comes { after with unsent := events, inbox := w.inbox } := by
    refine comes_step event history ?_
    rw [h, hsent]
    rfl
  refine hfirst.trans fun history' => ?_
  have hsend := comes_send { after with unsent := events, inbox := w.inbox, history := history' }
  rw [← hafter] at hsend
  exact hsend

/-- Somebody carries out an operation, which is announced. -/
theorem comes_write {w : Watch} (hsent : w.unsent = []) (stamp : Stamp) (op : Store.Operation) :
    w.Comes
      { w with
        store := (w.store.perform stamp op).store
        inbox := w.inbox.map fun inbox => inbox.add (w.store.perform stamp op).events } :=
  comes_commit hsent (.write stamp op) { w with store := (w.store.perform stamp op).store } rfl
    hsent

/-- The next call of a pass is answered, which is announced. -/
theorem comes_serve {w : Watch} (hsent : w.unsent = []) {index : Nat} {key : String} {c : Call}
    {next : c.Answer → Program (Except Reconcile.Error Unit)}
    (htask : w.tasks[index]? = some ⟨key, .call c next⟩) (service : Actions.Service)
    (stamp : Stamp) :
    w.Comes
      { w with
        store := (c.perform service stamp w.store).store
        inbox := w.inbox.map fun inbox => inbox.add (c.perform service stamp w.store).events
        tasks := w.tasks.set index ⟨key, next (c.perform service stamp w.store).answer⟩ } := by
  have hserve : w.step (.serve index service stamp) =
      w.proceed index key (next (c.perform service stamp w.store).answer)
        (c.perform service stamp w.store).store (c.perform service stamp w.store).events := by
    simp only [step, advance, htask, Program.answerNext, Option.map_some]
  exact comes_commit hsent (.serve index service stamp)
    { w with
      store := (c.perform service stamp w.store).store
      tasks := w.tasks.set index ⟨key, next (c.perform service stamp w.store).answer⟩ } hserve hsent

/-! ## Passes that start -/

/-- Passes over these runner sets that have just begun. -/
def begun (keys : List String) (suffixes : List (Nat → String)) : List Task :=
  List.zipWith (fun key suffix => ⟨key, pass suffix key⟩) keys suffixes

/-- Passes start one after the other, while there is room for them. -/
theorem comes_fill {w : Watch} (hlisted : w.listed = true) {free : Nat}
    (hroom : free ≤ w.loop.settings.maxConcurrent - w.loop.running)
    {suffixes : List (Nat → String)}
    (hlength : suffixes.length = ((w.loop.fill free).2.filterMap Effect.started?).length) :
    w.Comes
      { w with
        loop := (w.loop.fill free).1
        tasks := w.tasks ++ begun ((w.loop.fill free).2.filterMap Effect.started?) suffixes } := by
  have hnone : ∀ (w : Watch) (suffixes : List (Nat → String)),
      w.Comes { w with tasks := w.tasks ++ begun [] suffixes } := by
    intro w suffixes
    rw [begun, List.zipWith_nil_left, List.append_nil]
    exact .refl w
  induction free generalizing w suffixes with
  | zero => exact hnone w suffixes
  | succ free ih =>
      have hfree : w.loop.running < w.loop.settings.maxConcurrent := by omega
      rw [Loop.fill] at hlength ⊢
      cases hnext : w.loop.queue.next with
      | none => exact hnone w suffixes
      | some entry =>
          obtain ⟨key, queue⟩ := entry
          rw [hnext] at hlength
          obtain ⟨suffix, rest, rfl⟩ : ∃ suffix rest, suffixes = suffix :: rest :=
            List.exists_cons_of_length_eq_add_one hlength
          have hstart : w.Comes
              (begin suffix { w with loop := { w.loop with queue, running := w.loop.running + 1 } }
                key) := by
            refine comes_step (.start suffix) (.began key :: w.history) ?_
            simp only [step, hlisted, if_true, start, hfree, Loop.fill_one, hnext]
            rfl
          refine hstart.trans fun history => ?_
          have hrest := @ih
            { begin suffix
                { w with loop := { w.loop with queue, running := w.loop.running + 1 } } key with
              history }
            hlisted (by dsimp only [begin]; omega) rest (Nat.succ.inj hlength)
          dsimp only [begin] at hrest
          rw [List.append_assoc] at hrest
          exact hrest

end Watch

/-! ## What the controller of a daemon asks for -/

namespace Loop

/-- The runner sets whose passes the controller starts after a message. -/
def started (l : Loop) (message : Message) : List String :=
  (l.step message).2.filterMap Effect.started?

theorem note_started (l : Loop) (message : Message) :
    (l.note message).2.filterMap Effect.started? = [] := by
  cases message with
  | changed e =>
      simp only [note]
      split <;> rfl
  | ended key ok => cases ok <;> rfl
  | _ => rfl

theorem fill_delayed (l : Loop) (free : Nat) :
    (l.fill free).2.filterMap Effect.delayed? = [] := by
  induction free generalizing l with
  | zero => rfl
  | succ free ih =>
      simp only [fill]
      split
      · rfl
      · exact ih _

theorem started_eq (l : Loop) (message : Message) :
    l.started message =
      ((l.note message).1.fill (l.note message).1.startable).2.filterMap Effect.started? := by
  simp only [started, step, List.filterMap_append, note_started, List.nil_append]

theorem step_delayed (l : Loop) (message : Message) :
    (l.step message).2.filterMap Effect.delayed? =
      (l.note message).2.filterMap Effect.delayed? := by
  simp only [step, List.filterMap_append, fill_delayed, List.append_nil]

@[simp]
theorem step_settings (l : Loop) (message : Message) :
    (l.step message).1.settings = l.settings := by
  simp [step]

end Loop

end Controller

namespace Daemon.Running

open Controller

/-- The wait that an effect begins. -/
def timer? (now : Nat) : Effect → Option Timer
  | .startPass _ => none
  | .retryAfter delay key => some ⟨now + delay.toMillis, key⟩

theorem foldl_apply (d : Running) (now : Nat) (effects : List Effect) :
    effects.foldl (fun d effect => d.apply now effect) d =
      { d with
        passes := d.passes ++ effects.filterMap Effect.started?
        timers := d.timers ++ effects.filterMap (timer? now) } := by
  induction effects generalizing d with
  | nil => simp
  | cons effect effects ih =>
      rw [List.foldl_cons, ih]
      cases effect <;> simp [apply, List.filterMap_cons, Effect.started?, timer?]

/-- What becomes of a daemon whose controller takes a message. -/
theorem tell_eq (d : Running) (now : Nat) (message : Message) :
    d.tell now message =
      { d with
        loop := (d.loop.step message).1
        passes := d.passes ++ d.loop.started message
        timers := d.timers ++ (d.loop.step message).2.filterMap (timer? now) } :=
  foldl_apply { d with loop := (d.loop.step message).1 } now (d.loop.step message).2

/-- The controller of a daemon takes messages one after the other. -/
def tellAll (d : Running) (now : Nat) (messages : List Message) : Running :=
  messages.foldl (fun d message => d.tell now message) d

theorem tellAll_append (d : Running) (now : Nat) (first later : List Message) :
    d.tellAll now (first ++ later) = (d.tellAll now first).tellAll now later :=
  List.foldl_append

/-- The daemon while these waits and these ends of passes have yet to be told. -/
def awaiting (d : Running) (retries : List String) (ended : List (String × Bool)) : Running :=
  { d with retries, ended }

/-- A message is taken in the same way, whatever has yet to be told. -/
theorem tell_awaiting (d : Running) (now : Nat) (message : Message) (retries : List String)
    (ended : List (String × Bool)) :
    (d.awaiting retries ended).tell now message = (d.tell now message).awaiting retries ended := by
  rw [tell_eq, tell_eq]
  rfl

theorem tellAll_awaiting (d : Running) (now : Nat) (messages : List Message)
    (retries : List String) (ended : List (String × Bool)) :
    (d.awaiting retries ended).tellAll now messages =
      (d.tellAll now messages).awaiting retries ended := by
  induction messages generalizing d with
  | nil => rfl
  | cons message messages ih =>
      change ((d.awaiting retries ended).tell now message).tellAll now messages = _
      rw [tell_awaiting]
      exact ih _

/-- The waits that begin are over the runner sets whose passes are put off. -/
theorem map_timer? (now : Nat) (effects : List Effect) :
    (effects.filterMap (timer? now)).map Timer.key = effects.filterMap Effect.delayed? := by
  rw [List.map_filterMap]
  refine congrArg (List.filterMap · effects) (funext fun effect => ?_)
  cases effect <;> rfl

end Daemon.Running

namespace Controller.Watch

open Reconcile Daemon

/-! ## A daemon and its watch -/

/-- The watch that has come as far as a daemon at its site, with these tasks. -/
def ofDaemon (d : Running) (s : Site) (tasks : List Task) : Watch where
  store := s.store
  inbox := s.inbox
  listed := s.inbox.isSome
  loop := d.loop
  tasks
  timers := d.timers.map Timer.key
  retries := d.retries

/-- The task is a pass that is over, and this is noted of it. -/
def IsOver (task : Task) (note : String × Bool) : Prop :=
  ∃ result, task = ⟨note.1, .done result⟩ ∧ result.isOk = note.2

/-- Whichever suffixes the passes that have started will take, some watch has come as far as the
daemon. -/
def Accompanies (d : Running) (s : Site) : Prop :=
  ∀ suffixes : List (Nat → String), suffixes.length = d.passes.length →
    ∃ finished, List.Forall₂ IsOver finished d.ended ∧
      Comes { loop := { settings := d.loop.settings } }
        (ofDaemon d s (finished ++ begun d.passes suffixes))

/-- What is noted of passes that are over has their runner sets. -/
theorem map_key_of_isOver {finished : List Task} {notes : List (String × Bool)}
    (h : List.Forall₂ IsOver finished notes) : finished.map Task.key = notes.map Prod.fst := by
  induction h with
  | nil => rfl
  | cons hfirst _ ih =>
      obtain ⟨result, rfl, -⟩ := hfirst
      exact congrArg _ ih

theorem map_key_begun {keys : List String} {suffixes : List (Nat → String)}
    (h : keys.length = suffixes.length) : (begun keys suffixes).map Task.key = keys := by
  induction keys generalizing suffixes with
  | nil => rfl
  | cons key keys ih =>
      obtain ⟨suffix, rest, rfl⟩ := List.exists_cons_of_length_eq_add_one h.symm
      exact congrArg _ (ih (Nat.succ.inj h))

section Accompanies

variable {d d₁ : Running} {s s₁ : Site} {message : Message}

/-- A watch takes a message, and starts the passes that the daemon starts. -/
theorem comes_tell (hlisted : s.inbox.isSome = true) (tasks : List Task)
    (history : List Occurrence) (now : Nat) (suffixes : List (Nat → String))
    (hlength : suffixes.length = (d.loop.started message).length) :
    Comes { (ofDaemon d s tasks).tell message with history }
      (ofDaemon (d.tell now message) s (tasks ++ begun (d.loop.started message) suffixes)) := by
  have hroom : (d.loop.note message).1.startable ≤
      (d.loop.note message).1.settings.maxConcurrent - (d.loop.note message).1.running :=
    Nat.min_le_left _ _
  rw [Loop.started_eq] at hlength
  have hfill := comes_fill (w := { (ofDaemon d s tasks).tell message with history }) hlisted hroom
    hlength
  have htimers : (d.tell now message).timers.map Timer.key =
      d.timers.map Timer.key ++ (d.loop.note message).2.filterMap Effect.delayed? := by
    rw [Running.tell_eq, List.map_append, Running.map_timer?, Loop.step_delayed]
  have hdaemon :
      ofDaemon (d.tell now message) s (tasks ++ begun (d.loop.started message) suffixes) =
      { (ofDaemon d s tasks).tell message with
        loop := (d.loop.step message).1
        tasks := tasks ++ begun (d.loop.started message) suffixes
        history := [] } := by
    rw [ofDaemon, htimers, Running.tell_eq]
    rfl
  rw [hdaemon, Loop.started_eq]
  exact hfill

/-- A message that the watch can take as it is, the daemon may take. -/
theorem Accompanies.told (h : Accompanies d s) (now : Nat) (hpasses : d₁.passes = d.passes)
    (hloop : d₁.loop = d.loop) (hlisted : s₁.inbox.isSome = true)
    (hpop : ∀ finished, List.Forall₂ IsOver finished d.ended →
      ∃ finished₁, List.Forall₂ IsOver finished₁ d₁.ended ∧ ∀ tasks history,
        ∃ events : List Event, events.foldl step { ofDaemon d s (finished ++ tasks) with history } =
          { (ofDaemon d₁ s₁ (finished₁ ++ tasks)).tell message with history }) :
    Accompanies (d₁.tell now message) s₁ := by
  have htold : (d₁.tell now message).passes = d.passes ++ d.loop.started message ∧
      (d₁.tell now message).ended = d₁.ended ∧
        (d₁.tell now message).loop.settings = d.loop.settings := by
    rw [Running.tell_eq, ← hloop, ← hpasses]
    exact ⟨rfl, rfl, Loop.step_settings _ _⟩
  intro suffixes hlength
  rw [htold.1, List.length_append] at hlength
  obtain ⟨before, new, rfl, hbefore⟩ : ∃ before new, suffixes = before ++ new ∧
      before.length = d.passes.length :=
    ⟨suffixes.take d.passes.length, suffixes.drop d.passes.length,
      (List.take_append_drop _ _).symm, by rw [List.length_take]; omega⟩
  obtain ⟨finished, hover, hcomes⟩ := h before hbefore
  obtain ⟨finished₁, hover₁, hevents⟩ := hpop finished hover
  refine ⟨finished₁, htold.2.1.symm ▸ hover₁, ?_⟩
  rw [htold.1, htold.2.2, begun, List.zipWith_append hbefore.symm, ← List.append_assoc]
  refine hcomes.trans fun history => ?_
  obtain ⟨events, hevents⟩ := hevents (begun d.passes before) history
  have hpopped : Comes { ofDaemon d s (finished ++ begun d.passes before) with history }
      ((ofDaemon d₁ s₁ (finished₁ ++ begun d.passes before)).tell message) :=
    ⟨events, history, hevents⟩
  have hnew : new.length = (d₁.loop.started message).length := by
    rw [List.length_append] at hlength
    rw [hloop]
    omega
  refine hpopped.trans fun history' => ?_
  rw [← hloop]
  exact comes_tell hlisted (finished₁ ++ begun d.passes before) history' now new hnew

/-- The controller begins: it subscribes, and lists the runner sets that there are. -/
theorem Accompanies.list (h : Accompanies d s) (hinbox : s.inbox = none) :
    Accompanies (d.tell s.now (.listed s.setKeys)) { s with inbox := some {} } := by
  refine h.told s.now rfl rfl rfl fun finished hover => ⟨finished, hover, fun tasks history => ?_⟩
  refine ⟨[.subscribe, .list], ?_⟩
  simp only [List.foldl_cons, List.foldl_nil, step, ofDaemon, hinbox, Option.isSome_none,
    Bool.false_eq_true, if_false, Option.isSome_some, true_and, if_true]
  rfl

/-- The controller hears that it missed events, and lists the runner sets. -/
theorem Accompanies.resync (h : Accompanies d s) {inbox : Inbox} (hinbox : s.inbox = some inbox)
    (hlagged : inbox.lagged = true) :
    Accompanies (d.tell s.now (.listed s.setKeys)) { s with inbox := some inbox.resume } := by
  refine h.told s.now rfl rfl rfl fun finished hover => ⟨finished, hover, fun tasks history => ?_⟩
  refine ⟨[.hear], ?_⟩
  simp only [List.foldl_cons, List.foldl_nil, step, ofDaemon, hinbox, Option.isSome_some, if_true,
    hear, hlagged]
  rfl

/-- The controller hears of an event. -/
theorem Accompanies.hear (h : Accompanies d s) {inbox : Inbox} (hinbox : s.inbox = some inbox)
    (hlagged : inbox.lagged = false) {e : WatchEvent} {rest : List WatchEvent}
    (hevents : inbox.events = e :: rest) :
    Accompanies (d.tell s.now (.changed e)) { s with inbox := some inbox.rest } := by
  refine h.told s.now rfl rfl rfl fun finished hover => ⟨finished, hover, fun tasks history => ?_⟩
  refine ⟨[.hear], ?_⟩
  simp only [List.foldl_cons, List.foldl_nil, step, ofDaemon, hinbox, Option.isSome_some, if_true,
    Watch.hear, hlagged, Bool.false_eq_true, if_false, hevents]
  rfl

/-- The controller is told of a wait that is over. -/
theorem Accompanies.retry {key : String} {rest : List String} {ended : List (String × Bool)}
    (h : Accompanies (d.awaiting (key :: rest) ended) s) (hlisted : s.inbox.isSome = true) :
    Accompanies ((d.tell s.now (.retry key)).awaiting rest ended) s := by
  rw [← Running.tell_awaiting]
  refine h.told s.now rfl rfl hlisted fun finished hover =>
    ⟨finished, hover, fun tasks history => ?_⟩
  exact ⟨[.retry], rfl⟩

/-- The controller notices that a pass is over. -/
theorem Accompanies.join {note : String × Bool} {retries : List String}
    {rest : List (String × Bool)} (h : Accompanies (d.awaiting retries (note :: rest)) s)
    (hlisted : s.inbox.isSome = true) :
    Accompanies ((d.tell s.now (.ended note.1 note.2)).awaiting retries rest) s := by
  rw [← Running.tell_awaiting]
  refine h.told s.now rfl rfl hlisted fun finished hover => ?_
  cases hover with
  | cons hfirst hrest =>
      obtain ⟨result, rfl, hok⟩ := hfirst
      refine ⟨_, hrest, fun tasks history => ⟨[.join 0], ?_⟩⟩
      simp only [List.foldl_cons, List.foldl_nil, step, ofDaemon, Watch.join, List.cons_append,
        List.getElem?_cons_zero, List.eraseIdx_cons_zero, hok]
      rfl

/-- The controller hears of all events in its inbox. -/
theorem Accompanies.hearAll (h : Accompanies d s) {inbox : Inbox} (hinbox : s.inbox = some inbox)
    (hlagged : inbox.lagged = false) :
    Accompanies (d.tellAll s.now (inbox.events.map .changed)) { s with inbox := some {} } := by
  generalize hevents : inbox.events = events
  induction events generalizing d s inbox with
  | nil =>
      obtain rfl : inbox = {} := Inbox.eq_of_events hevents hlagged
      rw [← hinbox]
      exact h
  | cons e rest ih =>
      exact ih (s := { s with inbox := some inbox.rest }) (h.hear hinbox hlagged hevents) rfl
        hlagged (congrArg List.tail hevents)

/-- The controller takes all that it hears from the store. -/
theorem Accompanies.heard (h : Accompanies d s) :
    Accompanies (d.tellAll s.now s.heard) { s with inbox := some {} } := by
  unfold Site.heard
  split
  · rename_i hinbox
    exact h.list hinbox
  · rename_i inbox hinbox
    cases hlagged : inbox.lagged with
    | true =>
        have hall := (h.resync hinbox hlagged).hearAll rfl rfl
        exact hall
    | false => exact h.hearAll hinbox hlagged

/-- The controller is told of all waits that are over. -/
theorem Accompanies.retryAll {retries : List String} {ended : List (String × Bool)}
    (h : Accompanies (d.awaiting retries ended) s) (hlisted : s.inbox.isSome = true) :
    Accompanies ((d.tellAll s.now (retries.map .retry)).awaiting [] ended) s := by
  induction retries generalizing d with
  | nil => exact h
  | cons key rest ih => exact ih (h.retry hlisted)

/-- The controller notices the end of all passes that are over. -/
theorem Accompanies.joinAll {retries : List String} {ended : List (String × Bool)}
    (h : Accompanies (d.awaiting retries ended) s) (hlisted : s.inbox.isSome = true) :
    Accompanies ((d.tellAll s.now (ended.map fun (key, ok) => .ended key ok)).awaiting retries [])
      s := by
  induction ended generalizing d with
  | nil => exact h
  | cons note rest ih => exact ih (h.join hlisted)

/-- The controller takes all that it has heard and all that it is told. -/
theorem Accompanies.control (h : Accompanies d s) :
    Accompanies (d.control s).1 (d.control s).2 := by
  have hheard : Accompanies (((d.awaiting [] []).tellAll s.now s.heard).awaiting d.retries d.ended)
      { s with inbox := some {} } := by
    rw [← Running.tellAll_awaiting]
    exact h.heard
  have hall := (hheard.retryAll rfl).joinAll rfl
  rw [← Running.tellAll_append, ← Running.tellAll_append, ← Running.tellAll_awaiting,
    ← List.append_assoc] at hall
  exact hall

/-! ## What the daemon does to the store -/

/-- The watch of a daemon after its site has changed, and this was announced. -/
theorem ofDaemon_of_announced {events : List WatchEvent} (tasks : List Task)
    (hinbox : s₁.inbox = s.inbox.map fun inbox => inbox.add events) :
    ofDaemon d s₁ tasks =
      { ofDaemon d s tasks with
        store := s₁.store
        inbox := s.inbox.map fun inbox => inbox.add events } := by
  rw [ofDaemon, hinbox, Option.isSome_map]
  rfl

/-- An operation is carried out at the site. -/
theorem Accompanies.perform (h : Accompanies d s) (op : Store.Operation) :
    Accompanies d (s.perform op).2 := by
  intro suffixes hlength
  obtain ⟨finished, hover, hcomes⟩ := h suffixes hlength
  refine ⟨finished, hover, hcomes.trans fun history => ?_⟩
  have hafter : (s.perform op).2.inbox =
      s.inbox.map fun inbox => inbox.add (s.store.perform s.stamp op).events := rfl
  rw [ofDaemon_of_announced (finished ++ begun d.passes suffixes) hafter]
  exact comes_write (w := { ofDaemon d s (finished ++ begun d.passes suffixes) with history }) rfl
    s.stamp op

/-- The watch where a pass of the daemon, which has begun after these, has this left to do. -/
def during (d : Running) (s : Site) (finished : List Task) (key : String) (later : List Task)
    (p : Program (Except Reconcile.Error Unit)) (env : Environment) : Watch :=
  { ofDaemon d s (finished ++ ⟨key, p⟩ :: later) with
    store := env.store
    inbox := s.inbox.map fun inbox => inbox.add env.events }

/-- A watch comes to where a pass of the daemon has this left to do. -/
def ComesInto (d : Running) (s : Site) (finished : List Task) (key : String) (later : List Task)
    (p : Program (Except Reconcile.Error Unit)) (env : Environment) : Prop :=
  Comes { loop := { settings := d.loop.settings } } (during d s finished key later p env)

/-- A pass goes on with the answer of its environment. -/
theorem ComesInto.serve {finished later : List Task} {key : String} {c : Call}
    {next : c.Answer → Program (Except Reconcile.Error Unit)} {env : Environment}
    (h : ComesInto d s finished key later (.call c next) env) :
    ComesInto d s finished key later (next (env.serve c).1) (env.serve c).2 := by
  refine Comes.trans h fun history => ?_
  have htask : (finished ++ ⟨key, .call c next⟩ :: later)[finished.length]? =
      some (⟨key, .call c next⟩ : Task) := by
    simp
  have hserve := comes_serve
    (w := { during d s finished key later (.call c next) env with history }) rfl htask env.service
    (env.stamps env.clock)
  simp only [during, ofDaemon, Option.map_map, Function.comp_def, Inbox.add_add,
    List.set_append_right _ _ (Nat.le_refl _), Nat.sub_self, List.set_cons_zero] at hserve
  exact hserve

/-- The daemon runs the next pass that has started. -/
theorem Accompanies.pass (h : Accompanies d s) {key : String} {rest : List String}
    (hnext : d.passes = key :: rest) :
    Accompanies { d with passes := rest, ended := d.ended ++ [(key, (s.runPass key).1)] }
      (s.runPass key).2 := by
  intro suffixes hlength
  have hlength' : (s.suffix :: suffixes).length = d.passes.length := by
    rw [hnext]
    exact congrArg Nat.succ hlength
  obtain ⟨finished, hover, hcomes⟩ := h (s.suffix :: suffixes) hlength'
  have hbegin : ComesInto d s finished key (begun rest suffixes) (Reconcile.pass s.suffix key)
      s.surroundings := by
    have hsame : (s.inbox.map fun inbox => inbox.add s.surroundings.events) = s.inbox := by
      simp [Site.surroundings, Inbox.add_nil]
    rw [ComesInto, during, hsame]
    rw [hnext] at hcomes
    exact hcomes
  obtain ⟨result, env, hend, hok, hstore, -, hinbox⟩ :=
    Site.runPass_keeps (fun hinto => ComesInto.serve hinto) hbegin
  refine ⟨finished ++ [⟨key, .done result⟩], ?_, ?_⟩
  · exact List.rel_append hover (.cons ⟨result, rfl, hok.symm⟩ .nil)
  · rw [ofDaemon_of_announced _ hinbox, hstore, List.append_assoc]
    exact hend

/-- Nothing but the store and the inbox of the site matters. -/
theorem Accompanies.around (h : Accompanies d s) (hstore : s₁.store = s.store)
    (hinbox : s₁.inbox = s.inbox) : Accompanies d s₁ := by
  intro suffixes hlength
  obtain ⟨finished, hover, hcomes⟩ := h suffixes hlength
  refine ⟨finished, hover, ?_⟩
  rw [ofDaemon, hstore, hinbox]
  exact hcomes

/-- A request is answered. -/
theorem Accompanies.respond (h : Accompanies d s) (queues : Api.Queues) (request : Api.Request) :
    Accompanies d (s.respond queues request).2.2 := by
  rcases Api.State.touched_respond ⟨s.store, queues⟩ s.stamp request with
    ⟨hstore, hevents⟩ | ⟨op, -, hstore, hevents⟩
  · refine h.around hstore ?_
    change (s.inbox.map fun inbox => inbox.add
      (Api.State.respond ⟨s.store, queues⟩ s.stamp request).events) = s.inbox
    rw [hevents]
    simp [Inbox.add_nil]
  · refine (h.perform op).around hstore ?_
    change (s.inbox.map fun inbox => inbox.add
      (Api.State.respond ⟨s.store, queues⟩ s.stamp request).events) = _
    rw [hevents]
    rfl

/-- The waits that are due end, one after the other; those before them stay. -/
theorem comes_expire (due : Timer → Bool) (timers kept : List Timer) {w : Watch}
    (h : w.timers = (kept ++ timers).map Timer.key) :
    w.Comes
      { w with
        timers := (kept ++ timers.filter fun timer => !due timer).map Timer.key
        retries := w.retries ++ (timers.filter due).map Timer.key } := by
  induction timers generalizing kept w with
  | nil =>
      rw [List.filter_nil, List.filter_nil, ← h, List.map_nil, List.append_nil]
      exact .refl w
  | cons timer timers ih =>
      cases hdue : due timer with
      | false =>
          have hrest := ih (kept ++ [timer]) (w := w) (by rw [h, List.append_assoc]; rfl)
          simp only [List.filter_cons, hdue, Bool.not_false, if_true, Bool.false_eq_true, if_false]
          rw [List.append_assoc] at hrest
          exact hrest
      | true =>
          have hfirst : w.Comes
              { w with
                timers := (kept ++ timers).map Timer.key
                retries := w.retries ++ [timer.key] } := by
            refine comes_step (.expire kept.length) w.history ?_
            simp [step, h, List.eraseIdx_append_of_length_le]
          refine hfirst.trans fun history => ?_
          have hrest := ih kept (w := { w with
            timers := (kept ++ timers).map Timer.key
            retries := w.retries ++ [timer.key]
            history }) rfl
          simp only [List.filter_cons, hdue, Bool.not_true, if_true, Bool.false_eq_true, if_false]
          dsimp only at hrest
          rw [List.append_assoc] at hrest
          exact hrest

/-- The waits of the daemon that are due end. -/
theorem Accompanies.expire (h : Accompanies d s) (now : Nat) : Accompanies (d.expire now) s := by
  intro suffixes hlength
  obtain ⟨finished, hover, hcomes⟩ := h suffixes hlength
  refine ⟨finished, hover, hcomes.trans fun history => ?_⟩
  have hexpire := comes_expire (fun timer => timer.due ≤ now) d.timers []
    (w := { ofDaemon d s (finished ++ begun d.passes suffixes) with history }) rfl
  rw [Running.expire, List.partition_eq_filter_filter]
  exact hexpire

/-- What others write before the controller begins is what it finds. -/
theorem comes_reachable {store : Store} (h : store.Reachable) (settings : Settings) :
    Comes { loop := { settings } } { store, loop := { settings } } := by
  induction h with
  | empty => exact .refl _
  | perform _ stamp op ih =>
      exact ih.trans fun history => comes_write (w := { store := _, loop := { settings }, history })
        rfl stamp op

/-- A daemon that has just started has a watch that has not begun. -/
theorem accompanies_new (hreached : s.store.Reachable) (hinbox : s.inbox = none) (c : Config) :
    Accompanies (Running.new c) s := by
  refine fun suffixes _ => ⟨[], .nil, ?_⟩
  rw [ofDaemon, hinbox]
  exact comes_reachable hreached c.settings

end Accompanies

/-! ## Whole runs -/

/-- Whatever a machine does, some watch does it too. -/
theorem lasting_accompanies :
    Lasting (fun _ => True) (fun s => s.store.Reachable)
      fun d s => s.store.Reachable ∧ Accompanies d s where
  control h := ⟨h.1, h.2.control⟩
  drain _ h := h
  report {d s} batch h := by
    rcases s.listen_cases d.key d.listener batch with heq | ⟨patch, heq⟩
    · rw [heq]
      exact h
    · rw [heq]
      exact ⟨h.1.perform _ _, h.2.perform _⟩
  pass {_ s key _} hnext h := by
    refine ⟨?_, h.2.pass hnext⟩
    obtain ⟨-, env, hreached, -, hstore, -⟩ :=
      @Site.runPass_keeps s key (fun _ env => env.store.Reachable)
        (fun {c _ env} henv => (answered_perform env.service _ env.store c).reachable henv) h.1
    rw [hstore]
    exact hreached
  expire now h := ⟨h.1, h.2.expire now⟩
  around h hstore hinbox _ := ⟨hstore ▸ h.1, h.2.around hstore hinbox⟩
  ends h := h.1
  start {s c} _ h := by
    rcases Machine.ensureSet_cases { s with inbox := none } c with heq | heq
    · rw [heq]
      exact ⟨h, accompanies_new h rfl c⟩
    · rw [heq]
      exact ⟨Store.Reachable.perform h _ _, accompanies_new (Store.Reachable.perform h _ _) rfl c⟩
  respond {d s request} _ h := by
    refine ⟨?_, h.2.respond d.queues request⟩
    change (Api.State.respond ⟨s.store, d.queues⟩ s.stamp request).state.store.Reachable
    rcases Api.State.touched_respond ⟨s.store, d.queues⟩ s.stamp request with
      ⟨hstore, -⟩ | ⟨op, -, hstore, -⟩
    · rw [hstore]
      exact h.1
    · rw [hstore]
      exact h.1.perform s.stamp op
  perform _ h := ⟨h.1.perform _ _, h.2.perform _⟩
  performAlone _ h := Store.Reachable.perform h _ _
  replaceService _ h := h
  replaceServiceAlone _ h := h
  alone h hstore _ := hstore ▸ h

/-- The store of a machine, the state of its controller and all that this has yet to hear are those
of a watch; and its passes are those of the watch, begun or over. -/
theorem exists_history {m : Machine} (hstore : m.site.store = {}) (hdaemon : m.daemon = none)
    {commands : List Command} {d : Running} (hlast : (m.run commands).daemon = some d) :
    ∃ events tasks, tasks.map Task.key = d.ended.map Prod.fst ++ d.passes ∧
      ∃ history, run d.loop.settings events =
        { ofDaemon d (m.run commands).site tasks with history } := by
  have hfirst : m.Holds (fun s => s.store.Reachable)
      fun d s => s.store.Reachable ∧ Accompanies d s := by
    rw [Machine.Holds, hdaemon, hstore]
    exact .empty
  have hholds := lasting_accompanies.run hfirst fun command (_ : command ∈ commands) => trivial
  rw [Machine.Holds, hlast] at hholds
  obtain ⟨finished, hover, events, history, hevents⟩ :=
    hholds.2 (d.passes.map fun _ => toString) (List.length_map _)
  refine ⟨events, _, ?_, history, hevents⟩
  rw [List.map_append, map_key_of_isOver hover, map_key_begun (List.length_map _).symm]

end Controller.Watch
end RunnerFleet
