import RunnerFleet.Proofs.Controller.Queue
import RunnerFleet.Proofs.Controller.Watching
import Mathlib.Data.List.Perm.Basic

/-!
# No change is lost

Once the controller has listed the runner sets that it found, every set that was written since its
last pass began is on the way to another pass: the write is yet to be announced, or its announcement
is yet to arrive, or events are known to be missing, or the set is due.  A set whose last pass failed
is on the way to another pass too.  Nothing is assumed of the order in which writes, announcements,
passes and waiting times take their turns.

Three invariants carry this, each of them kept by every step.  `Staffed` ties the queue to the
passes that run, `Persistent` keeps track of failed passes, and `Attentive` of writes.

Main results:

- `Staffed.step`, `Persistent.step`, `Attentive.step`: each step keeps the invariants.
- `sound_run`: they hold at all times.
- `no_change_lost`: every set that needs a pass is on the way to it.
-/

namespace RunnerFleet

/-- An entry of a list may be taken out, or another one put in its place. -/
theorem perm_of_getElem? {α : Type} {l : List α} {i : Nat} {a : α} (h : l[i]? = some a) :
    l.Perm (a :: l.eraseIdx i) ∧ ∀ b, (l.set i b).Perm (b :: l.eraseIdx i) := by
  obtain ⟨hi, rfl⟩ := List.getElem?_eq_some_iff.1 h
  exact ⟨(List.getElem_cons_eraseIdx_perm hi).symm, List.set_perm_cons_eraseIdx hi⟩

/-- A call announces every runner set that it touches. -/
theorem Reconcile.Call.exists_event_of_touches {s : Store} (hs : s.Keyed) (c : Call)
    (service : Actions.Service) (stamp : Stamp) {key : String}
    (h : Store.Touches key s (c.perform service stamp s).store) :
    ∃ e ∈ (c.perform service stamp s).events, e.runnerSetKey = some key := by
  rw [perform_store] at h
  rw [perform_events]
  cases hop : c.operation? with
  | none =>
      rw [hop] at h
      exact absurd h (Store.not_touches_self key s)
  | some op =>
      rw [hop] at h
      exact Store.exists_event_of_touches hs stamp op h

namespace Controller

open Reconcile

/-! ## The passes that run -/

/-- What the controller takes for running is what its queue has under way: each runner set once, and
no more than there is room for. -/
structure Staffed (settings : Settings) (l : Loop) (tasks : List Task) : Prop where
  settings_eq : l.settings = settings
  coherent : l.queue.Coherent
  running_eq : l.running = tasks.length
  length_le : tasks.length ≤ settings.maxConcurrent
  nodup : (tasks.map Task.key).Nodup
  inFlight_iff : ∀ {k : String}, l.queue.inFlight.contains k = true ↔ k ∈ tasks.map Task.key

namespace Staffed

variable {settings : Settings} {l : Loop} {tasks : List Task}

theorem note (h : Staffed settings l tasks) (keys : List String) :
    Staffed settings { l with queue := l.queue.addAll keys } tasks where
  settings_eq := h.settings_eq
  coherent := h.coherent.addAll keys
  running_eq := h.running_eq
  length_le := h.length_le
  nodup := h.nodup
  inFlight_iff := by
    intro k
    rw [WorkQueue.inFlight_addAll]
    exact h.inFlight_iff

/-- A pass begins over a set without one under way, if there is room for it. -/
theorem begin (h : Staffed settings l tasks) {key : String} {queue : WorkQueue}
    (hroom : l.running < l.settings.maxConcurrent) (hnext : l.queue.next = some (key, queue))
    (program : Program (Except Reconcile.Error Unit)) :
    Staffed settings { l with queue, running := l.running + 1 } (tasks ++ [⟨key, program⟩]) where
  settings_eq := h.settings_eq
  coherent := h.coherent.next hnext
  running_eq := by simp [h.running_eq]
  length_le := by
    rw [h.settings_eq, h.running_eq] at hroom
    rw [List.length_append]
    exact hroom
  nodup := by
    have hidle : key ∉ tasks.map Task.key := by
      rw [← h.inFlight_iff, h.coherent.inFlight_of_next hnext]
      exact Bool.false_ne_true
    rw [List.map_append, List.map_singleton]
    exact (List.perm_append_comm.nodup_iff).2 (List.nodup_cons.2 ⟨hidle, h.nodup⟩)
  inFlight_iff := by
    intro k
    rw [WorkQueue.contains_inFlight_next hnext, h.inFlight_iff, List.map_append, List.mem_append,
      List.map_singleton, List.mem_singleton]
    exact Or.comm

/-- A pass that goes on stays a pass over the same set. -/
theorem set (h : Staffed settings l tasks) {index : Nat} {old new : Task}
    (hold : tasks[index]? = some old) (hkey : new.key = old.key) :
    Staffed settings l (tasks.set index new) := by
  obtain ⟨hbefore, hafter⟩ := perm_of_getElem? hold
  have hkeys : ((tasks.set index new).map Task.key).Perm (tasks.map Task.key) := by
    refine ((hafter new).map _).trans ?_
    rw [List.map_cons, hkey, ← List.map_cons]
    exact (hbefore.map _).symm
  refine ⟨h.settings_eq, h.coherent, ?_, ?_, hkeys.nodup_iff.2 h.nodup, ?_⟩
  · rw [List.length_set]
    exact h.running_eq
  · rw [List.length_set]
    exact h.length_le
  · intro k
    rw [hkeys.mem_iff]
    exact h.inFlight_iff

/-- When a pass is taken off, its set is the only one that is no longer under way. -/
theorem join (h : Staffed settings l tasks) {index : Nat} {t : Task}
    (ht : tasks[index]? = some t) (ok : Bool) :
    Staffed settings
      { l with queue := (l.queue.done t.key ok).2, running := l.running - 1 }
      (tasks.eraseIdx index) := by
  obtain ⟨hbefore, -⟩ := perm_of_getElem? ht
  have hlength := hbefore.length_eq
  have hnodup := (hbefore.map Task.key).nodup_iff.1 h.nodup
  rw [List.length_cons] at hlength
  rw [List.map_cons, List.nodup_cons] at hnodup
  refine ⟨h.settings_eq, h.coherent.done t.key ok, ?_, ?_, hnodup.2, ?_⟩
  · rw [h.running_eq, hlength]
    exact Nat.add_sub_cancel _ _
  · exact Nat.le_trans (Nat.le_of_lt (hlength ▸ Nat.lt_succ_self _)) h.length_le
  · intro k
    rw [WorkQueue.contains_inFlight_done, h.inFlight_iff, (hbefore.map Task.key).mem_iff,
      List.map_cons, List.mem_cons]
    constructor
    · rintro ⟨hne, rfl | hk⟩
      · exact absurd rfl hne
      · exact hk
    · intro hk
      exact ⟨fun heq => hnodup.1 (heq ▸ hk), Or.inr hk⟩

theorem move {w w' : Watch} (h : Staffed settings w.loop w.tasks) (hmove : w.Move w') :
    Staffed settings w'.loop w'.tasks := by
  cases hmove with
  | idle | write | send | lose | subscribe | expire => exact h
  | list | resync | hear | retry => exact h.note _
  | start suffix hroom hnext => exact h.begin hroom hnext _
  | serve _ _ htask => exact h.set htask rfl
  | fail htask => exact h.set htask rfl
  | join htask => exact h.join htask _

end Staffed

/-! ## Failed passes -/

/-- A set is on the way to another pass after a failed one: it waits for its time, or the time is
over, or it is in the queue, or a pass over it is under way. -/
def Watch.Retried (w : Watch) (key : String) : Prop :=
  key ∈ w.timers ∨ key ∈ w.retries ∨ w.loop.queue.queued.contains key = true ∨
    w.loop.queue.inFlight.contains key = true

/-- No failed pass is forgotten. -/
structure Persistent (w : Watch) : Prop where
  /-- If the latest pass of a set that is taken for running has failed, this is that pass. -/
  concluded : ∀ t ∈ w.tasks, Failed t.key w.history →
    ∃ errors, t.program = .done (.error errors)
  retried : ∀ {k : String}, Failed k w.history → w.Retried k

theorem failed_noteEnd {key k : String} {rest : Program (Except Reconcile.Error Unit)}
    {history : List Occurrence} (h : Failed k (Watch.noteEnd key rest ++ history)) :
    k = key ∧ (∃ errors, rest = .done (.error errors)) ∨ Failed k history := by
  cases rest with
  | call c next => exact Or.inr h
  | done result =>
      by_cases hk : key = k
      · left
        have herror : result.isOk = false := by simpa [Watch.noteEnd, Failed, hk] using h
        cases result with
        | error errors => exact ⟨hk.symm, errors, rfl⟩
        | ok value => cases herror
      · right
        simpa [Watch.noteEnd, Failed, hk] using h

namespace Persistent

variable {w : Watch}

/-- What only adds to the queue and the waiting sets forgets no failed pass. -/
theorem frame {w' : Watch} (h : Persistent w) (htasks : w'.tasks = w.tasks)
    (hhistory : ∀ {k}, Failed k w'.history → Failed k w.history)
    (htimers : ∀ {k}, k ∈ w.timers → k ∈ w'.timers ∨ k ∈ w'.retries)
    (hretries : ∀ {k}, k ∈ w.retries → w'.Retried k)
    (hqueue : ∀ {k}, w.loop.queue.Scheduled k → w'.loop.queue.Scheduled k) : Persistent w' := by
  refine ⟨?_, ?_⟩
  · rw [htasks]
    exact fun t ht hfailed => h.concluded t ht (hhistory hfailed)
  · intro k hfailed
    rcases h.retried (hhistory hfailed) with hk | hk | hk
    · exact (htimers hk).elim Or.inl fun hk => Or.inr (Or.inl hk)
    · exact hretries hk
    · exact Or.inr (Or.inr (hqueue hk))

theorem note (h : Persistent w) (keys : List String) : Persistent (w.note keys) :=
  h.frame rfl id Or.inl (fun hk => Or.inr (Or.inl hk)) fun hk => hk.addAll keys

/-- A pass that begins takes the place of an earlier one that has failed. -/
theorem begin (h : Persistent w) {key : String} {queue : WorkQueue} (suffix : Nat → String)
    (hnext : w.loop.queue.next = some (key, queue)) :
    Persistent (Watch.begin suffix
      { w with loop := { w.loop with queue, running := w.loop.running + 1 } } key) := by
  refine ⟨?_, ?_⟩
  · rintro t ht ⟨hne, hfailed⟩
    rcases List.mem_append.1 ht with ht | ht
    · exact h.concluded t ht hfailed
    · obtain rfl := List.mem_singleton.1 ht
      exact absurd rfl hne
  · rintro k ⟨-, hfailed⟩
    exact (h.retried hfailed).imp_right (Or.imp_right fun hk => WorkQueue.Scheduled.next hk hnext)

/-- A pass that goes on may end with errors; it is still taken for running then. -/
theorem proceed (h : Persistent w) {settings : Settings} (hstaff : Staffed settings w.loop w.tasks)
    {index : Nat} {key : String} {c : Call}
    {next : c.Answer → Program (Except Reconcile.Error Unit)}
    (htask : w.tasks[index]? = some ⟨key, .call c next⟩)
    (rest : Program (Except Reconcile.Error Unit)) (after : Store) (events : List WatchEvent) :
    Persistent (w.proceed index key rest after events) := by
  obtain ⟨hbefore, hafter⟩ := perm_of_getElem? htask
  have hrunning : (⟨key, .call c next⟩ : Task) ∈ w.tasks := hbefore.mem_iff.2 List.mem_cons_self
  have hunfailed : ¬ Failed key w.history := by
    intro hfailed
    obtain ⟨errors, heq⟩ := h.concluded _ hrunning hfailed
    cases heq
  have hnodup := (hbefore.map Task.key).nodup_iff.1 hstaff.nodup
  rw [List.map_cons, List.nodup_cons] at hnodup
  refine ⟨?_, ?_⟩
  · intro t ht hfailed
    rcases List.mem_cons.1 ((hafter ⟨key, rest⟩).mem_iff.1 ht) with rfl | ht
    · rcases failed_noteEnd hfailed with ⟨-, hrest⟩ | hfailed
      · exact hrest
      · exact absurd hfailed hunfailed
    · have hne : t.key ≠ key := fun heq => hnodup.1 (List.mem_map.2 ⟨t, ht, heq⟩)
      rcases failed_noteEnd hfailed with ⟨heq, -⟩ | hfailed
      · exact absurd heq hne
      · exact h.concluded t (hbefore.mem_iff.2 (List.mem_cons_of_mem _ ht)) hfailed
  · intro k hfailed
    rcases failed_noteEnd hfailed with ⟨rfl, -⟩ | hfailed
    · exact Or.inr (Or.inr (Or.inr
        (hstaff.inFlight_iff.2 (List.mem_map_of_mem hrunning))))
    · exact h.retried hfailed

/-- A failed pass that is taken off is put off. -/
theorem join (h : Persistent w) {index : Nat} {key : String}
    {result : Except Reconcile.Error Unit} (htask : w.tasks[index]? = some ⟨key, .done result⟩) :
    Persistent
      { w with
        loop :=
          { w.loop with
            queue := (w.loop.queue.done key result.isOk).2
            running := w.loop.running - 1 }
        timers := w.timers ++ if result.isOk then [] else [key]
        tasks := w.tasks.eraseIdx index } := by
  obtain ⟨hbefore, -⟩ := perm_of_getElem? htask
  refine ⟨?_, ?_⟩
  · intro t ht hfailed
    exact h.concluded t (hbefore.mem_iff.2 (List.mem_cons_of_mem _ ht)) hfailed
  · intro k hfailed
    by_cases hk : k = key
    · subst hk
      obtain ⟨errors, heq⟩ := h.concluded _ (hbefore.mem_iff.2 List.mem_cons_self) hfailed
      cases heq
      exact Or.inl (List.mem_append_right _ List.mem_cons_self)
    · rcases h.retried hfailed with hwaits | hover | hscheduled
      · exact Or.inl (List.mem_append_left _ hwaits)
      · exact Or.inr (Or.inl hover)
      · exact Or.inr (Or.inr (WorkQueue.Scheduled.done hscheduled key _ hk))

theorem move (h : Persistent w) {settings : Settings} (hstaff : Staffed settings w.loop w.tasks)
    {w' : Watch} (hmove : w.Move w') : Persistent w' := by
  cases hmove with
  | idle => exact h
  | write | send | lose | subscribe =>
      exact h.frame rfl id Or.inl (fun hk => Or.inr (Or.inl hk)) id
  | list | resync | hear =>
      exact (h.note _).frame rfl id Or.inl (fun hk => Or.inr (Or.inl hk)) id
  | start suffix _ hnext => exact h.begin suffix hnext
  | serve _ _ htask => exact h.proceed hstaff htask _ _ _
  | fail htask => exact h.proceed hstaff htask _ _ _
  | join htask => exact h.join htask
  | expire hfound =>
      obtain ⟨hbefore, -⟩ := perm_of_getElem? hfound
      refine h.frame rfl id ?_ (fun hk => Or.inr (Or.inl (List.mem_append_left _ hk))) id
      intro k hk
      rcases List.mem_cons.1 (hbefore.mem_iff.1 hk) with rfl | hk
      · exact Or.inr (List.mem_append_right _ List.mem_cons_self)
      · exact Or.inl hk
  | retry hnext =>
      refine h.frame rfl id Or.inl ?_ fun hk => hk.addAll _
      intro k hk
      rw [hnext] at hk
      rcases List.mem_cons.1 hk with rfl | hk
      · exact Or.inr (Or.inr (WorkQueue.pending_addAll _ List.mem_cons_self).scheduled)
      · exact Or.inr (Or.inl hk)

end Persistent

/-! ## Writes -/

/-- A set is on the way to a pass that begins from now on: an event that leads to it is not sent
yet, or is on its way, or events are known to be missing, or the set is due. -/
def Watch.Noticed (w : Watch) (key : String) : Prop :=
  (∃ e ∈ w.unsent, e.runnerSetKey = some key) ∨
    (∃ inbox, w.inbox = some inbox ∧
      (inbox.lagged = true ∨ ∃ e ∈ inbox.events, e.runnerSetKey = some key)) ∨
    w.loop.queue.Pending key

/-- No write is forgotten. -/
structure Attentive (w : Watch) : Prop where
  keyed : w.store.Keyed
  subscribed : w.listed = true → w.inbox.isSome = true
  noticed : w.listed = true → ∀ {k : String}, (w.store.getSet k).isSome = true →
    Stale k w.history → w.Noticed k

theorem stale_noteEnd {key k : String} {rest : Program (Except Reconcile.Error Unit)}
    {history : List Occurrence} :
    Stale k (Watch.noteEnd key rest ++ history) ↔ Stale k history := by
  cases rest <;> exact Iff.rfl

/-- An event is in an inbox that it was put in, unless events are known to be missing there. -/
theorem Inbox.mem_add {inbox : Inbox} {e new : WatchEvent} (h : e ∈ inbox.events ∨ e = new) :
    (inbox.add [new]).lagged = true ∨ e ∈ (inbox.add [new]).events := by
  by_cases hfits : (inbox.events ++ [new]).length ≤ inboxCapacity
  · right
    rw [Inbox.add_events_of_fits hfits]
    simpa using h
  · left
    exact Inbox.add_lagged_iff.2 (Or.inr (Nat.lt_of_not_le hfits))

namespace Attentive

variable {w : Watch}

/-- What keeps all events that are on their way, and all sets that are due, forgets no write. -/
theorem frame {w' : Watch} (h : Attentive w) (hstore : w'.store = w.store)
    (hlisted : w'.listed = w.listed) (hhistory : w'.history = w.history)
    (hsubscribed : w.inbox.isSome = true → w'.inbox.isSome = true)
    (hnoticed : ∀ {k}, w.listed = true → w.Noticed k → w'.Noticed k) : Attentive w' := by
  refine ⟨hstore ▸ h.keyed, fun hl => hsubscribed (h.subscribed (hlisted ▸ hl)), ?_⟩
  intro hl k hpresent hstale
  rw [hlisted] at hl
  rw [hstore] at hpresent
  rw [hhistory] at hstale
  exact hnoticed hl (h.noticed hl hpresent hstale)

/-- A write is announced to every set that it touches. -/
theorem commit (h : Attentive w) {after : Store} {events : List WatchEvent} (hafter : after.Keyed)
    (hannounced : ∀ {k}, Store.Touches k w.store after → ∃ e ∈ events, e.runnerSetKey = some k) :
    Attentive (w.commit after events) := by
  refine ⟨hafter, h.subscribed, ?_⟩
  intro hlisted k hpresent hstale
  by_cases htouched : Store.Touches k w.store after
  · obtain ⟨e, he, hkey⟩ := hannounced htouched
    exact Or.inl ⟨e, List.mem_append_right _ he, hkey⟩
  · -- the set is as it was before, and so is what was known of it
    have hsame : after.getSet k = w.store.getSet k := by
      by_contra hne
      exact htouched (Or.inl hne)
    have hbefore : (w.store.getSet k).isSome = true := hsame ▸ hpresent
    rcases hstale with htouches | hstale
    · exact absurd htouches htouched
    · exact (h.noticed hlisted hbefore hstale).imp_left fun ⟨e, he, hkey⟩ =>
        ⟨e, List.mem_append_left _ he, hkey⟩

theorem proceed (h : Attentive w) {after : Store} {events : List WatchEvent} (hafter : after.Keyed)
    (hannounced : ∀ {k}, Store.Touches k w.store after → ∃ e ∈ events, e.runnerSetKey = some k)
    (index : Nat) (key : String) (rest : Program (Except Reconcile.Error Unit)) :
    Attentive (w.proceed index key rest after events) := by
  have hcommit := h.commit hafter hannounced
  refine ⟨hcommit.keyed, hcommit.subscribed, ?_⟩
  intro hlisted k hpresent hstale
  exact hcommit.noticed hlisted hpresent (stale_noteEnd.1 hstale)

/-- All sets that there are become due when they are listed. -/
theorem pending_note_setKeys (h : Attentive w) {k : String}
    (hpresent : (w.store.getSet k).isSome = true) :
    (w.loop.queue.addAll w.setKeys).Pending k := by
  obtain ⟨set, hset⟩ := Option.isSome_iff_exists.1 hpresent
  refine WorkQueue.pending_addAll _ (List.mem_map.2 ⟨set, ?_, h.keyed.set hset⟩)
  exact List.mem_map.2 ⟨(k, set), KeyMap.mem_entries_iff_get?.2 hset, rfl⟩

/-- When an event is sent, it is on its way, unless events go missing. -/
theorem send (h : Attentive w) {index : Nat} {e : WatchEvent} (hfound : w.unsent[index]? = some e) :
    Attentive
      { w with
        unsent := w.unsent.eraseIdx index
        inbox := w.inbox.map fun inbox => inbox.add [e] } := by
  obtain ⟨hbefore, -⟩ := perm_of_getElem? hfound
  refine h.frame rfl rfl rfl (by simp) ?_
  rintro k hlisted (⟨e', he', hkey⟩ | ⟨inbox, hinbox, hmissing⟩ | hpending)
  · rcases List.mem_cons.1 (hbefore.mem_iff.1 he') with rfl | he'
    · obtain ⟨inbox, hinbox⟩ := Option.isSome_iff_exists.1 (h.subscribed hlisted)
      refine Or.inr (Or.inl ⟨inbox.add [e'], by simp [hinbox], ?_⟩)
      exact (Inbox.mem_add (Or.inr rfl)).imp_right fun hmem => ⟨e', hmem, hkey⟩
    · exact Or.inl ⟨e', he', hkey⟩
  · refine Or.inr (Or.inl ⟨inbox.add [e], by simp [hinbox], ?_⟩)
    rcases hmissing with hlagged | ⟨e', he', hkey⟩
    · exact Or.inl (Inbox.add_lagged_iff.2 (Or.inl hlagged))
    · exact (Inbox.mem_add (Or.inl he')).imp_right fun hmem => ⟨e', hmem, hkey⟩
  · exact Or.inr (Or.inr hpending)

/-- The event that the controller takes makes the set due to which it leads. -/
theorem hear (h : Attentive w) {inbox : Inbox} {e : WatchEvent} {rest : List WatchEvent}
    (hinbox : w.inbox = some inbox) (hnext : inbox.events = e :: rest) :
    Attentive { w.note e.runnerSetKey.toList with inbox := some inbox.rest } := by
  refine h.frame rfl rfl rfl (fun _ => rfl) ?_
  rintro k - (hunsent | ⟨inbox', hinbox', hmissing⟩ | hpending)
  · exact Or.inl hunsent
  · obtain rfl : inbox' = inbox := Option.some.inj (hinbox'.symm.trans hinbox)
    rcases hmissing with hlagged | ⟨e', he', hkey⟩
    · exact Or.inr (Or.inl ⟨_, rfl, Or.inl hlagged⟩)
    · rw [hnext] at he'
      rcases List.mem_cons.1 he' with rfl | he'
      · refine Or.inr (Or.inr (WorkQueue.pending_addAll _ ?_))
        rw [hkey]
        exact List.mem_cons_self
      · refine Or.inr (Or.inl ⟨_, rfl, Or.inr ⟨e', ?_, hkey⟩⟩)
        simpa [Inbox.rest, hnext] using he'
  · exact Or.inr (Or.inr (hpending.addAll _))

/-- A set whose pass begins has not been written since. -/
theorem begin (h : Attentive w) {key : String} {queue : WorkQueue} (suffix : Nat → String)
    (hnext : w.loop.queue.next = some (key, queue)) :
    Attentive (Watch.begin suffix
      { w with loop := { w.loop with queue, running := w.loop.running + 1 } } key) := by
  refine ⟨h.keyed, h.subscribed, ?_⟩
  rintro hlisted k hpresent ⟨hne, hstale⟩
  exact (h.noticed hlisted hpresent hstale).imp_right
    (Or.imp_right fun hpending => hpending.next hnext hne.symm)

theorem move (h : Attentive w) {w' : Watch} (hmove : w.Move w') : Attentive w' := by
  cases hmove with
  | idle => exact h
  | write stamp op =>
      exact h.commit (h.keyed.perform stamp op) (Store.exists_event_of_touches h.keyed stamp op)
  | send hfound => exact h.send hfound
  | lose =>
      refine h.frame rfl rfl rfl (by simp) ?_
      rintro k hlisted (hunsent | ⟨inbox, hinbox, -⟩ | hpending)
      · exact Or.inl hunsent
      · exact Or.inr (Or.inl ⟨inbox.lose, by simp [hinbox], Or.inl rfl⟩)
      · exact Or.inr (Or.inr hpending)
  | subscribe habsent =>
      refine h.frame rfl rfl rfl (fun _ => rfl) ?_
      intro k hlisted
      have := h.subscribed hlisted
      simp [habsent] at this
  | list hsubscribed =>
      exact ⟨h.keyed, fun _ => hsubscribed, fun _ _ hpresent _ =>
        Or.inr (Or.inr (h.pending_note_setKeys hpresent))⟩
  | resync hsubscribed =>
      exact ⟨h.keyed, fun _ => rfl, fun _ _ hpresent _ =>
        Or.inr (Or.inr (h.pending_note_setKeys hpresent))⟩
  | hear hsubscribed hnext => exact h.hear hsubscribed hnext
  | start suffix _ hnext => exact h.begin suffix hnext
  | @serve index key c next service stamp htask =>
      refine h.proceed ?_ (c.exists_event_of_touches h.keyed service stamp) _ _ _
      exact (answered_perform service stamp w.store c).keyed h.keyed
  | fail =>
      exact h.proceed h.keyed (fun htouched => absurd htouched (Store.not_touches_self _ _)) _ _ _
  | join =>
      refine h.frame rfl rfl rfl id ?_
      exact fun _ hnoticed => hnoticed.imp_right (Or.imp_right fun hpending => hpending.done _ _)
  | expire => exact h.frame rfl rfl rfl id fun _ => id
  | retry =>
      refine h.frame rfl rfl rfl id ?_
      exact fun _ hnoticed => hnoticed.imp_right (Or.imp_right fun hpending => hpending.addAll _)

end Attentive

/-! ## At all times -/

/-- What holds of the controller at all times. -/
structure Watch.Sound (settings : Settings) (w : Watch) : Prop where
  staffed : Staffed settings w.loop w.tasks
  persistent : Persistent w
  attentive : Attentive w

namespace Watch

theorem Sound.step {settings : Settings} {w : Watch} (h : w.Sound settings) (event : Event) :
    (w.step event).Sound settings where
  staffed := h.staffed.move (w.move_step event)
  persistent := h.persistent.move h.staffed (w.move_step event)
  attentive := h.attentive.move (w.move_step event)

theorem sound_init (settings : Settings) : Sound settings { loop := { settings } } where
  staffed :=
    { settings_eq := rfl
      coherent := WorkQueue.coherent_empty
      running_eq := rfl
      length_le := Nat.zero_le _
      nodup := List.nodup_nil
      inFlight_iff := by simp [KeyMap.contains] }
  persistent := ⟨fun _ ht => absurd ht List.not_mem_nil, fun hfailed => absurd hfailed id⟩
  attentive :=
    { keyed := Store.Reachable.empty.keyed
      subscribed := fun h => absurd h Bool.false_ne_true
      noticed := fun h => absurd h Bool.false_ne_true }

theorem sound_run (settings : Settings) (events : List Event) :
    (run settings events).Sound settings := by
  unfold run
  suffices h : ∀ w : Watch, w.Sound settings → (events.foldl Watch.step w).Sound settings by
    exact h _ (sound_init settings)
  induction events with
  | nil => exact fun w hw => hw
  | cons event events ih => exact fun w hw => ih _ (hw.step event)

/-- Once the sets were listed, every set that there is gets another pass if it was written since its
last one began, or if its last one failed.  No set has two passes at once, those with a pass under
way are those in flight, and there are no more of them than allowed. -/
theorem no_change_lost (settings : Settings) (events : List Event)
    (hlisted : (run settings events).listed = true) :
    let w := run settings events
    (∀ key, (w.store.getSet key).isSome = true →
      (Stale key w.history → w.Noticed key) ∧ (Failed key w.history → w.Retried key)) ∧
    (w.tasks.map Task.key).Nodup ∧
    (∀ key, w.loop.queue.inFlight.contains key = true ↔ key ∈ w.tasks.map Task.key) ∧
    w.tasks.length ≤ settings.maxConcurrent := by
  have hsound := sound_run settings events
  refine ⟨?_, hsound.staffed.nodup, fun _ => hsound.staffed.inFlight_iff, hsound.staffed.length_le⟩
  intro key hpresent
  exact ⟨hsound.attentive.noticed hlisted hpresent, hsound.persistent.retried⟩

/-- A pass over one set fails, and then another set is created. -/
def failedAndCreated : List Event :=
  [.write Stamp.sample (.createSet (RunnerSet.create "ci" "linux" { image := "image" })),
    .subscribe, .list, .start toString, .fail 0 ⟨.read, "disk"⟩, .join 0,
    .write Stamp.sample (.createSet (RunnerSet.create "ci" "mac" { image := "image" }))]

/-- Both sets are on the way to a pass: one waits for its time, the other is yet to be announced. -/
theorem failedAndCreated_not_lost :
    (run {} failedAndCreated).listed = true ∧
    (run {} failedAndCreated).Retried "ci/linux" ∧ (run {} failedAndCreated).Noticed "ci/mac" := by
  have hlisted : (run {} failedAndCreated).listed = true := by decide +kernel
  have hlinux : ((run {} failedAndCreated).store.getSet "ci/linux").isSome = true := by
    decide +kernel
  have hmac : ((run {} failedAndCreated).store.getSet "ci/mac").isSome = true := by decide +kernel
  have hfailed : Failed "ci/linux" (run {} failedAndCreated).history := rfl
  have hstale : Stale "ci/mac" (run {} failedAndCreated).history :=
    Or.inr (Or.inr ⟨by decide, Or.inr trivial⟩)
  have hsound := (no_change_lost {} failedAndCreated hlisted).1
  exact ⟨hlisted, (hsound "ci/linux" hlinux).2 hfailed, (hsound "ci/mac" hmac).1 hstale⟩

end Watch
end Controller
end RunnerFleet
