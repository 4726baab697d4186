import RunnerFleet.Controller.WorkQueue

/-!
# What the work queue keeps

The queue, the keys whose pass is under way and the marks among them fit together, whatever is done
to them.  A key that was noted as needing a pass stays pending until its next pass begins.

Main results:

- `Coherent.add`, `Coherent.next`, `Coherent.done`: the parts of the queue keep fitting together.
- `pending_add_self`: a key that is noted is pending.
- `Pending.add`, `Pending.next`, `Pending.done`: a pending key stays so until it is taken.
-/

namespace RunnerFleet
namespace Controller
namespace WorkQueue

/-- The parts of a work queue fit together. -/
structure Coherent (q : WorkQueue) : Prop where
  nodup : q.ready.Nodup
  queued_iff : ∀ {k : String}, q.queued.contains k = true ↔ k ∈ q.ready
  /-- No key in the queue has a pass under way. -/
  apart : ∀ {k : String}, k ∈ q.ready → q.inFlight.contains k = false
  /-- Only keys whose pass is under way are marked. -/
  marked : ∀ {k : String}, q.dirty.contains k = true → q.inFlight.contains k = true

/-- A key will get a pass that begins from now on: it is in the queue, or is marked while its pass
is under way. -/
def Pending (q : WorkQueue) (k : String) : Prop :=
  q.queued.contains k = true ∨ q.inFlight.contains k = true ∧ q.dirty.contains k = true

/-- A key is in the queue, or its pass is under way. -/
def Scheduled (q : WorkQueue) (k : String) : Prop :=
  q.queued.contains k = true ∨ q.inFlight.contains k = true

theorem Pending.scheduled {q : WorkQueue} {k : String} (h : q.Pending k) : q.Scheduled k :=
  h.imp_right And.left

theorem coherent_empty : Coherent {} where
  nodup := List.nodup_nil
  queued_iff := by simp [KeyMap.contains]
  apart := by simp
  marked := by simp [KeyMap.contains]

variable {q : WorkQueue} {key k : String}

/-! ## Noting a key -/

/-- Noting a key begins no pass and ends none. -/
@[simp]
theorem inFlight_add (q : WorkQueue) (key : String) : (q.add key).inFlight = q.inFlight := by
  unfold add
  split
  · rfl
  · split <;> rfl

theorem Coherent.add (h : q.Coherent) (key : String) : (q.add key).Coherent := by
  by_cases hflight : q.inFlight.contains key = true
  · rw [add_of_inFlight hflight]
    refine ⟨h.nodup, h.queued_iff, h.apart, ?_⟩
    intro k hk
    simp only [KeySet.contains_add, Bool.or_eq_true, decide_eq_true_eq] at hk
    rcases hk with rfl | hk
    · exact hflight
    · exact h.marked hk
  · by_cases hqueued : q.queued.contains key = true
    · have hsame : q.add key = q := by simp [WorkQueue.add, hflight, hqueued]
      rw [hsame]
      exact h
    · have hnot : key ∉ q.ready := fun hmem => hqueued (h.queued_iff.2 hmem)
      simp only [WorkQueue.add, hflight, hqueued, Bool.false_eq_true, if_false]
      refine ⟨?_, ?_, ?_, h.marked⟩
      · exact List.nodup_append.2 ⟨h.nodup, by simp, by rintro a ha b hb rfl; simp_all⟩
      · intro k
        simp only [KeySet.contains_add, Bool.or_eq_true, decide_eq_true_eq, h.queued_iff,
          List.mem_append, List.mem_singleton]
        exact Or.comm
      · intro k hk
        rcases List.mem_append.1 hk with hk | hk
        · exact h.apart hk
        · obtain rfl := List.mem_singleton.1 hk
          simpa using hflight

/-- A key that is noted is pending. -/
theorem pending_add_self (q : WorkQueue) (key : String) : (q.add key).Pending key := by
  by_cases hflight : q.inFlight.contains key = true
  · rw [add_of_inFlight hflight]
    exact Or.inr ⟨hflight, by simp⟩
  · left
    by_cases hqueued : q.queued.contains key = true
    · simp [WorkQueue.add, hflight, hqueued]
    · simp [WorkQueue.add, hflight, hqueued]

/-- A pending key stays pending when any key is noted. -/
theorem Pending.add (h : q.Pending k) (key : String) : (q.add key).Pending k := by
  by_cases hflight : q.inFlight.contains key = true
  · rw [add_of_inFlight hflight]
    refine h.imp_right fun ⟨hk, hdirty⟩ => ⟨hk, ?_⟩
    simp [hdirty]
  · by_cases hqueued : q.queued.contains key = true
    · simpa [WorkQueue.add, hflight, hqueued] using h
    · simp only [WorkQueue.add, hflight, hqueued, Bool.false_eq_true, if_false]
      refine h.imp_left fun hk => ?_
      simp [hk]

theorem Scheduled.add (h : q.Scheduled k) (key : String) : (q.add key).Scheduled k := by
  rcases h with hk | hk
  · have hpending : q.Pending k := Or.inl hk
    exact (hpending.add key).scheduled
  · right
    rw [inFlight_add]
    exact hk

@[simp]
theorem addAll_cons (q : WorkQueue) (key : String) (keys : List String) :
    q.addAll (key :: keys) = (q.add key).addAll keys :=
  rfl

@[simp]
theorem inFlight_addAll (q : WorkQueue) (keys : List String) :
    (q.addAll keys).inFlight = q.inFlight := by
  induction keys generalizing q with
  | nil => rfl
  | cons key keys ih => rw [addAll_cons, ih, inFlight_add]

theorem Coherent.addAll (h : q.Coherent) (keys : List String) : (q.addAll keys).Coherent := by
  induction keys generalizing q with
  | nil => exact h
  | cons key keys ih => exact ih (h.add key)

theorem Pending.addAll (h : q.Pending k) (keys : List String) : (q.addAll keys).Pending k := by
  induction keys generalizing q with
  | nil => exact h
  | cons key keys ih => exact ih (h.add key)

theorem Scheduled.addAll (h : q.Scheduled k) (keys : List String) : (q.addAll keys).Scheduled k := by
  induction keys generalizing q with
  | nil => exact h
  | cons key keys ih => exact ih (h.add key)

/-- Of keys that are noted, each one is pending. -/
theorem pending_addAll (q : WorkQueue) {keys : List String} (h : k ∈ keys) :
    (q.addAll keys).Pending k := by
  induction keys generalizing q with
  | nil => exact absurd h List.not_mem_nil
  | cons key keys ih =>
      rcases List.mem_cons.1 h with rfl | h
      · exact (pending_add_self q k).addAll keys
      · exact ih (q.add key) h

/-! ## Taking a key -/

/-- The queue after its first key was taken. -/
theorem next_eq_some_iff {q' : WorkQueue} :
    q.next = some (key, q') ↔ ∃ ready, q.ready = key :: ready ∧
      q' = { q with ready, queued := q.queued.remove key, inFlight := q.inFlight.add key } := by
  unfold next
  split
  · rename_i hready
    simp [hready]
  · rename_i first ready hready
    constructor
    · intro h
      simp only [Option.some.injEq, Prod.mk.injEq] at h
      obtain ⟨rfl, rfl⟩ := h
      exact ⟨ready, hready, rfl⟩
    · rintro ⟨rest, hrest, rfl⟩
      rw [hready, List.cons.injEq] at hrest
      obtain ⟨rfl, rfl⟩ := hrest
      rfl

/-- The pass of a key that is taken was not under way. -/
theorem Coherent.inFlight_of_next {q' : WorkQueue} (h : q.Coherent)
    (hnext : q.next = some (key, q')) : q.inFlight.contains key = false := by
  obtain ⟨ready, hready, -⟩ := next_eq_some_iff.1 hnext
  exact h.apart (hready ▸ List.mem_cons_self)

theorem contains_inFlight_next {q' : WorkQueue} (hnext : q.next = some (key, q')) (k : String) :
    q'.inFlight.contains k = true ↔ k = key ∨ q.inFlight.contains k = true := by
  obtain ⟨ready, -, rfl⟩ := next_eq_some_iff.1 hnext
  simp

theorem Coherent.next {q' : WorkQueue} (h : q.Coherent) (hnext : q.next = some (key, q')) :
    q'.Coherent := by
  obtain ⟨ready, hready, rfl⟩ := next_eq_some_iff.1 hnext
  have hnodup := h.nodup
  rw [hready, List.nodup_cons] at hnodup
  refine ⟨hnodup.2, ?_, ?_, ?_⟩
  · intro k
    simp only [KeySet.contains_remove, Bool.and_eq_true, Bool.not_eq_true', decide_eq_false_iff_not,
      h.queued_iff, hready, List.mem_cons]
    constructor
    · rintro ⟨hne, rfl | hk⟩
      · exact absurd rfl hne
      · exact hk
    · intro hk
      exact ⟨fun heq => hnodup.1 (heq ▸ hk), Or.inr hk⟩
  · intro k hk
    have hne : k ≠ key := fun heq => hnodup.1 (heq ▸ hk)
    have hbefore := h.apart (k := k) (hready ▸ List.mem_cons_of_mem _ hk)
    simp [hne, hbefore]
  · intro k hk
    simp [h.marked hk]

/-- Only the key that is taken may cease to be pending. -/
theorem Pending.next {q' : WorkQueue} (h : q.Pending k) (hnext : q.next = some (key, q'))
    (hne : k ≠ key) : q'.Pending k := by
  obtain ⟨ready, -, rfl⟩ := next_eq_some_iff.1 hnext
  refine h.imp ?_ ?_
  · intro hk
    simp [hne, hk]
  · rintro ⟨hk, hdirty⟩
    exact ⟨by simp [hk], hdirty⟩

/-- A key that is taken leaves the queue when its pass begins. -/
theorem Scheduled.next {q' : WorkQueue} (h : q.Scheduled k) (hnext : q.next = some (key, q')) :
    q'.Scheduled k := by
  by_cases hk : k = key
  · exact Or.inr ((contains_inFlight_next hnext k).2 (Or.inl hk))
  · rcases h with hqueued | hflight
    · have hpending : q.Pending k := Or.inl hqueued
      exact (hpending.next hnext hk).scheduled
    · exact Or.inr ((contains_inFlight_next hnext k).2 (Or.inr hflight))

/-! ## The end of a pass -/

/-- The queue after the pass of a key is over, but for the count of failures. -/
theorem done_queue (q : WorkQueue) (key : String) (ok : Bool) :
    ∃ failures, (q.done key ok).2 =
      if q.dirty.contains key then
        add { q with
          inFlight := q.inFlight.remove key, dirty := q.dirty.remove key, failures } key
      else { q with inFlight := q.inFlight.remove key, failures } := by
  refine ⟨if ok then q.failures.erase key else q.failures.insert key (q.countFailure key), ?_⟩
  cases ok <;> rfl

@[simp]
theorem contains_inFlight_done (q : WorkQueue) (key : String) (ok : Bool) (k : String) :
    (q.done key ok).2.inFlight.contains k = true ↔ k ≠ key ∧ q.inFlight.contains k = true := by
  obtain ⟨failures, hqueue⟩ := done_queue q key ok
  rw [hqueue]
  split <;> simp

theorem Coherent.done (h : q.Coherent) (key : String) (ok : Bool) :
    (q.done key ok).2.Coherent := by
  obtain ⟨failures, hqueue⟩ := done_queue q key ok
  have hapart : ∀ {k}, k ∈ q.ready → (q.inFlight.remove key).contains k = false := by
    intro k hk
    simp [h.apart hk]
  rw [hqueue]
  split
  · have hover : Coherent { q with
        inFlight := q.inFlight.remove key, dirty := q.dirty.remove key, failures } := by
      refine ⟨h.nodup, h.queued_iff, hapart, ?_⟩
      intro k hk
      simp only [KeySet.contains_remove, Bool.and_eq_true] at hk ⊢
      exact ⟨hk.1, h.marked hk.2⟩
    exact hover.add key
  · rename_i hclean
    refine ⟨h.nodup, h.queued_iff, hapart, ?_⟩
    intro k hk
    have hne : k ≠ key := fun heq => hclean (heq ▸ hk)
    simp [hne, h.marked hk]

/-- A pending key stays pending when a pass is over: a mark becomes a place in the queue. -/
theorem Pending.done (h : q.Pending k) (key : String) (ok : Bool) :
    (q.done key ok).2.Pending k := by
  obtain ⟨failures, hqueue⟩ := done_queue q key ok
  rw [hqueue]
  by_cases hdirty : q.dirty.contains key = true
  · rw [if_pos hdirty]
    by_cases hk : k = key
    · subst hk
      exact pending_add_self _ k
    · have hover : Pending { q with
          inFlight := q.inFlight.remove key, dirty := q.dirty.remove key, failures } k := by
        refine h.imp_right ?_
        rintro ⟨hflight, hmark⟩
        simp [hk, hflight, hmark]
      exact hover.add key
  · rw [if_neg hdirty]
    refine h.imp_right ?_
    rintro ⟨hflight, hmark⟩
    have hne : k ≠ key := fun heq => hdirty (heq ▸ hmark)
    exact ⟨by simp [hne, hflight], hmark⟩

/-- Only the key whose pass is over may leave both the queue and the passes under way. -/
theorem Scheduled.done (h : q.Scheduled k) (key : String) (ok : Bool) (hne : k ≠ key) :
    (q.done key ok).2.Scheduled k := by
  rcases h with hqueued | hflight
  · have hpending : q.Pending k := Or.inl hqueued
    exact (hpending.done key ok).scheduled
  · exact Or.inr ((contains_inFlight_done q key ok k).2 ⟨hne, hflight⟩)

end WorkQueue
end Controller
end RunnerFleet
