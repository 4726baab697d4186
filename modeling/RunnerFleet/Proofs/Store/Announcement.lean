import RunnerFleet.Proofs.Store.Keyed

/-!
# Every write is announced

An operation that changes a runner set, or a runner of it, announces an event that leads to this
set.  Whoever hears all events therefore hears of every set that has changed.

Main results:

- `announces_insertNew`, `announces_modify`, `announces_remove`: each kind of change of a table is
  announced.
- `exists_event_of_touches`: an operation announces every set that it touches.
-/

namespace RunnerFleet
namespace Store

/-! ## Changes of a table -/

section Table

variable {α β : Type} [Stored α]

/-- The runner set that an object concerns: itself, or the owner of a runner. -/
def concerned? (object : α) : Option String :=
  (announce object .modified).runnerSetKey

@[simp]
theorem runnerSetKey_announce (object : α) (action : WatchAction) :
    (announce object action).runnerSetKey = concerned? object :=
  rfl

/-- If a change befalls an object, it is announced with the runner set that the object concerns. -/
def Announces (table : KeyMap α) (result : Except Error (Change α β)) : Prop :=
  ∀ k object, (tableAfter table result).get? k ≠ table.get? k →
    (table.get? k = some object ∨ (tableAfter table result).get? k = some object) →
    ∃ change e, result = .ok change ∧ change.event = some e ∧ e.runnerSetKey = concerned? object

theorem announces_insertNew (table : KeyMap α) (key : String) (object : α) (stamp : Stamp) :
    Announces table (insertNew table key object stamp) := by
  intro k found hchanged hfound
  rw [get?_insertNew] at hchanged hfound
  by_cases hk : k = key
  · subst hk
    rw [if_pos rfl] at hchanged hfound
    cases hget : table.get? k with
    | some old => simp [hget] at hchanged
    | none =>
        obtain rfl : created stamp object = found := by simpa [hget] using hfound
        refine ⟨_, _, by rw [insertNew, hget], rfl, ?_⟩
        rw [runnerSetKey_announce, created]
  · simp [hk] at hchanged

theorem announces_modify (table : KeyMap α) (key : String) {change : α → α}
    (hkeeps : ∀ o : α, concerned? (mapMetadata (change o) fun m =>
      { m with resourceVersion := m.resourceVersion + 1 }) = concerned? o) :
    Announces table (modify table key change) := by
  intro k found hchanged hfound
  rw [get?_modify] at hchanged hfound
  by_cases hk : k = key
  · subst hk
    rw [if_pos rfl] at hchanged hfound
    cases hget : table.get? k with
    | none => simp [hget] at hchanged
    | some old =>
        have hsame : concerned? found = concerned? old := by
          rw [hget, Option.bind_some] at hfound
          rcases hfound with hfound | hfound
          · rw [Option.some.inj hfound]
          · rw [eq_of_changed? hfound, hkeeps]
        rw [modify, hget]
        dsimp only
        split
        · exact ⟨_, _, rfl, rfl, by rw [runnerSetKey_announce, hkeeps, hsame]⟩
        · exact ⟨_, _, rfl, rfl, by rw [runnerSetKey_announce, hkeeps, hsame]⟩
  · simp [hk] at hchanged

theorem announces_remove (table : KeyMap α) (key : String) (now : Timestamp)
    (hkeeps : ∀ o : α, concerned? (condemned now o) = concerned? o) :
    Announces table (remove table key now) := by
  intro k found hchanged hfound
  rw [get?_remove] at hchanged hfound
  by_cases hk : k = key
  · subst hk
    rw [if_pos rfl] at hchanged hfound
    cases hget : table.get? k with
    | none => simp [hget] at hchanged
    | some old =>
        rw [hget, Option.bind_some] at hchanged hfound
        have hsame : concerned? found = concerned? old := by
          rcases hfound with hfound | hfound
          · rw [Option.some.inj hfound]
          · rcases eq_of_removed? hfound with rfl | rfl
            · rfl
            · exact hkeeps old
        rw [remove, hget]
        dsimp only
        split
        · exact ⟨_, _, rfl, rfl, by rw [runnerSetKey_announce, hsame]⟩
        · split
          · rename_i hheld hdeleting
            simp [removed?, hheld, hdeleting] at hchanged
          · exact ⟨_, _, rfl, rfl, by rw [runnerSetKey_announce, hsame]; exact hkeeps old⟩
  · simp [hk] at hchanged

end Table

/-! ## Operations on the store -/

/-- The runner set under a key, or a runner of it, is not as it was. -/
def Touches (key : String) (before after : Store) : Prop :=
  after.getSet key ≠ before.getSet key ∨
    ∃ k r, after.runners.get? k ≠ before.runners.get? k ∧
      (before.runners.get? k = some r ∨ after.runners.get? k = some r) ∧ r.ownerKey = some key

theorem not_touches_self (key : String) (s : Store) : ¬ Touches key s s := by
  rintro (h | ⟨k, r, h, -⟩) <;> exact h rfl

section Settle

variable {β : Type} {s : Store} {key : String}

@[simp]
theorem present_events (key : String) (o : Outcome (Option β)) :
    (o.present key).events = o.events :=
  rfl

/-- An announced change of the runner sets leads to the set that it touches. -/
theorem exists_event_of_settleSets {result : Except Error (Change RunnerSet β)}
    (hresult : Announces s.sets result) (hs : s.Keyed) (hafter : (s.settleSets result).store.Keyed)
    (h : Touches key s (s.settleSets result).store) :
    ∃ e ∈ (s.settleSets result).events, e.runnerSetKey = some key := by
  have hsets : (s.settleSets result).store.getSet key = (tableAfter s.sets result).get? key := by
    rw [settleSets_store]
    rfl
  rcases h with hset | ⟨k, r, hrunner, -⟩
  · -- one of the two differing look-ups finds a set, and it has this key
    have hexists : ∃ set : RunnerSet, (s.getSet key = some set ∨
        (s.settleSets result).store.getSet key = some set) ∧ set.key = key := by
      cases hbefore : s.getSet key with
      | some set => exact ⟨set, Or.inl rfl, hs.set hbefore⟩
      | none =>
          obtain ⟨set, hset⟩ := Option.ne_none_iff_exists'.1 (hbefore ▸ hset)
          exact ⟨set, Or.inr hset, hafter.set hset⟩
    obtain ⟨set, hfound, hkey⟩ := hexists
    rw [hsets] at hset hfound
    obtain ⟨change, e, rfl, he, hconcerned⟩ := hresult key set hset hfound
    refine ⟨e, ?_, ?_⟩
    · simp [settleSets, he]
    · rw [hconcerned, ← hkey]
      rfl
  · rw [settleSets_store] at hrunner
    exact absurd rfl hrunner

/-- An announced change of the runners leads to the set whose runner it touches. -/
theorem exists_event_of_settleRunners {result : Except Error (Change Runner β)}
    (hresult : Announces s.runners result) (h : Touches key s (s.settleRunners result).store) :
    ∃ e ∈ (s.settleRunners result).events, e.runnerSetKey = some key := by
  rw [settleRunners_store] at h
  rcases h with hset | ⟨k, r, hrunner, hfound, howner⟩
  · exact absurd rfl hset
  · obtain ⟨change, e, rfl, he, hconcerned⟩ := hresult k r hrunner hfound
    refine ⟨e, ?_, ?_⟩
    · simp [settleRunners, he]
    · rw [hconcerned, ← howner]
      rfl

end Settle

/-- An operation announces every runner set that it touches. -/
theorem exists_event_of_touches {s : Store} (hs : s.Keyed) (stamp : Stamp) (op : Operation)
    {key : String} (h : Touches key s (s.perform stamp op).store) :
    ∃ e ∈ (s.perform stamp op).events, e.runnerSetKey = some key := by
  have hafter := hs.perform stamp op
  cases op with
  | createSet set =>
      rw [perform] at h hafter ⊢
      exact exists_event_of_settleSets (announces_insertNew _ _ _ _) hs hafter h
  | patchSpec k replicas patchId =>
      rw [perform, present_store] at h hafter
      rw [perform, present_events]
      exact exists_event_of_settleSets (announces_modify _ _ fun _ => rfl) hs hafter h
  | updateSetStatus k status =>
      rw [perform, present_store] at h hafter
      rw [perform, present_events]
      exact exists_event_of_settleSets (announces_modify _ _ fun _ => rfl) hs hafter h
  | setSetFinalizers k finalizers =>
      rw [perform] at h hafter ⊢
      exact exists_event_of_settleSets (announces_modify _ _ fun _ => rfl) hs hafter h
  | deleteSet k =>
      rw [perform] at h hafter ⊢
      exact exists_event_of_settleSets (announces_remove _ _ _ fun _ => rfl) hs hafter h
  | createRunner r =>
      rw [perform] at h ⊢
      cases howner : r.ownerKey with
      | none =>
          rw [createRunner, howner] at h
          exact absurd h (not_touches_self key s)
      | some owner =>
          rw [createRunner, howner] at h ⊢
          exact exists_event_of_settleRunners (announces_insertNew _ _ _ _) h
  | updateRunnerStatus owner name status =>
      rw [perform, present_store] at h
      rw [perform, present_events]
      exact exists_event_of_settleRunners (announces_modify _ _ fun _ => rfl) h
  | setRunnerFinalizers owner name finalizers =>
      rw [perform] at h ⊢
      exact exists_event_of_settleRunners (announces_modify _ _ fun _ => rfl) h
  | deleteRunner owner name =>
      rw [perform] at h ⊢
      exact exists_event_of_settleRunners (announces_remove _ _ _ fun _ => rfl) h
  | getSet _ | listSets | getRunner _ _ | listRunners _ =>
      exact absurd h (not_touches_self key s)

end Store
end RunnerFleet
