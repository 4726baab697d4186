import RunnerFleet.Proofs.Store.Effect

/-!
# Stored objects bear their keys

Starting from an empty store, whatever operations are carried out, every object lies under the key
made of its own names.  A runner is therefore found by its owner and its name, and the runners of
one owner have different names.

Main results:

- `onRunner_cases`: a runner that is there after an operation was there before, or is new.
- `Reachable.keyed`: in a store that operations lead to, everything lies under its own key.
- `Keyed.mem_runnersOf`: the runners of a set are those found under its key and their names.
- `Keyed.runnersOf_pairwise`: they are listed in the order of their keys.
- `Keyed.names_nodup`: no two runners of a set have the same name.
-/

namespace RunnerFleet

/-- A stamp for examples. -/
def Stamp.sample : Stamp where
  uid := "uid"
  now := ⟨⟨2026, 1, 1⟩, 0, 0, 0, 0, by decide, by decide, by decide⟩

namespace Store

/-- The stores that operations lead to from the empty one. -/
inductive Reachable : Store → Prop where
  | empty : Reachable {}
  | perform {s : Store} (reached : Reachable s) (stamp : Stamp) (op : Operation) :
      Reachable (s.perform stamp op).store

/-- The store that these operations lead to from the empty one. -/
def ofOperations (ops : List Operation) : Store :=
  ops.foldl (fun s op => (s.perform Stamp.sample op).store) {}

theorem reachable_ofOperations (ops : List Operation) : (ofOperations ops).Reachable := by
  unfold ofOperations
  suffices h : ∀ s : Store, s.Reachable →
      (ops.foldl (fun s op => (s.perform Stamp.sample op).store) s).Reachable by
    exact h {} .empty
  induction ops with
  | nil => exact fun s hs => hs
  | cons op ops ih => exact fun s hs => ih _ (hs.perform Stamp.sample op)

/-- Every object lies under the key made of its own names. -/
structure Keyed (s : Store) : Prop where
  set : ∀ {key : String} {set : RunnerSet}, s.getSet key = some set → set.key = key
  runner : ∀ {key : String} {r : Runner}, s.runners.get? key = some r →
    ∃ owner, r.ownerKey = some owner ∧ key = runnerKey owner r.name

/-! ## What a change keeps of an object -/

section Object

variable {α : Type} [Stored α]

/-- What is left after a change is the changed object, one version later. -/
theorem eq_of_changed? {change : α → α} {old new : α} (h : changed? change old = some new) :
    new = mapMetadata (change old) fun m =>
      { m with resourceVersion := m.resourceVersion + 1 } := by
  simp only [changed?] at h
  split at h
  · contradiction
  · injection h with h
    exact h.symm

/-- What is left after a request for removal is the object, perhaps with the request noted. -/
theorem eq_of_removed? {now : Timestamp} {old new : α} (h : removed? now old = some new) :
    new = old ∨ new = condemned now old := by
  simp only [removed?] at h
  split at h
  · contradiction
  · split at h <;> injection h with h
    · exact Or.inl h.symm
    · exact Or.inr h.symm

end Object

/-- A change that keeps the names of a runner set keeps its key. -/
theorem key_of_changed? {change : RunnerSet → RunnerSet} {old new : RunnerSet}
    (hkey : (change old).key = old.key) (h : changed? change old = some new) :
    new.key = old.key := by
  rw [eq_of_changed? h, ← hkey]
  rfl

/-- A request for removal keeps the key of a runner set. -/
theorem key_of_removed? {now : Timestamp} {old new : RunnerSet} (h : removed? now old = some new) :
    new.key = old.key := by
  rcases eq_of_removed? h with rfl | rfl <;> rfl

/-- A runner is the same as another one but for what may change in its life. -/
structure Akin (new old : Runner) : Prop where
  owner : new.ownerKey = old.ownerKey
  name : new.name = old.name
  patchId : new.patchId = old.patchId

theorem Akin.refl (r : Runner) : Akin r r :=
  ⟨rfl, rfl, rfl⟩

/-- A change that makes a runner akin to itself still does so in the table. -/
theorem akin_of_changed? {change : Runner → Runner} {old new : Runner}
    (hchange : Akin (change old) old) (h : changed? change old = some new) : Akin new old := by
  rw [eq_of_changed? h]
  exact ⟨hchange.owner, hchange.name, hchange.patchId⟩

/-- A request for removal leaves a runner akin to itself. -/
theorem akin_of_removed? {now : Timestamp} {old new : Runner} (h : removed? now old = some new) :
    Akin new old := by
  rcases eq_of_removed? h with rfl | rfl <;> exact ⟨rfl, rfl, rfl⟩

/-! ## Operations keep objects under their keys -/

/-- Whatever an operation leaves under a key has this key. -/
theorem key_of_onSet {op : Operation} {stamp : Stamp} {key : String} {before : Option RunnerSet}
    {set : RunnerSet} (hbefore : ∀ old, before = some old → old.key = key)
    (h : op.onSet stamp key before = some set) : set.key = key := by
  cases op with
  | createSet new =>
      simp only [Operation.onSet] at h
      split at h
      · rename_i hkey
        injection h with h
        cases hb : before with
        | none =>
            rw [← h, hb, hkey]
            rfl
        | some old =>
            rw [← h, hb]
            exact hbefore old hb
      · exact hbefore set h
  | deleteSet k =>
      simp only [Operation.onSet] at h
      split at h
      · obtain ⟨old, hold, hnew⟩ := Option.bind_eq_some_iff.1 h
        rw [key_of_removed? hnew]
        exact hbefore old hold
      · exact hbefore set h
  | patchSpec _ _ _ | updateSetStatus _ _ | setSetFinalizers _ _ =>
      simp only [Operation.onSet] at h
      split at h
      · obtain ⟨old, hold, hnew⟩ := Option.bind_eq_some_iff.1 h
        rw [key_of_changed? rfl hnew]
        exact hbefore old hold
      · exact hbefore set h
  | _ => exact hbefore set h

/-- A runner that an operation leaves under a key was there before, or is new. -/
theorem onRunner_cases {op : Operation} {stamp : Stamp} {k : String} {before : Option Runner}
    {r : Runner} (h : op.onRunner stamp k before = some r) :
    (∃ old, before = some old ∧ Akin r old) ∨
      (before = none ∧ ∃ new, op = .createRunner new ∧ r = created stamp new ∧
        new.ownerKey.map (runnerKey · new.name) = some k) := by
  cases op with
  | createRunner new =>
      simp only [Operation.onRunner] at h
      split at h
      · rename_i hkey
        injection h with h
        cases hb : before with
        | none =>
            rw [hb] at h
            exact Or.inr ⟨rfl, new, rfl, h.symm, hkey⟩
        | some old =>
            rw [hb] at h
            exact Or.inl ⟨old, rfl, h ▸ Akin.refl old⟩
      · exact Or.inl ⟨r, h, Akin.refl r⟩
  | deleteRunner _ _ =>
      simp only [Operation.onRunner] at h
      split at h
      · obtain ⟨old, hold, hnew⟩ := Option.bind_eq_some_iff.1 h
        exact Or.inl ⟨old, hold, akin_of_removed? hnew⟩
      · exact Or.inl ⟨r, h, Akin.refl r⟩
  | updateRunnerStatus _ _ _ | setRunnerFinalizers _ _ _ =>
      simp only [Operation.onRunner] at h
      split at h
      · obtain ⟨old, hold, hnew⟩ := Option.bind_eq_some_iff.1 h
        exact Or.inl ⟨old, hold, akin_of_changed? ⟨rfl, rfl, rfl⟩ hnew⟩
      · exact Or.inl ⟨r, h, Akin.refl r⟩
  | _ => exact Or.inl ⟨r, h, Akin.refl r⟩

/-- An operation keeps every object under its own key. -/
theorem Keyed.perform {s : Store} (h : s.Keyed) (stamp : Stamp) (op : Operation) :
    (s.perform stamp op).store.Keyed where
  set := by
    intro key set hset
    rw [getSet_perform] at hset
    exact key_of_onSet (fun old hold => h.set hold) hset
  runner := by
    intro key r hr
    rw [getRunner_perform] at hr
    rcases onRunner_cases hr with ⟨old, hold, hakin⟩ | ⟨-, new, rfl, rfl, hkey⟩
    · rw [hakin.owner, hakin.name]
      exact h.runner hold
    · obtain ⟨owner, howner, rfl⟩ := Option.map_eq_some_iff.1 hkey
      exact ⟨owner, howner, rfl⟩

/-- In a store that operations lead to, every object lies under its own key. -/
theorem Reachable.keyed {s : Store} (h : s.Reachable) : s.Keyed := by
  induction h with
  | empty =>
      refine ⟨?_, ?_⟩
      · intro key set hset
        simp [getSet] at hset
      · intro key r hr
        simp at hr
  | perform _ stamp op ih => exact ih.perform stamp op

/-! ## The runners of a set -/

/-- The key of a runner begins like those of its owner. -/
@[simp]
theorem keyBelongsTo_runnerKey (owner name : String) :
    keyBelongsTo owner (runnerKey owner name) = true := by
  simp [keyBelongsTo, runnerKey]

/-- Runners of one owner that share a key share a name. -/
theorem runnerKey_inj {owner a b : String} (h : runnerKey owner a = runnerKey owner b) : a = b := by
  simpa [runnerKey] using h

/-- In a keyed store, a runner lies under the key made of its owner and its name. -/
theorem Keyed.key_eq {s : Store} (h : s.Keyed) {k key : String} {r : Runner}
    (hr : s.runners.get? k = some r) (howner : r.ownerKey = some key) :
    k = runnerKey key r.name := by
  obtain ⟨owner, hown, rfl⟩ := h.runner hr
  rw [Option.some.inj (hown.symm.trans howner)]

/-- In a keyed store, only the owner decides which runners are listed. -/
theorem Keyed.runnersOf_eq {s : Store} (h : s.Keyed) (key : String) :
    s.runnersOf key = s.runners.values.filter fun r => r.ownerKey = some key := by
  have hbelongs : ∀ entry ∈ s.runners.entries, entry.2.ownerKey = some key →
      keyBelongsTo key entry.1 = true := by
    rintro ⟨k, r⟩ hmem howner
    rw [h.key_eq (KeyMap.mem_entries_iff_get?.1 hmem) howner]
    exact keyBelongsTo_runnerKey key r.name
  unfold runnersOf KeyMap.values
  rw [List.filter_map, List.filter_map, List.filter_filter]
  congr 1
  refine List.filter_congr fun entry hmem => ?_
  by_cases howner : entry.2.ownerKey = some key
  · simp [howner, hbelongs entry hmem howner]
  · simp [howner]

/-- The runners of a set are those that lie under its key and their names. -/
theorem Keyed.mem_runnersOf {s : Store} (h : s.Keyed) {key : String} {r : Runner} :
    r ∈ s.runnersOf key ↔
      r.ownerKey = some key ∧ s.runners.get? (runnerKey key r.name) = some r := by
  rw [h.runnersOf_eq, List.mem_filter]
  constructor
  · rintro ⟨hmem, howner⟩
    obtain ⟨⟨k, r'⟩, hentry, rfl⟩ := List.mem_map.1 hmem
    have hget := KeyMap.mem_entries_iff_get?.1 hentry
    have howner := of_decide_eq_true howner
    exact ⟨howner, h.key_eq hget howner ▸ hget⟩
  · rintro ⟨howner, hget⟩
    refine ⟨?_, by simpa using howner⟩
    exact List.mem_map.2 ⟨_, KeyMap.mem_entries_iff_get?.2 hget, rfl⟩

/-- The runners of a set are listed in the order of their keys. -/
theorem Keyed.runnersOf_pairwise {s : Store} (h : s.Keyed) (key : String) :
    (s.runnersOf key).Pairwise fun a b => runnerKey key a.name < runnerKey key b.name := by
  rw [h.runnersOf_eq, KeyMap.values, List.filter_map, List.pairwise_map]
  refine List.Pairwise.imp_of_mem ?_ (s.runners.sorted.filter _)
  have hown : ∀ entry ∈ s.runners.entries.filter
      ((fun r => decide (r.ownerKey = some key)) ∘ Prod.snd),
      entry.1 = runnerKey key entry.2.name := by
    intro entry hentry
    obtain ⟨hmem, howner⟩ := List.mem_filter.1 hentry
    exact h.key_eq (KeyMap.mem_entries_iff_get?.1 hmem) (of_decide_eq_true howner)
  intro a b ha hb hlt
  rw [← hown a ha, ← hown b hb]
  exact hlt

/-- No two runners of a set have the same name. -/
theorem Keyed.names_nodup {s : Store} (h : s.Keyed) (key : String) :
    ((s.runnersOf key).map Runner.name).Nodup := by
  refine List.pairwise_map.2 ((h.runnersOf_pairwise key).imp fun hlt hname => ?_)
  exact String.lt_irrefl _ (hname ▸ hlt)

end Store
end RunnerFleet
