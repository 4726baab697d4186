import RunnerFleet.Proofs.Store.Places

/-!
# What stays of an object while it is stored

Objects lie where their names say, are held by a finalizer while they are being removed, and count
their writes.  From its creation until it leaves the store an object is the same one: only a write
to its place changes it, and every write raises its version by one.

Main results:

- `look_step`: what one operation does to an object that stays.
- `look_execute`: what many operations do to an object that stays throughout.
- `stored_objects_persist`: all of this for the stores that operations lead to.
-/

namespace RunnerFleet
namespace Store

/-- The operation is carried out at this place, and does not merely repeat a request. -/
def Operation.writes (s : Store) (stamp : Stamp) (op : Operation) (place : Place) : Bool :=
  op.place = some place && (s.perform stamp op).result.isOk && !op.repeats s

/-- The store after these operations. -/
def execute (s : Store) (script : List (Stamp × Operation)) : Store :=
  script.foldl (fun s step => (s.perform step.1 step.2).store) s

/-- How many of these operations write to a place. -/
def countWrites (place : Place) : Store → List (Stamp × Operation) → Nat
  | _, [] => 0
  | s, (stamp, op) :: rest =>
      (if op.writes s stamp place then 1 else 0) +
        countWrites place (s.perform stamp op).store rest

/-- The operation changes an object, but not its metadata. -/
def Operation.isUpdate : Operation → Bool
  | patchSpec _ _ _ => true
  | updateSetStatus _ _ => true
  | updateRunnerStatus _ _ _ => true
  | _ => false

theorem Reachable.execute {s : Store} (h : s.Reachable) (script : List (Stamp × Operation)) :
    (s.execute script).Reachable := by
  induction script generalizing s with
  | nil => exact h
  | cons step rest ih => exact ih (h.perform step.1 step.2)

/-! ## Objects that stay -/

section Step

variable {s : Store} {stamp : Stamp} {op : Operation} {place : Place}

theorem writes_eq_true_iff :
    op.writes s stamp place = true ↔
      (∃ request, op.request = some (request, place)) ∧
        (∃ answer, (s.perform stamp op).result = .ok answer) ∧ op.repeats s = false := by
  rw [Operation.writes, Operation.place]
  rcases op.request with _ | ⟨request, own⟩ <;> cases (s.perform stamp op).result <;>
    simp [Except.isOk, Except.toBool]

/-- An operation that does not write to a place leaves it as it was. -/
theorem look_of_not_writes (hs : s.Sound) (h : op.writes s stamp place = false) :
    (s.perform stamp op).store.look place = s.look place := by
  rcases look_perform_cases hs stamp op place with hsame | ⟨request, hrequest, hok, hplace⟩
  · exact hsame
  · have hrepeats : op.repeats s = true := by
      rw [← Bool.not_eq_false]
      intro hfirst
      rw [writes_eq_true_iff.2 ⟨⟨request, hrequest⟩, hok, hfirst⟩] at h
      cases h
    obtain ⟨rfl, old, hold, hwaiting⟩ := (repeats_iff hrequest).1 hrepeats
    rw [hold] at hplace ⊢
    exact (hplace.of_waiting hwaiting).1

/-- An operation leaves a place as it was that it does not ask for. -/
theorem look_of_place_ne (hs : s.Sound) (stamp : Stamp) (h : op.place ≠ some place) :
    (s.perform stamp op).store.look place = s.look place := by
  refine look_of_not_writes hs ?_
  rw [Operation.writes, decide_eq_false h, Bool.false_and, Bool.false_and]

/-- A write to the place of an object that stays leaves it the same one, one version further. -/
theorem look_of_writes (hs : s.Sound) (h : op.writes s stamp place = true) {old new : Object}
    (hold : s.look place = some old) (hnew : (s.perform stamp op).store.look place = some new) :
    new.metadata.SameLife old.metadata ∧
      new.metadata.resourceVersion = old.metadata.resourceVersion + 1 := by
  obtain ⟨⟨request, hrequest⟩, ⟨answer, hresult⟩, hfirst⟩ := writes_eq_true_iff.1 h
  have hplace := ((perform_acts hs stamp hrequest).of_ok hresult).2.2
  rw [hold, hnew] at hplace
  generalize (s.perform stamp op).events = events at hplace
  cases hplace with
  | modified _ _ hlife _ hversion => exact ⟨hlife, hversion⟩
  | waiting hwaiting =>
      rw [(repeats_iff hrequest).2 ⟨rfl, old, hold, hwaiting⟩] at hfirst
      cases hfirst

end Step

/-- An object that stays is the same one after an operation: one version further if it was written,
and otherwise as it was. -/
theorem look_step {s : Store} (hs : s.Sound) (stamp : Stamp) (op : Operation) {place : Place}
    {old new : Object} (hold : s.look place = some old)
    (hnew : (s.perform stamp op).store.look place = some new) :
    new.metadata.SameLife old.metadata ∧
      new.metadata.resourceVersion =
        old.metadata.resourceVersion + (if op.writes s stamp place then 1 else 0) ∧
      (op.writes s stamp place = false → new = old) := by
  cases hwrites : op.writes s stamp place with
  | false =>
      rw [look_of_not_writes hs hwrites, hold] at hnew
      obtain rfl := Option.some.inj hnew
      exact ⟨.refl _, rfl, fun _ => rfl⟩
  | true =>
      obtain ⟨hlife, hversion⟩ := look_of_writes hs hwrites hold hnew
      exact ⟨hlife, hversion, fun h => by cases h⟩

/-- An object that stays throughout is the same one, as many versions further as it was written. -/
theorem look_execute {s : Store} (hs : s.Sound) (script : List (Stamp × Operation))
    {place : Place} {old : Object} (hold : s.look place = some old)
    (hstays : ∀ n ≤ script.length, ((s.execute (script.take n)).look place).isSome = true) :
    ∃ new, (s.execute script).look place = some new ∧ new.metadata.SameLife old.metadata ∧
      new.metadata.resourceVersion =
        old.metadata.resourceVersion + countWrites place s script ∧
      (countWrites place s script = 0 → new = old) := by
  -- the object is there after the first operation, so that one step leads to the rest of the script
  induction script generalizing s old with
  | nil => exact ⟨old, hold, .refl _, rfl, fun _ => rfl⟩
  | cons step rest ih =>
      obtain ⟨stamp, op⟩ := step
      obtain ⟨next, hnext⟩ : ∃ next, (s.perform stamp op).store.look place = some next :=
        Option.isSome_iff_exists.1 (hstays 1 (by simp))
      obtain ⟨hlife, hversion, hsame⟩ := look_step hs stamp op hold hnext
      obtain ⟨new, hnew, hlife', hversion', hsame'⟩ :=
        ih (hs.perform stamp op) hnext fun n hn => hstays (n + 1) (Nat.succ_le_succ hn)
      refine ⟨new, hnew, hlife'.trans hlife, ?_, fun hnone => ?_⟩
      · rw [hversion', hversion, countWrites, Nat.add_assoc]
      · rw [countWrites] at hnone
        cases hwrites : op.writes s stamp place with
        | true =>
            rw [hwrites, if_pos rfl] at hnone
            omega
        | false =>
            rw [hwrites, if_neg Bool.false_ne_true, Nat.zero_add] at hnone
            rw [hsame' hnone, hsame hwrites]

/-! ## Updates -/

section Update

variable {s : Store} {op : Operation}

theorem exists_request_of_isUpdate (h : op.isUpdate = true) :
    ∃ place, op.request = some (.change, place) := by
  cases op <;> first | exact ⟨_, rfl⟩ | cases h

/-- An update answers with an object. -/
theorem isSome_shown (h : op.isUpdate = true) (answer : op.Answer) :
    (op.shown answer).isSome = true := by
  cases op <;> first | rfl | cases h

/-- An update takes nothing away. -/
theorem isSome_look_of_isUpdate (hs : s.Sound) (h : op.isUpdate = true) (stamp : Stamp)
    {p : Place} (hp : (s.look p).isSome = true) :
    ((s.perform stamp op).store.look p).isSome = true := by
  rcases look_perform_cases hs stamp op p with hsame | ⟨request, hrequest, ⟨answer, hok⟩, -⟩
  · rw [hsame, hp]
  · rw [← ((perform_acts hs stamp hrequest).of_ok hok).2.1]
    exact isSome_shown h answer

/-- A change is refused exactly where there is nothing, and then for this reason. -/
theorem notFound_iff_of_change (hs : s.Sound) (stamp : Stamp) {place : Place}
    (hrequest : op.request = some (.change, place)) :
    (∃ e, (s.perform stamp op).result = .error e ∧ e.isNotFound = true) ↔ s.look place = none := by
  have hacts := perform_acts hs stamp hrequest
  cases hresult : (s.perform stamp op).result with
  | error e =>
      have hrefuses := (hacts.of_error hresult).1
      cases hlook : s.look place with
      | none =>
          rw [hlook] at hrefuses
          refine iff_of_true ⟨e, rfl, ?_⟩ rfl
          rw [show e = .notFound place.key from hrefuses]
          rfl
      | some old =>
          rw [hlook] at hrefuses
          exact hrefuses.elim
  | ok answer =>
      have hplace := (hacts.of_ok hresult).2.2
      refine iff_of_false (fun ⟨_, he, _⟩ => by cases he) fun hnone => ?_
      rw [hnone] at hplace
      cases hplace

end Update

/-- In a store that operations lead to, every object lies where its names say, is held by a
finalizer while it is being removed, and was written.  For as long as it stays stored, whatever
operations are carried out, it is the same one, with as many versions more as it was written.  And
an update takes nothing away, and finds its object exactly if there is one. -/
theorem stored_objects_persist {s : Store} (hs : s.Reachable) :
    (∀ place o, s.look place = some o →
      o.place = some place ∧ (o.metadata.isDeleting = true → o.metadata.finalizers ≠ []) ∧
        1 ≤ o.metadata.resourceVersion) ∧
    (∀ script place old, s.look place = some old →
      (∀ n ≤ script.length, ((s.execute (script.take n)).look place).isSome = true) →
      ∃ new, (s.execute script).look place = some new ∧ new.metadata.SameLife old.metadata ∧
        new.metadata.resourceVersion =
          old.metadata.resourceVersion + countWrites place s script ∧
        (countWrites place s script = 0 → new = old)) ∧
    ∀ stamp op, op.isUpdate = true →
      (∀ p, (s.look p).isSome = true → ((s.perform stamp op).store.look p).isSome = true) ∧
      ∃ place, op.place = some place ∧
        ((∃ e, (s.perform stamp op).result = .error e ∧ e.isNotFound = true) ↔
          s.look place = none) := by
  refine ⟨fun place o ho => ?_, fun script place old hold hstays => ?_, fun stamp op h => ?_⟩
  · have hheld := hs.sound ho
    exact ⟨hs.keyed.place_eq ho, hheld.finalizers, hheld.version⟩
  · exact look_execute hs.sound script hold hstays
  · obtain ⟨place, hrequest⟩ := exists_request_of_isUpdate h
    refine ⟨fun p hp => isSome_look_of_isUpdate hs.sound h stamp hp, place, ?_, ?_⟩
    · rw [Operation.place, hrequest, Option.map_some]
    · exact notFound_iff_of_change hs.sound stamp hrequest

/-- A runner set that a finalizer holds. -/
def archivedSet : RunnerSet where
  metadata := { name := "linux", namespaceName := "ci", finalizers := ["archive"] }
  spec := { replicas := 0, template := { image := "image" } }

/-- A decision, two requests for removal, and a report. -/
def archivedScript : List (Stamp × Operation) :=
  [.patchSpec "ci/linux" 2 7, .deleteSet "ci/linux", .deleteSet "ci/linux",
    .updateSetStatus "ci/linux" { current := 1 }].map (Stamp.sample, ·)

/-- The set stays the same one while it is asked twice to be removed, which is one write. -/
theorem archivedSet_persists :
    ∃ new, ((ofOperations [.createSet archivedSet]).execute archivedScript).look
        (.sets "ci/linux") = some new ∧
      new.metadata.uid = "uid" ∧ new.metadata.resourceVersion = 4 := by
  have hold : (ofOperations [.createSet archivedSet]).look (.sets "ci/linux") =
      some (.set (created Stamp.sample archivedSet)) := by
    decide +kernel
  have hstays : ∀ n ≤ archivedScript.length,
      (((ofOperations [.createSet archivedSet]).execute (archivedScript.take n)).look
        (.sets "ci/linux")).isSome = true := by
    decide +kernel
  have hcount : countWrites (.sets "ci/linux") (ofOperations [.createSet archivedSet])
      archivedScript = 3 := by
    decide +kernel
  obtain ⟨new, hnew, hlife, hversion, -⟩ :=
    (stored_objects_persist (reachable_ofOperations [.createSet archivedSet])).2.1
      archivedScript (.sets "ci/linux") _ hold hstays
  rw [hcount] at hversion
  exact ⟨new, hnew, hlife.uid, hversion⟩

end Store
end RunnerFleet
