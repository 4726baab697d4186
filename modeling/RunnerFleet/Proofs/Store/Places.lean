import RunnerFleet.Proofs.Store.Keyed

/-!
# What an operation makes of its place

The two tables of the store are looked at as one: a place is a key of one of them, and holds a
runner set or a runner.  A writing operation creates what its place shall hold, changes what is
there, or requests its removal.  This module says once what may come of each of these requests: how
it is refused, what it leaves at its place, and how that is announced.

Main results:

- `act_insertNew`, `act_modify`, `act_remove`: what comes of a request for one key of a table.
- `perform_acts`: what comes of an operation that writes.
- `look_perform_cases`: what an operation may make of a place.
- `Sound.perform`: what is being removed is held by a finalizer, and everything was written.
-/

namespace RunnerFleet

namespace Metadata

/-- The removal of the object was requested, and some finalizer has yet to agree. -/
def isWaiting (m : Metadata) : Bool :=
  m.isDeleting && !m.finalizers.isEmpty

/-- What is true of everything stored: what is being removed is held by some finalizer, and there
was a first write. -/
structure Held (m : Metadata) : Prop where
  finalizers : m.isDeleting = true → m.finalizers ≠ []
  version : 1 ≤ m.resourceVersion

/-- An object that is still the same one later on. -/
structure SameLife (later earlier : Metadata) : Prop where
  uid : later.uid = earlier.uid
  name : later.name = earlier.name
  namespaceName : later.namespaceName = earlier.namespaceName
  owner : later.owner = earlier.owner
  creation : later.creation = earlier.creation
  deletion : ∀ time, earlier.deletion = some time → later.deletion = some time

theorem SameLife.refl (m : Metadata) : m.SameLife m :=
  ⟨rfl, rfl, rfl, rfl, rfl, fun _ h => h⟩

theorem SameLife.trans {a b c : Metadata} (hab : a.SameLife b) (hbc : b.SameLife c) :
    a.SameLife c where
  uid := hab.uid.trans hbc.uid
  name := hab.name.trans hbc.name
  namespaceName := hab.namespaceName.trans hbc.namespaceName
  owner := hab.owner.trans hbc.owner
  creation := hab.creation.trans hbc.creation
  deletion time h := hab.deletion time (hbc.deletion time h)

end Metadata

namespace Store

/-- Anything that the store holds. -/
inductive Object where
  | set (set : RunnerSet)
  | runner (runner : Runner)
deriving DecidableEq

/-- A key of one of the tables. -/
inductive Place where
  | sets (key : String)
  | runners (key : String)
deriving DecidableEq

/-- The key without its table. -/
def Place.key : Place → String
  | sets key => key
  | runners key => key

namespace Object

/-- The metadata of an object. -/
def metadata : Object → Metadata
  | set s => s.metadata
  | runner r => r.metadata

/-- Where an object belongs, by its own names. -/
def place : Object → Option Place
  | set s => some (.sets s.key)
  | runner r => r.ownerKey.map fun owner => .runners (runnerKey owner r.name)

/-- The runner set that an object concerns: itself, or the owner of a runner. -/
def runnerSetKey : Object → Option String
  | set s => some s.key
  | runner r => r.ownerKey

/-- The announcement that something befell an object. -/
def announce : Object → WatchAction → WatchEvent
  | set s, action => Store.announce s action
  | runner r, action => Store.announce r action

@[simp]
theorem announce_action (o : Object) (action : WatchAction) :
    (o.announce action).action = action := by
  cases o <;> rfl

@[simp]
theorem announce_runnerSetKey (o : Object) (action : WatchAction) :
    (o.announce action).runnerSetKey = o.runnerSetKey := by
  cases o <;> rfl

end Object

/-- What lies at a place. -/
def look (s : Store) : Place → Option Object
  | .sets key => (s.sets.get? key).map .set
  | .runners key => (s.runners.get? key).map .runner

/-- Stores that hold the same at every place are equal. -/
theorem ext_look {s t : Store} (h : ∀ place, s.look place = t.look place) : s = t := by
  have hsets : s.sets = t.sets := KeyMap.ext_get? fun key =>
    Option.map_injective (fun _ _ => Object.set.inj) (h (.sets key))
  have hrunners : s.runners = t.runners := KeyMap.ext_get? fun key =>
    Option.map_injective (fun _ _ => Object.runner.inj) (h (.runners key))
  cases s
  cases t
  simp_all

/-- In a keyed store every object lies where it belongs. -/
theorem Keyed.place_eq {s : Store} (h : s.Keyed) {place : Place} {o : Object}
    (ho : s.look place = some o) : o.place = some place := by
  cases place with
  | sets key =>
      obtain ⟨set, hset, rfl⟩ := Option.map_eq_some_iff.1 ho
      rw [Object.place, h.set hset]
  | runners key =>
      obtain ⟨r, hr, rfl⟩ := Option.map_eq_some_iff.1 ho
      obtain ⟨owner, howner, rfl⟩ := h.runner hr
      rw [Object.place, howner, Option.map_some]

/-! ## Requests -/

/-- What an operation asks of its place. -/
inductive Request where
  | create
  | change
  | remove
deriving DecidableEq

/-- Why a request is refused, given the key and what lies under it. -/
def Refuses (key : String) (e : Error) : Request → Option Object → Prop
  | .create, some _ => e = .alreadyExists key
  | .change, none => e = .notFound key
  | .remove, none => e = .notFound key
  | _, _ => False

/-- What an accepted request makes of its place, and how it is announced. -/
inductive Becomes : Request → Option Object → Option Object → List WatchEvent → Prop
  | added {new : Object} (hheld : new.metadata.Held) :
      Becomes .create none (some new) [new.announce .added]
  | modified {request : Request} {old new : Object} (hwrites : request ≠ .create)
      (hfirst : request = .remove → old.metadata.isWaiting = false)
      (hlife : new.metadata.SameLife old.metadata) (hheld : new.metadata.Held)
      (hversion : new.metadata.resourceVersion = old.metadata.resourceVersion + 1) :
      Becomes request (some old) (some new) [new.announce .modified]
  | deleted {request : Request} {old : Object} (hwrites : request ≠ .create)
      (hfirst : request = .remove → old.metadata.isWaiting = false) :
      Becomes request (some old) none [old.announce .deleted]
  | waiting {old : Object} (hwaiting : old.metadata.isWaiting = true) :
      Becomes .remove (some old) (some old) []

/-- What an accepted request leaves is held, if what was there before is. -/
theorem Becomes.held {request : Request} {before : Option Object} {new : Object}
    {events : List WatchEvent} (h : Becomes request before (some new) events)
    (hbefore : ∀ old, before = some old → old.metadata.Held) : new.metadata.Held := by
  cases h with
  | added hheld => exact hheld
  | modified _ _ _ hheld _ => exact hheld
  | waiting _ => exact hbefore new rfl

/-- Only a request to create something is accepted where there is nothing. -/
theorem Becomes.exists_before {request : Request} {before after : Option Object}
    {events : List WatchEvent} (h : Becomes request before after events)
    (hrequest : request ≠ .create) : ∃ old, before = some old := by
  cases h with
  | added _ => exact absurd rfl hrequest
  | modified | deleted | waiting => exact ⟨_, rfl⟩

/-- A request for the removal of something that waits for it changes nothing. -/
theorem Becomes.of_waiting {old : Object} {after : Option Object}
    {events : List WatchEvent} (h : Becomes .remove (some old) after events)
    (hwaiting : old.metadata.isWaiting = true) : after = some old ∧ events = [] := by
  cases h with
  | modified _ hfirst => exact absurd hwaiting (by simp [hfirst rfl])
  | deleted _ hfirst => exact absurd hwaiting (by simp [hfirst rfl])
  | waiting _ => exact ⟨rfl, rfl⟩

/-! ## Requests for a key of a table -/

/-- Objects that a table of the store holds. -/
class Shelved (α : Type) [Stored α] where
  object : α → Object
  metadata_object : ∀ o, (object o).metadata = Stored.metadata o
  announce_object : ∀ o action, (object o).announce action = announce o action
  metadata_mapMetadata : ∀ (o : α) change,
    Stored.metadata (mapMetadata o change) = change (Stored.metadata o)

instance : Shelved RunnerSet where
  object := .set
  metadata_object _ := rfl
  announce_object _ _ := rfl
  metadata_mapMetadata _ _ := rfl

instance : Shelved Runner where
  object := .runner
  metadata_object _ := rfl
  announce_object _ _ := rfl
  metadata_mapMetadata _ _ := rfl

section Table

variable {α β : Type} [Stored α] [Shelved α]

open Shelved

/-- What comes of a request for one key of a table. -/
inductive Act (table : KeyMap α) (key : String) (shown : β → Option α) (request : Request) :
    Except Error (Change α β) → Prop
  | refused {e : Error} (h : Refuses key e request ((table.get? key).map object)) :
      Act table key shown request (.error e)
  | accepted {change : Change α β}
      (hothers : ∀ k, k ≠ key → change.table.get? k = table.get? k)
      (hshown : shown change.answer = change.table.get? key)
      (hplace : Becomes request ((table.get? key).map object)
        ((change.table.get? key).map object) change.event.toList) :
      Act table key shown request (.ok change)

section Change

variable {table : KeyMap α} {key : String} {shown : β → Option α} {request : Request} {answer : β}

/-- A request that stores a new object under the key. -/
theorem act_added {new : α} (hshown : shown answer = some new) (hget : table.get? key = none)
    (hheld : (Stored.metadata new).Held) :
    Act table key shown .create
      (.ok ⟨answer, table.insert key new, some (announce new .added)⟩) := by
  have hnew : (table.insert key new).get? key = some new := by
    simp
  refine .accepted (fun k hk => ?_) (hshown.trans hnew.symm) ?_
  · simp [hk]
  · rw [hget, hnew, ← announce_object]
    rw [← metadata_object] at hheld
    exact .added hheld

/-- A request that stores an object in place of the one under the key. -/
theorem act_modified {old new : α} (hshown : shown answer = some new)
    (hget : table.get? key = some old) (hwrites : request ≠ .create)
    (hfirst : request = .remove → (Stored.metadata old).isWaiting = false)
    (hlife : (Stored.metadata new).SameLife (Stored.metadata old))
    (hheld : (Stored.metadata new).Held)
    (hversion : (Stored.metadata new).resourceVersion = (Stored.metadata old).resourceVersion + 1) :
    Act table key shown request
      (.ok ⟨answer, table.insert key new, some (announce new .modified)⟩) := by
  have hnew : (table.insert key new).get? key = some new := by
    simp
  refine .accepted (fun k hk => ?_) (hshown.trans hnew.symm) ?_
  · simp [hk]
  · rw [hget, hnew, ← announce_object]
    simp only [← metadata_object] at hfirst hlife hheld hversion
    exact .modified hwrites hfirst hlife hheld hversion

/-- A request that takes the object under the key away. -/
theorem act_deleted {old last : α} (hshown : shown answer = none)
    (hget : table.get? key = some old) (hwrites : request ≠ .create)
    (hfirst : request = .remove → (Stored.metadata old).isWaiting = false)
    (hlast : announce last .deleted = announce old .deleted) :
    Act table key shown request
      (.ok ⟨answer, table.erase key, some (announce last .deleted)⟩) := by
  have hgone : (table.erase key).get? key = none := by
    simp
  refine .accepted (fun k hk => ?_) (hshown.trans hgone.symm) ?_
  · simp [hk]
  · rw [hget, hgone, hlast, ← announce_object]
    simp only [← metadata_object] at hfirst
    exact .deleted hwrites hfirst

end Change

theorem act_insertNew (table : KeyMap α) (key : String) (o : α) (stamp : Stamp) :
    Act table key some .create (insertNew table key o stamp) := by
  rw [insertNew]
  cases hget : table.get? key with
  | some old => exact .refused (by simp [hget, Refuses])
  | none =>
      refine act_added rfl hget ?_
      rw [metadata_mapMetadata]
      exact ⟨fun h => Bool.noConfusion (show false = true from h), Nat.le_refl 1⟩

/-- A change that leaves the metadata of an object as it is, but for the finalizers. -/
structure Modest (change : α → α) : Prop where
  metadata : ∀ o, ∃ finalizers,
    Stored.metadata (change o) = { Stored.metadata o with finalizers }
  announce : ∀ (o : α) (version : Nat) (action : WatchAction),
    announce (mapMetadata (change o) fun m => { m with resourceVersion := version }) action =
      announce o action

theorem act_modify (table : KeyMap α) (key : String) {change : α → α} (h : Modest change) :
    Act table key id .change (modify table key change) := by
  rw [modify]
  cases hget : table.get? key with
  | none => exact .refused (by simp [hget, Refuses])
  | some old =>
      obtain ⟨finalizers, hmetadata⟩ := h.metadata old
      dsimp only
      split
      · refine act_deleted rfl hget (by simp) (by simp) ?_
        exact h.announce old _ .deleted
      · -- the change was not the one that released the last finalizer
        rename_i hkept
        rw [metadata_mapMetadata, hmetadata] at hkept
        refine act_modified rfl hget (by simp) (by simp) ?_ ?_ ?_
        · rw [metadata_mapMetadata, hmetadata]
          exact ⟨rfl, rfl, rfl, rfl, rfl, fun _ h => h⟩
        · rw [metadata_mapMetadata, hmetadata]
          refine ⟨fun hdeleting hnone => hkept ?_, Nat.le_add_left 1 _⟩
          rw [hdeleting, hnone]
          rfl
        · rw [metadata_mapMetadata, hmetadata]

theorem act_remove (table : KeyMap α) (key : String) (now : Timestamp) :
    Act table key id .remove (remove table key now) := by
  rw [remove]
  cases hget : table.get? key with
  | none => exact .refused (by simp [hget, Refuses])
  | some old =>
      dsimp only
      split
      · rename_i hfree
        refine act_deleted rfl hget (by simp) (fun _ => ?_) rfl
        rw [Metadata.isWaiting, hfree, Bool.not_true, Bool.and_false]
      · rename_i hheld
        split
        · rename_i hdeleting
          refine .accepted (fun _ _ => rfl) hget.symm ?_
          rw [hget]
          refine .waiting ?_
          rw [metadata_object, Metadata.isWaiting, hdeleting]
          simpa using hheld
        · rename_i hlive
          refine act_modified rfl hget (by simp) (fun _ => ?_) ?_ ?_ ?_
          · rw [Metadata.isWaiting, Bool.eq_false_iff.2 hlive, Bool.false_and]
          · rw [metadata_mapMetadata]
            refine ⟨rfl, rfl, rfl, rfl, rfl, fun time htime => ?_⟩
            rw [Metadata.isDeleting, htime] at hlive
            exact absurd rfl hlive
          · rw [metadata_mapMetadata]
            exact ⟨fun _ hnone => hheld (hnone ▸ rfl), Nat.le_add_left 1 _⟩
          · rw [metadata_mapMetadata]

/-- A change that leaves the metadata alone takes nothing away. -/
theorem answer_modify_ne_none {table : KeyMap α} {key : String} {change : α → α}
    {c : Change α (Option α)} (h : modify table key change = .ok c)
    (hmetadata : ∀ o, Stored.metadata (change o) = Stored.metadata o)
    (hheld : ∀ old, table.get? key = some old → (Stored.metadata old).Held) : c.answer ≠ none := by
  rw [modify] at h
  cases hget : table.get? key with
  | none =>
      rw [hget] at h
      cases h
  | some old =>
      rw [hget] at h
      dsimp only at h
      split at h
      · rename_i hgone
        rw [metadata_mapMetadata, hmetadata, Bool.and_eq_true, List.isEmpty_iff] at hgone
        exact absurd hgone.2 ((hheld old hget).finalizers hgone.1)
      · injection h with h
        rw [← h]
        exact Option.some_ne_none _

end Table

/-! ## Operations on the store -/

/-- What an operation asks, and of which place; nothing if it only looks, or creates a runner that
nothing owns. -/
def Operation.request : Operation → Option (Request × Place)
  | createSet set => some (.create, .sets set.key)
  | patchSpec key _ _ => some (.change, .sets key)
  | updateSetStatus key _ => some (.change, .sets key)
  | setSetFinalizers key _ => some (.change, .sets key)
  | deleteSet key => some (.remove, .sets key)
  | createRunner r => r.ownerKey.map fun owner => (.create, .runners (runnerKey owner r.name))
  | updateRunnerStatus owner name _ => some (.change, .runners (runnerKey owner name))
  | setRunnerFinalizers owner name _ => some (.change, .runners (runnerKey owner name))
  | deleteRunner owner name => some (.remove, .runners (runnerKey owner name))
  | _ => none

/-- The place that an operation may write to. -/
def Operation.place (op : Operation) : Option Place :=
  op.request.map Prod.snd

/-- The operation requests the removal of something that waits for its removal already. -/
def Operation.repeats (s : Store) (op : Operation) : Bool :=
  match op.request with
  | some (.remove, place) => (s.look place).any fun o => o.metadata.isWaiting
  | _ => false

/-- An operation repeats a request exactly if it would remove what waits for its removal. -/
theorem repeats_iff {s : Store} {op : Operation} {request : Request} {place : Place}
    (h : op.request = some (request, place)) :
    op.repeats s = true ↔
      request = .remove ∧ ∃ old, s.look place = some old ∧ old.metadata.isWaiting = true := by
  rw [Operation.repeats, h]
  cases request <;> simp [Option.any_eq_true]

/-- The object that an answer shows. -/
def Operation.shown : (op : Operation) → op.Answer → Option Object
  | createSet _, set => some (.set set)
  | getSet _, found => found.map .set
  | listSets, _ => none
  | patchSpec _ _ _, set => some (.set set)
  | updateSetStatus _ _, set => some (.set set)
  | setSetFinalizers _ _, left => left.map .set
  | deleteSet _, left => left.map .set
  | createRunner _, r => some (.runner r)
  | getRunner _ _, found => found.map .runner
  | listRunners _, _ => none
  | updateRunnerStatus _ _ _, r => some (.runner r)
  | setRunnerFinalizers _ _ _, left => left.map .runner
  | deleteRunner _ _, left => left.map .runner

section Acts

variable {β : Type}

/-- What comes of a request for a place of the store. -/
inductive Acts (s : Store) (request : Request) (place : Place) (shown : β → Option Object) :
    Outcome β → Prop
  | refused {e : Error} (h : Refuses place.key e request (s.look place)) :
      Acts s request place shown ⟨.error e, s, []⟩
  | accepted {o : Outcome β} {answer : β} (hresult : o.result = .ok answer)
      (hothers : ∀ p, p ≠ place → o.store.look p = s.look p)
      (hshown : shown answer = o.store.look place)
      (hplace : Becomes request (s.look place) (o.store.look place) o.events) :
      Acts s request place shown o

variable {s : Store} {request : Request} {key : String}

theorem acts_settleSets {shown : β → Option RunnerSet} {result : Except Error (Change RunnerSet β)}
    (h : Act s.sets key shown request result) :
    Acts s request (.sets key) (fun answer => (shown answer).map .set) (s.settleSets result) := by
  cases h with
  | refused h => exact .refused h
  | accepted hothers hshown hplace =>
      refine .accepted rfl (fun p hp => ?_) (congrArg (Option.map _) hshown) hplace
      cases p with
      | sets k => exact congrArg (Option.map _) (hothers k fun hk => hp (hk ▸ rfl))
      | runners k => rfl

theorem acts_settleRunners {shown : β → Option Runner} {result : Except Error (Change Runner β)}
    (h : Act s.runners key shown request result) :
    Acts s request (.runners key) (fun answer => (shown answer).map .runner)
      (s.settleRunners result) := by
  cases h with
  | refused h => exact .refused h
  | accepted hothers hshown hplace =>
      refine .accepted rfl (fun p hp => ?_) (congrArg (Option.map _) hshown) hplace
      cases p with
      | sets k => rfl
      | runners k => exact congrArg (Option.map _) (hothers k fun hk => hp (hk ▸ rfl))

/-- An operation that answers with the object, where nothing was taken away. -/
theorem Acts.present {place : Place} {object : β → Object} {o : Outcome (Option β)}
    (h : Acts s request place (fun answer => answer.map object) o) (hkept : o.result ≠ .ok none)
    (key : String) :
    Acts s request place (fun answer => some (object answer)) (o.present key) := by
  cases h with
  | refused h => exact .refused h
  | @accepted o answer hresult hothers hshown hplace =>
      cases answer with
      | none => exact absurd hresult hkept
      | some answer =>
          refine .accepted ?_ hothers hshown hplace
          rw [Outcome.present, hresult]

theorem Acts.of_error {place : Place} {shown : β → Option Object} {o : Outcome β}
    (h : Acts s request place shown o) {e : Error} (he : o.result = .error e) :
    Refuses place.key e request (s.look place) ∧ o.store = s ∧ o.events = [] := by
  cases h with
  | refused h => exact ⟨Except.error.inj he ▸ h, rfl, rfl⟩
  | accepted hresult => cases hresult.symm.trans he

theorem Acts.of_ok {place : Place} {shown : β → Option Object} {o : Outcome β}
    (h : Acts s request place shown o) {answer : β} (hok : o.result = .ok answer) :
    (∀ p, p ≠ place → o.store.look p = s.look p) ∧ shown answer = o.store.look place ∧
      Becomes request (s.look place) (o.store.look place) o.events := by
  cases h with
  | refused h => cases hok
  | accepted hresult hothers hshown hplace =>
      obtain rfl := Except.ok.inj (hresult.symm.trans hok)
      exact ⟨hothers, hshown, hplace⟩

theorem settleSets_ne_none {result : Except Error (Change RunnerSet (Option β))}
    (h : ∀ change, result = .ok change → change.answer ≠ none) :
    (s.settleSets result).result ≠ .ok none := by
  cases result with
  | error e => exact fun hgone => by cases hgone
  | ok change => exact fun hgone => h change rfl (Except.ok.inj hgone)

theorem settleRunners_ne_none {result : Except Error (Change Runner (Option β))}
    (h : ∀ change, result = .ok change → change.answer ≠ none) :
    (s.settleRunners result).result ≠ .ok none := by
  cases result with
  | error e => exact fun hgone => by cases hgone
  | ok change => exact fun hgone => h change rfl (Except.ok.inj hgone)

end Acts

/-- Everything that is stored is held. -/
def Sound (s : Store) : Prop :=
  ∀ {place : Place} {o : Object}, s.look place = some o → o.metadata.Held

theorem Sound.set {s : Store} (h : s.Sound) {key : String} (set : RunnerSet)
    (hset : s.sets.get? key = some set) : set.metadata.Held :=
  @h (.sets key) (.set set) (congrArg (Option.map Object.set) hset)

theorem Sound.runner {s : Store} (h : s.Sound) {key : String} (r : Runner)
    (hr : s.runners.get? key = some r) : r.metadata.Held :=
  @h (.runners key) (.runner r) (congrArg (Option.map Object.runner) hr)

/-- What comes of an operation that writes. -/
theorem perform_acts {s : Store} (hs : s.Sound) (stamp : Stamp) {op : Operation}
    {request : Request} {place : Place} (h : op.request = some (request, place)) :
    Acts s request place op.shown (s.perform stamp op) := by
  -- an update reports what it took away as missing: it takes nothing away, as all is held
  cases op with
  | createSet set =>
      cases h
      exact acts_settleSets (act_insertNew s.sets set.key set stamp)
  | patchSpec key replicas patchId =>
      cases h
      rw [perform]
      refine Acts.present (acts_settleSets (act_modify s.sets key ?_)) ?_ key
      · exact ⟨fun _ => ⟨_, rfl⟩, fun _ _ _ => rfl⟩
      · exact settleSets_ne_none fun _ h => answer_modify_ne_none h (fun _ => rfl) hs.set
  | updateSetStatus key status =>
      cases h
      rw [perform]
      refine Acts.present (acts_settleSets (act_modify s.sets key ?_)) ?_ key
      · exact ⟨fun _ => ⟨_, rfl⟩, fun _ _ _ => rfl⟩
      · exact settleSets_ne_none fun _ h => answer_modify_ne_none h (fun _ => rfl) hs.set
  | setSetFinalizers key finalizers =>
      cases h
      exact acts_settleSets (act_modify s.sets key ⟨fun _ => ⟨_, rfl⟩, fun _ _ _ => rfl⟩)
  | deleteSet key =>
      cases h
      exact acts_settleSets (act_remove s.sets key stamp.now)
  | createRunner r =>
      obtain ⟨owner, howner, hplace⟩ := Option.map_eq_some_iff.1 h
      cases hplace
      rw [perform, createRunner, howner]
      exact acts_settleRunners (act_insertNew s.runners _ r stamp)
  | updateRunnerStatus owner name status =>
      cases h
      rw [perform]
      refine Acts.present (acts_settleRunners (act_modify s.runners _ ?_)) ?_ _
      · exact ⟨fun _ => ⟨_, rfl⟩, fun _ _ _ => rfl⟩
      · exact settleRunners_ne_none fun _ h => answer_modify_ne_none h (fun _ => rfl) hs.runner
  | setRunnerFinalizers owner name finalizers =>
      cases h
      exact acts_settleRunners (act_modify s.runners _ ⟨fun _ => ⟨_, rfl⟩, fun _ _ _ => rfl⟩)
  | deleteRunner owner name =>
      cases h
      exact acts_settleRunners (act_remove s.runners _ stamp.now)
  | getSet _ | listSets | getRunner _ _ | listRunners _ => cases h

/-- An operation that asks nothing of any place looks at the store, or is refused. -/
theorem perform_of_request_eq_none (s : Store) (stamp : Stamp) {op : Operation}
    (h : op.request = none) :
    (s.perform stamp op).store = s ∧ (s.perform stamp op).events = [] ∧
      ((∃ e, (s.perform stamp op).result = .error e) ↔ op.isRead = false) := by
  cases op with
  | createRunner r =>
      have howner : r.ownerKey = none := Option.map_eq_none_iff.1 h
      rw [perform, createRunner, howner]
      exact ⟨rfl, rfl, iff_of_true ⟨_, rfl⟩ rfl⟩
  | getSet _ | listSets | getRunner _ _ | listRunners _ =>
      refine ⟨rfl, rfl, iff_of_false ?_ (by simp [Operation.isRead])⟩
      rintro ⟨e, he⟩
      cases he
  | _ => cases h

/-- A place is after an operation as it was, unless the operation asks something of it, and is not
refused. -/
theorem look_perform_cases {s : Store} (hs : s.Sound) (stamp : Stamp) (op : Operation) (p : Place) :
    (s.perform stamp op).store.look p = s.look p ∨
      ∃ request, op.request = some (request, p) ∧
        (∃ answer, (s.perform stamp op).result = .ok answer) ∧
        Becomes request (s.look p) ((s.perform stamp op).store.look p)
          (s.perform stamp op).events := by
  cases hrequest : op.request with
  | none => exact .inl (by rw [(perform_of_request_eq_none s stamp hrequest).1])
  | some asked =>
      obtain ⟨request, place⟩ := asked
      have hacts := perform_acts hs stamp hrequest
      cases hresult : (s.perform stamp op).result with
      | error e => exact .inl (by rw [(hacts.of_error hresult).2.1])
      | ok answer =>
          obtain ⟨hothers, -, hplace⟩ := hacts.of_ok hresult
          by_cases hp : p = place
          · subst hp
            exact .inr ⟨request, rfl, ⟨answer, rfl⟩, hplace⟩
          · exact .inl (hothers p hp)

/-- Everything that is stored stays held. -/
theorem Sound.perform {s : Store} (hs : s.Sound) (stamp : Stamp) (op : Operation) :
    (s.perform stamp op).store.Sound := by
  intro p o ho
  rcases look_perform_cases hs stamp op p with hsame | ⟨request, -, -, hplace⟩
  · rw [hsame] at ho
    exact hs ho
  · rw [ho] at hplace
    exact hplace.held fun _ => hs

theorem Reachable.sound {s : Store} (h : s.Reachable) : s.Sound := by
  induction h with
  | empty =>
      intro place o ho
      cases place <;> simp [look] at ho
  | perform _ stamp op ih => exact ih.perform stamp op

end Store
end RunnerFleet
