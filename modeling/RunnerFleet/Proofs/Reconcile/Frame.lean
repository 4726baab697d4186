import RunnerFleet.Proofs.Reconcile.Answers
import RunnerFleet.Proofs.Reconcile.Calls
import RunnerFleet.Proofs.Store.Custody
import RunnerFleet.Proofs.Store.Places

/-!
# What a pass leaves alone

A pass over a set writes to this set and to the runners that the set owns.  It changes the counts of
the set and the finalizer of the controller, requests the removal of runners that it has listed, and
creates new ones.  Whatever else is stored stays as it was, also where keys look alike, and also where
calls fail.

Main results:

- `Fate.remove`, `Fate.create`: what one write adds to what became of a runner.
- `Serving.answered`: a call for a set leaves the rest of the store alone.
- `meets_proceed_serving`: so does the part of a pass that comes after its reads.
- `pass_writes_own`: what a pass may change, whatever names there are and whichever calls fail.
-/

namespace RunnerFleet
namespace Reconcile

open Program Store

/-- The setting of a pass that is alone with the store, and whose calls may fail. -/
def alone : Setting Store where
  permits _ _ := True
  answers c s answer after := c.Answered s answer after

/-! ## What becomes of a runner -/

/-- Nothing keeps what lies here from leaving the store: it is a runner of the set that no finalizer
holds, or nothing. -/
def Loose (key : String) (before : Option Runner) : Prop :=
  ∀ r, before = some r → r.ownerKey = some key ∧ r.metadata.finalizers = []

/-- What a pass over a set may make of what lies under a key of the runners. -/
inductive Fate (set : RunnerSet) : Option Runner → Option Runner → Prop where
  | same (before : Option Runner) : Fate set before before
  | condemned {r : Runner} (now : Timestamp) (howner : r.ownerKey = some set.key)
      (hheld : r.metadata.finalizers ≠ []) (hfirst : r.metadata.deletion = none) :
      Fate set (some r) (some (condemned now r))
  | gone {before : Option Runner} (hloose : Loose set.key before) : Fate set before none
  | created {before : Option Runner} (hloose : Loose set.key before) (stamp : Stamp)
      (suffix : String) : Fate set before (some (created stamp (newRunner set suffix)))

namespace Fate

variable {set : RunnerSet} {before after : Option Runner}

/-- A runner of the set stays one. -/
theorem owned (h : Fate set before after) (hbefore : ∀ r, before = some r → r.ownerKey = some set.key)
    {r : Runner} (hr : after = some r) : r.ownerKey = some set.key := by
  cases h with
  | same => exact hbefore r hr
  | condemned now howner => exact Option.some.inj hr ▸ howner
  | gone => cases hr
  | created _ stamp suffix => exact Option.some.inj hr ▸ newRunner_ownerKey set suffix

/-- A runner of somebody else is where it was. -/
theorem foreign (h : Fate set before after) {r : Runner} (hforeign : r.ownerKey ≠ some set.key) :
    after = some r ↔ before = some r := by
  cases h with
  | same => exact Iff.rfl
  | condemned now howner =>
      constructor
      · intro hr
        exact absurd (Option.some.inj hr ▸ howner) hforeign
      · intro hr
        exact absurd (Option.some.inj hr ▸ howner) hforeign
  | gone hloose =>
      constructor
      · exact nofun
      · intro hr
        exact absurd (hloose r hr).1 hforeign
  | created hloose stamp suffix =>
      constructor
      · intro hr
        exact absurd (Option.some.inj hr ▸ newRunner_ownerKey set suffix) hforeign
      · intro hr
        exact absurd (hloose r hr).1 hforeign

/-- The removal of a runner of the set is requested. -/
theorem remove (h : Fate set before after)
    (howned : ∀ r, after = some r → r.ownerKey = some set.key) (now : Timestamp) :
    Fate set before (after.bind (removed? now)) := by
  cases h with
  | same =>
      cases before with
      | none => exact .same none
      | some r =>
          have howner := howned r rfl
          rw [Option.bind_some, removed?]
          split
          · rename_i hfree
            exact .gone fun r' hr' => Option.some.inj hr' ▸ ⟨howner, List.isEmpty_iff.1 hfree⟩
          · rename_i hheld
            split
            · exact .same (some r)
            · rename_i hlive
              refine .condemned now howner (fun hfree => hheld (List.isEmpty_iff.2 hfree)) ?_
              simpa [Stored.metadata, Metadata.isDeleting] using hlive
  | @condemned r time howner hheld hfirst =>
      -- a second request changes nothing
      have hagain : removed? now (Store.condemned time r) = some (Store.condemned time r) := by
        have hkept : (Stored.metadata (Store.condemned time r)).finalizers.isEmpty = false :=
          List.isEmpty_eq_false_iff.2 hheld
        rw [removed?, hkept, if_neg Bool.false_ne_true]
        exact if_pos rfl
      rw [Option.bind_some, hagain]
      exact .condemned time howner hheld hfirst
  | gone hloose => exact .gone hloose
  | created hloose stamp suffix => exact .gone hloose

/-- A runner of the set is created, unless there is something already. -/
theorem create (h : Fate set before after) (stamp : Stamp) (suffix : String) :
    Fate set before (some (after.getD (Store.created stamp (newRunner set suffix)))) := by
  cases h with
  | same =>
      cases before with
      | none =>
          refine .created ?_ stamp suffix
          rintro r ⟨⟩
      | some r => exact .same (some r)
  | condemned now howner hheld hfirst => exact .condemned now howner hheld hfirst
  | gone hloose => exact .created hloose stamp suffix
  | created hloose stamp' suffix' => exact .created hloose stamp' suffix'

end Fate

/-! ## The calls for a set -/

/-- A set with other counts, one or more versions later. -/
def Recounted (old new : RunnerSet) : Prop :=
  new = { old with
    status := new.status
    metadata := { old.metadata with resourceVersion := new.metadata.resourceVersion } }

/-- What the calls for a set, which holds the controller's finalizer, may have made of a store. -/
structure Serving (set : RunnerSet) (s after : Store) : Prop where
  sets : ∀ k, k ≠ set.key → after.getSet k = s.getSet k
  own : ∃ new, after.getSet set.key = some new ∧ Recounted set new
  runners : ∀ place, Fate set (s.runners.get? place) (after.runners.get? place)

theorem Serving.refl {set : RunnerSet} {s : Store} (hset : s.getSet set.key = some set) :
    Serving set s s :=
  ⟨fun _ _ => rfl, ⟨set, hset, rfl⟩, fun _ => .same _⟩

/-- The counts that are written are all that changes about a set which holds a finalizer. -/
theorem recounted_of_updateStatus {old mid : RunnerSet} (h : Recounted old mid)
    (hheld : old.hasFinalizer = true) (status : RunnerSetStatus) :
    ∃ new, changed? (fun set : RunnerSet => { set with status }) mid = some new ∧
      Recounted old new := by
  have hmid : mid.hasFinalizer = true := by
    rw [h]
    exact hheld
  obtain ⟨new, hnew, -⟩ := @holds_of_changed? (fun set : RunnerSet => { set with status }) mid hmid
  refine ⟨new, hnew, ?_⟩
  rw [eq_of_changed? hnew, h]
  rfl

/-- A call for a set leaves the rest of the store alone. -/
theorem Serving.answered {set : RunnerSet} {s mid after : Store} {c : Call} {answer : c.Answer}
    (h : Serving set s mid) (hs : s.Keyed) (hheld : set.hasFinalizer = true)
    (hserves : Call.Serves set (s.runnersOf set.key) c) (hanswered : c.Answered mid answer after) :
    Serving set s after := by
  rcases hanswered.store with rfl | ⟨op, stamp, hop, rfl⟩
  · exact h
  · cases hserves with
    | listRunners =>
        cases hop
        exact h
    | deregister runnerId => cases hop
    | createRunner suffix wanted =>
        cases hop
        refine ⟨fun k hk => ?_, ?_, fun place => ?_⟩
        · rw [getSet_perform]
          exact h.sets k hk
        · rw [getSet_perform]
          exact h.own
        · rw [getRunner_perform, Operation.onRunner]
          split
          · exact (h.runners place).create stamp suffix
          · exact h.runners place
    | @deleteRunner r listed =>
        cases hop
        refine ⟨fun k hk => ?_, ?_, fun place => ?_⟩
        · rw [getSet_perform]
          exact h.sets k hk
        · rw [getSet_perform]
          exact h.own
        · rw [getRunner_perform, Operation.onRunner]
          by_cases hplace : place = runnerKey set.key r.name
          · rw [if_pos hplace]
            -- what lies here was a runner of the set when it was listed, and is one still
            obtain ⟨howner, hget⟩ := hs.mem_runnersOf.1 listed
            refine (h.runners place).remove (fun r' => (h.runners place).owned fun old hold => ?_) _
            rw [hplace, hget] at hold
            exact Option.some.inj hold ▸ howner
          · rw [if_neg hplace]
            exact h.runners place
    | updateStatus status =>
        cases hop
        refine ⟨fun k hk => ?_, ?_, fun place => ?_⟩
        · rw [getSet_perform, Operation.onSet, if_neg hk]
          exact h.sets k hk
        · obtain ⟨mid', hmid, hrecounted⟩ := h.own
          rw [getSet_perform, Operation.onSet, if_pos rfl, hmid, Option.bind_some]
          exact recounted_of_updateStatus hrecounted hheld status
        · rw [getRunner_perform]
          exact h.runners place

/-- Programs that serve a set leave the rest of the store alone. -/
theorem Uses.meets_serving {α : Type} {set : RunnerSet} {s : Store} {p : Program α} (hs : s.Keyed)
    (hset : s.getSet set.key = some set) (hheld : set.hasFinalizer = true)
    (hp : p.Uses (Call.Serves set (s.runnersOf set.key))) :
    p.Meets alone (fun _ after => Serving set s after) s := by
  refine hp.meets (Serving set s) (fun _ _ _ _ => trivial) ?_ (.refl hset)
  intro c mid answer after hserves hmid hanswered
  exact hmid.answered hs hheld hserves hanswered

/-! ## A pass as a whole -/

/-- A set is the same but for what the controller keeps on it: its counts, its own finalizer, and
the version. -/
structure Maintained (old new : RunnerSet) : Prop where
  rest : new = { old with
    status := new.status
    metadata := { old.metadata with
      finalizers := new.metadata.finalizers
      resourceVersion := new.metadata.resourceVersion } }
  finalizers : withoutFinalizer new.metadata = withoutFinalizer old.metadata

theorem Maintained.refl (set : RunnerSet) : Maintained set set :=
  ⟨rfl, rfl⟩

theorem Recounted.maintained {old new : RunnerSet} (h : Recounted old new) : Maintained old new := by
  have hfinalizers : new.metadata.finalizers = old.metadata.finalizers := by rw [h]
  constructor
  · rw [hfinalizers]
    exact h
  · rw [withoutFinalizer, withoutFinalizer, hfinalizers]

/-- A set that the store keeps when its finalizers are written is maintained, if the others are the
same. -/
theorem maintained_of_setFinalizers {old new : RunnerSet} {finalizers : List String}
    (h : changed? (fun set : RunnerSet =>
      { set with metadata := { set.metadata with finalizers } }) old = some new)
    (hothers : finalizers.filter (· ≠ RunnerSet.finalizer) = withoutFinalizer old.metadata) :
    Maintained old new := by
  rw [eq_of_changed? h]
  exact ⟨rfl, hothers⟩

/-- To add or to release the finalizer of the controller leaves the others in their order. -/
@[simp]
theorem filter_withFinalizer (m : Metadata) :
    (withFinalizer m).filter (· ≠ RunnerSet.finalizer) = withoutFinalizer m := by
  rw [withFinalizer, withoutFinalizer]
  split
  · rfl
  · simp [List.filter_append]

@[simp]
theorem filter_withoutFinalizer (m : Metadata) :
    (withoutFinalizer m).filter (· ≠ RunnerSet.finalizer) = withoutFinalizer m := by
  simp [withoutFinalizer]

/-- Between two stores, only what belongs to this set has changed, and of this only what is the
controller's to change. -/
structure WritesOwn (key : String) (s after : Store) : Prop where
  otherSets : ∀ k, k ≠ key → after.getSet k = s.getSet k
  otherRunners : ∀ place r, r.ownerKey ≠ some key →
    (after.runners.get? place = some r ↔ s.runners.get? place = some r)
  set : ∀ new, after.getSet key = some new → ∃ old, s.getSet key = some old ∧ Maintained old new
  /-- A runner is the same, or its removal was requested; or it has left, and a new one has come. -/
  runner : ∀ place old new, s.runners.get? place = some old → old.ownerKey = some key →
    after.runners.get? place = some new →
      new = old ∨
      (old.metadata.deletion = none ∧ ∃ now, new = condemned now old) ∨
      (old.metadata.finalizers = [] ∧ ∃ set suffix stamp, s.getSet key = some set ∧
        new = created stamp (newRunner set suffix))
  left : ∀ old, s.getSet key = some old → after.getSet key = none →
    old.metadata.isDeleting = true ∧ s.Childless key ∧
      ∀ f ∈ old.metadata.finalizers, f = RunnerSet.finalizer

theorem WritesOwn.refl (key : String) (s : Store) : WritesOwn key s s where
  otherSets _ _ := rfl
  otherRunners _ _ _ := Iff.rfl
  set new hnew := ⟨new, hnew, .refl new⟩
  runner _ _ _ hold _ hnew := .inl (Option.some.inj (hnew.symm.trans hold))
  left _ hold hnone := nomatch hnone.symm.trans hold

/-- What the calls for a set may do is the controller's to do. -/
theorem Serving.writesOwn {set : RunnerSet} {s after : Store} (h : Serving set s after)
    (hset : s.getSet set.key = some set) : WritesOwn set.key s after where
  otherSets := h.sets
  otherRunners place _ hforeign := (h.runners place).foreign hforeign
  set := by
    obtain ⟨new, hnew, hrecounted⟩ := h.own
    intro new' hnew'
    obtain rfl := Option.some.inj (hnew.symm.trans hnew')
    exact ⟨set, hset, hrecounted.maintained⟩
  runner := by
    intro place old new hold howner hnew
    have hfate := h.runners place
    rw [hold, hnew] at hfate
    cases hfate with
    | same => exact .inl rfl
    | condemned now _ _ hfirst => exact .inr (.inl ⟨hfirst, now, rfl⟩)
    | created hloose stamp suffix =>
        exact .inr (.inr ⟨(hloose old rfl).2, set, suffix, stamp, hset, rfl⟩)
  left := by
    obtain ⟨new, hnew, -⟩ := h.own
    intro old hold hnone
    cases hnone.symm.trans hnew

/-- To write the finalizers of a set is the controller's to do, if the others stay the same, and the
set leaves the store only where it may. -/
theorem writesOwn_of_setFinalizers {s after : Store} {set : RunnerSet} {finalizers : List String}
    {answer : Except Store.Error Unit} (hset : s.getSet set.key = some set)
    (hothers : finalizers.filter (· ≠ RunnerSet.finalizer) = withoutFinalizer set.metadata)
    (hleft : set.metadata.isDeleting = true → finalizers = [] → s.Childless set.key)
    (h : (Call.setFinalizers set.key finalizers).Answered s answer after) :
    WritesOwn set.key s after := by
  rcases h.store with rfl | ⟨op, stamp, hop, rfl⟩
  · exact .refl _ _
  · cases hop
    have hnew : (s.perform stamp (.setSetFinalizers set.key finalizers)).store.getSet set.key =
        changed? (fun set => { set with metadata := { set.metadata with finalizers } }) set := by
      rw [getSet_perform, Operation.onSet, if_pos rfl, hset]
      rfl
    have hrunners : ∀ place,
        (s.perform stamp (.setSetFinalizers set.key finalizers)).store.runners.get? place =
          s.runners.get? place := by
      intro place
      rw [getRunner_perform]
      rfl
    refine ⟨fun k hk => ?_, fun place r _ => ?_, fun new hget => ?_, ?_, fun old hold hnone => ?_⟩
    · rw [getSet_perform, Operation.onSet, if_neg hk]
    · rw [hrunners]
    · rw [hnew] at hget
      exact ⟨set, hset, maintained_of_setFinalizers hget hothers⟩
    · intro place old new hold _ hget
      rw [hrunners] at hget
      exact .inl (Option.some.inj (hget.symm.trans hold))
    · obtain rfl := Option.some.inj (hold.symm.trans hset)
      rw [hnew] at hnone
      obtain ⟨hdeleting, hempty⟩ := gone_of_changed? hnone
      refine ⟨hdeleting, hleft hdeleting hempty, fun f hf => ?_⟩
      refine Decidable.byContradiction fun hforeign => ?_
      have hmem := mem_withoutFinalizer.2 ⟨hf, hforeign⟩
      rw [← hothers, show finalizers = [] from hempty] at hmem
      cases hmem

/-- What a pass does after its reads is the controller's to do. -/
theorem meets_proceed_writesOwn (suffix : Nat → String) {s : Store} {set : RunnerSet} (hs : s.Keyed)
    (hset : s.getSet set.key = some set) (hheld : set.hasFinalizer = true) :
    (proceed suffix set (s.runnersOf set.key)).Meets alone
      (fun _ after => WritesOwn set.key s after) s := by
  rw [proceed]
  split
  · refine (Uses.meets_serving hs hset hheld ?_).mono fun _ _ h => h.writesOwn hset
    exact uses_converge set suffix _
  · refine (Uses.meets_serving hs hset hheld ?_).mono fun _ _ h => h.writesOwn hset
    exact uses_drain set (fun _ => .deleteRunner) .deregister
  · rename_i hremovable
    refine ⟨trivial, fun answer after hanswered => ?_⟩
    refine writesOwn_of_setFinalizers hset (filter_withoutFinalizer _) (fun _ _ => ?_) hanswered
    exact hs.childless_of_nil (eq_nil_of_removable hremovable)

/-- A pass over a set, alone with a store that operations lead to, changes nothing but what is the
controller's: of the set, the counts, the version and the controller's finalizer; of the runners of
the set, whether their removal was requested.  This is so for all names and suffixes, whichever calls
fail, and whatever the Actions service answers.  The set leaves the store only where its removal was
requested, it has no runners, and nothing but the controller's finalizer holds it. -/
theorem pass_writes_own (suffix : Nat → String) (key : String) {s : Store} (hs : s.Reachable) :
    (pass suffix key).Meets alone (fun _ after => WritesOwn key s after) s := by
  have hkeyed := hs.keyed
  rw [pass, meets_bind]
  refine ⟨trivial, ?_⟩
  rintro (e | _ | set) found hanswered
  · have hread : (Call.getSet key).Answered s (.error e) found := hanswered
    obtain rfl := hread.store_eq fun op hop => Option.some.inj hop ▸ rfl
    exact .refl _ _
  · obtain ⟨rfl, -⟩ := hanswered.getSet
    exact .refl _ _
  · obtain ⟨rfl, hset⟩ := hanswered.getSet
    obtain rfl : set.key = key := hkeyed.set hset
    change Meets _ _ (if set.hasFinalizer then _ else _) _
    split
    · rename_i hheld
      rw [meets_bind]
      refine ⟨trivial, ?_⟩
      rintro (e | runners) listed hanswered
      · have hread : (Call.listRunners set.key).Answered found (.error e) listed := hanswered
        obtain rfl := hread.store_eq fun op hop => Option.some.inj hop ▸ rfl
        exact .refl _ _
      · obtain ⟨rfl, rfl⟩ := hanswered.listRunners
        exact meets_proceed_writesOwn suffix hkeyed hset hheld
    · split
      · exact .refl _ _
      · rename_i hlive
        rw [meets_bind]
        refine ⟨trivial, fun answer after hanswered => ?_⟩
        exact writesOwn_of_setFinalizers hset (filter_withFinalizer _)
          (fun hdeleting => absurd hdeleting hlive) hanswered

/-- An environment with a set that asks for a runner, and with a runner of another set whose key looks
like those of its runners.  The counts cannot be written. -/
def lookalike : Environment where
  store := Store.ofOperations
    [.createSet (RunnerSet.create "ns" "set" { image := "image" }),
      .setSetFinalizers "ns/set" ["other", RunnerSet.finalizer],
      .createRunner (newRunner (RunnerSet.create "ns" "set:x" { image := "image" }) "a"),
      .patchSpec "ns/set" 1 5]
  service := fun _ => .ok ()
  faults := [{ method := .updateStatus, calls := none, error := ⟨.transaction, "busy"⟩ }]
  stamps := fun _ => Stamp.sample

/-- In this environment a pass creates a runner, and leaves the one of the other set alone. -/
theorem lookalike_writes_own :
    let after := ((pass toString "ns/set").run Environment.answer lookalike).2.store
    after.runners.keys = ["ns/set:set-runner-0", "ns/set:x:set:x-runner-a"] ∧
      WritesOwn "ns/set" lookalike.store after := by
  have hany : ∀ e ∈ (pass toString "ns/set").exchanges Environment.answer lookalike, True :=
    fun _ _ => trivial
  refine ⟨by decide +kernel, ?_⟩
  exact (pass_writes_own toString "ns/set" (reachable_ofOperations _)).of_run Environment.store
    (fun c env _ => answered_answer c env) hany

end Reconcile
end RunnerFleet
