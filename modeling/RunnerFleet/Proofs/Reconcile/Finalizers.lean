import RunnerFleet.Proofs.Reconcile.Scene
import RunnerFleet.Proofs.Store.Custody

/-!
# What the finalizer write of a pass does to the finalizers of others

A pass adds or releases its finalizer by writing all finalizers of the set: those that it has read,
with its own among them or not.  The write replaces what is stored by then.  So the finalizers of
others are after the write as they were when the pass read the set, and what others did to them in
between is lost.  Only finalizer writes of others, and the creation of another set in place of one
that has left, make a difference; requests for removal do not.

Main results:

- `Due.intends`: which finalizers a pass writes, and that it is over then.
- `mem_finalizersOf_setSetFinalizers`: which finalizers a set holds after they were written.
- `AsRead.step`: a set holds what the pass has read, unless others write finalizers.
- `finalizers_written_as_read`: what the finalizer write of a pass changes, amid anything that
  others do.
-/

namespace RunnerFleet

namespace Store

/-- The finalizers of the runner set under a key; there are none if it is not stored. -/
def finalizersOf (s : Store) (key : String) : List String :=
  ((s.getSet key).map fun set => set.metadata.finalizers).getD []

theorem finalizersOf_some {s : Store} {key : String} {set : RunnerSet}
    (h : s.getSet key = some set) : s.finalizersOf key = set.metadata.finalizers := by
  rw [finalizersOf, h]
  rfl

theorem finalizersOf_none {s : Store} {key : String} (h : s.getSet key = none) :
    s.finalizersOf key = [] := by
  rw [finalizersOf, h]
  rfl

/-- The operation may say by which finalizers a set is held: it writes them, or creates the set. -/
def Operation.Refinalizes (key : String) : Operation → Prop
  | createSet set => set.key = key
  | setSetFinalizers k _ => k = key
  | _ => False

/-- A set is held by the same finalizers as before, unless the operation says otherwise. -/
theorem finalizers_of_onSet {op : Operation} {stamp : Stamp} {key : String}
    {before : Option RunnerSet} {new : RunnerSet} (h : op.onSet stamp key before = some new)
    (hop : ¬ op.Refinalizes key) :
    ∃ old, before = some old ∧ new.metadata.finalizers = old.metadata.finalizers := by
  cases op with
  | createSet set =>
      have hkey : key ≠ set.key := fun hkey => hop hkey.symm
      rw [Operation.onSet, if_neg hkey] at h
      exact ⟨new, h, rfl⟩
  | setSetFinalizers k finalizers =>
      have hkey : key ≠ k := fun hkey => hop hkey.symm
      rw [Operation.onSet, if_neg hkey] at h
      exact ⟨new, h, rfl⟩
  | patchSpec k _ _ | updateSetStatus k _ =>
      simp only [Operation.onSet] at h
      split at h
      · obtain ⟨old, hold, hnew⟩ := Option.bind_eq_some_iff.1 h
        exact ⟨old, hold, by rw [eq_of_changed? hnew]; rfl⟩
      · exact ⟨new, h, rfl⟩
  | deleteSet k =>
      simp only [Operation.onSet] at h
      split at h
      · obtain ⟨old, hold, hnew⟩ := Option.bind_eq_some_iff.1 h
        exact ⟨old, hold, by rcases eq_of_removed? hnew with rfl | rfl <;> rfl⟩
      · exact ⟨new, h, rfl⟩
  | _ => exact ⟨new, h, rfl⟩

/-- After its finalizers were written, a set that was stored holds these; if there are none, it may
have left. -/
theorem mem_finalizersOf_setSetFinalizers (s : Store) (stamp : Stamp) (key : String)
    (finalizers : List String) (f : String) :
    f ∈ (s.perform stamp (.setSetFinalizers key finalizers)).store.finalizersOf key ↔
      (s.getSet key).isSome ∧ f ∈ finalizers := by
  rw [finalizersOf, getSet_perform, Operation.onSet, if_pos rfl]
  cases s.getSet key with
  | none => simp
  | some old =>
      rw [Option.bind_some]
      cases hnew : changed? (fun set : RunnerSet =>
          { set with metadata := { set.metadata with finalizers } }) old with
      | none =>
          obtain ⟨-, hempty⟩ := gone_of_changed? hnew
          have hempty : finalizers = [] := hempty
          simp [hempty]
      | some new =>
          rw [eq_of_changed? hnew]
          simp [mapMetadata, Stored.withMetadata, Stored.metadata]

end Store

namespace Reconcile

open Program Store

/-! ## What a pass writes -/

/-- The finalizers that a pass writes by what it has read: its own is added to those of a live set
that lacks it, and is taken from those of a set that is being removed and had no runners. -/
inductive Intends (calls : List Exchange) (read : RunnerSet) : List String → Prop where
  | add (unheld : read.hasFinalizer = false) (live : read.metadata.isDeleting = false) :
      Intends calls read (withFinalizer read.metadata)
  | release (held : read.hasFinalizer = true) (deleting : read.metadata.isDeleting = true)
      (empty : firstListing calls = some []) :
      Intends calls read (withoutFinalizer read.metadata)

/-- Of others' finalizers a pass writes those that it has read. -/
theorem Intends.mem_iff {calls : List Exchange} {read : RunnerSet} {finalizers : List String}
    (h : Intends calls read finalizers) {f : String} (hf : f ≠ RunnerSet.finalizer) :
    f ∈ finalizers ↔ f ∈ read.metadata.finalizers := by
  cases h with
  | add => simp [hf]
  | release => simp [mem_withoutFinalizer, hf]

/-- Calls that do not write finalizers. -/
def Call.KeepsFinalizers (c : Call) : Prop :=
  ∀ key finalizers, c ≠ .setFinalizers key finalizers

/-- Unless a set is released, its finalizers are not written once its runners were listed. -/
theorem uses_proceed_keepsFinalizers (suffix : Nat → String) (set : RunnerSet)
    (runners : List Runner)
    (h : Teardown.observe set.metadata runners.length ≠ .removable) :
    (proceed suffix set runners).Uses Call.KeepsFinalizers := by
  rw [proceed]
  split
  · refine (uses_converge set suffix runners).mono fun c hc => ?_
    cases hc <;> simp [Call.KeepsFinalizers]
  · exact uses_drain set (by simp [Call.KeepsFinalizers]) (by simp [Call.KeepsFinalizers])
  · contradiction

/-- A pass that is about to write finalizers goes by what it has read, and is over afterwards. -/
theorem Due.intends {suffix : Nat → String} {key k : String} {calls : List Exchange}
    {finalizers : List String}
    {next : (Call.setFinalizers k finalizers).Answer → Program (Except Error Unit)}
    (hreads : ∀ set : RunnerSet, firstRead calls = some set → set.key = key)
    (h : Due suffix key calls (.setFinalizers k finalizers) next) :
    k = key ∧ (∃ read, firstRead calls = some read ∧ Intends calls read finalizers) ∧
      ∀ answer, ∃ result, next answer = .done result := by
  cases h with
  | @adding set hunheld hlive =>
      exact ⟨rfl, ⟨set, rfl, .add hunheld hlive⟩, fun answer => ⟨_, rfl⟩⟩
  | @acting set runners rest _ _ hheld follows =>
      cases hteardown : Teardown.observe set.metadata runners.length with
      | removable =>
          obtain rfl := eq_nil_of_removable hteardown
          have hdeleting : set.metadata.isDeleting = true := by
            cases hlive : set.metadata.isDeleting with
            | true => rfl
            | false => simp [Teardown.observe, hlive] at hteardown
          rw [proceed, hteardown] at follows
          have follows : (call (.setFinalizers set.key (withoutFinalizer set.metadata))
              fun answer => done (tolerateMissing answer)).Leads rest
              (call (.setFinalizers k finalizers) next) := follows
          obtain ⟨rfl, hcall⟩ := leads_lastCall follows
          cases hcall
          exact ⟨hreads set rfl, ⟨set, rfl, .release hheld hdeleting rfl⟩,
            fun answer => ⟨_, rfl⟩⟩
      | active | draining =>
          have huses := uses_proceed_keepsFinalizers suffix set runners (by simp [hteardown])
          exact absurd rfl ((follows.uses huses).2.1 k finalizers)

/-! ## What is stored meanwhile -/

namespace Scene

/-- Somebody else may say by which finalizers a set is held. -/
def Event.Refinalizes (key : String) : Event → Prop
  | .other _ op => op.Refinalizes key
  | _ => False

/-- The write of finalizers that the pass is about to make: to which set, and which ones. -/
def intent (sc : Scene) : Option (String × List String) :=
  match sc.pass with
  | some (.call (.setFinalizers key finalizers) _) => some (key, finalizers)
  | _ => none

theorem of_intent {sc : Scene} {k : String} {finalizers : List String}
    (h : sc.intent = some (k, finalizers)) :
    ∃ next, sc.pass = some (.call (.setFinalizers k finalizers) next) := by
  unfold intent at h
  split at h
  · rename_i next hpass
    cases h
    exact ⟨next, hpass⟩
  · cases h

/-- While a pass is in progress, its set holds the finalizers that the pass has read. -/
def AsRead (key : String) (sc : Scene) : Prop :=
  sc.InProgress → ∀ read, firstRead sc.calls = some read → ∀ set, sc.store.getSet key = some set →
    set.metadata.finalizers = read.metadata.finalizers

/-- A pass that has read nothing makes no difference. -/
theorem asRead_of_nil {key : String} {sc : Scene} (h : sc.calls = []) : sc.AsRead key := by
  intro _ read hread
  rw [h] at hread
  cases hread

/-- A set holds what the pass has read, unless others write finalizers. -/
theorem AsRead.step {key : String} {sc : Scene} (h : sc.AsRead key) (hs : sc.Sound key)
    {event : Event} (hevent : ¬ event.Refinalizes key) : (sc.step key event).AsRead key := by
  have hnext := next_step key sc event
  generalize sc.step key event = after at hnext
  cases hnext with
  | idle => exact h
  | other stamp op =>
      intro hprogress read hread set hset
      rw [getSet_perform] at hset
      obtain ⟨old, hold, hsame⟩ := finalizers_of_onSet hset hevent
      rw [hsame]
      exact h hprogress read hread old hold
  | begin suffix free => exact asRead_of_nil rfl
  | @answer _ c next answer after hpass hanswered =>
      rintro ⟨c', next', hgoesOn⟩ read hread set hset
      obtain ⟨suffix, hmidway⟩ := hs.midway hpass
      rcases hs.firstRead_answer hpass hanswered hread with hbefore | ⟨rfl, hfound⟩
      · have hunchanged : ∀ op, c.operation? = some op → ¬ op.Refinalizes key := by
          rintro op hop hrefinalizes
          cases c with
          | setFinalizers k finalizers =>
              -- a pass that has written finalizers does not go on
              obtain ⟨-, -, hover⟩ := hmidway.due.intends fun _ => hs.key_of_firstRead
              obtain ⟨result, hresult⟩ := hover answer
              rw [hresult] at hgoesOn
              cases hgoesOn
          | _ => cases hop <;> exact hrefinalizes
        obtain ⟨old, hold, hsame⟩ : ∃ old, sc.store.getSet key = some old ∧
            set.metadata.finalizers = old.metadata.finalizers := by
          rcases hanswered.store with rfl | ⟨op, stamp, hop, rfl⟩
          · exact ⟨set, hset, rfl⟩
          · rw [getSet_perform] at hset
            exact finalizers_of_onSet hset (hunchanged op hop)
        rw [hsame]
        exact h ⟨c, next, hpass⟩ read hbefore old hold
      · -- the set is read just now
        rw [Option.some.inj (hset.symm.trans hfound)]
  | abandon => exact fun ⟨_, _, hpass⟩ => nomatch hpass

end Scene

/-! ## The write -/

/-- From one store to the next nobody else's finalizer on a set is lost, be it with the set, and
none is brought back. -/
def OthersKept (key : String) (before after : Store) : Prop :=
  ∀ f, f ≠ RunnerSet.finalizer → (f ∈ before.finalizersOf key ↔ f ∈ after.finalizersOf key)

/-- What a pass that has read this set makes of the store by writing these finalizers. -/
structure Overwrites (key : String) (read : RunnerSet) (finalizers : List String)
    (before after : Store) : Prop where
  /-- Others' finalizers are those that the pass has read, whatever they were before. -/
  others : ∀ f, f ≠ RunnerSet.finalizer →
    (f ∈ after.finalizersOf key ↔ (before.getSet key).isSome ∧ f ∈ read.metadata.finalizers)
  /-- Nothing else of the set changes but its version. -/
  stays : ∀ new, after.getSet key = some new → ∃ old, before.getSet key = some old ∧
    new =
      { old with
        metadata :=
          { old.metadata with
            finalizers
            resourceVersion := old.metadata.resourceVersion + 1 } }
  /-- The set leaves only if its removal was requested, and nothing is to hold it. -/
  leaves : ∀ old, before.getSet key = some old → after.getSet key = none →
    old.metadata.isDeleting = true ∧ finalizers = []
  sets : ∀ k, k ≠ key → after.getSet k = before.getSet k
  runners : ∀ k, after.runners.get? k = before.runners.get? k

theorem overwrites_perform {key : String} {read : RunnerSet} {finalizers : List String}
    {calls : List Exchange} (h : Intends calls read finalizers) (s : Store) (stamp : Stamp) :
    Overwrites key read finalizers s
      (s.perform stamp (.setSetFinalizers key finalizers)).store where
  others f hf := by rw [mem_finalizersOf_setSetFinalizers, h.mem_iff hf]
  stays new hnew := by
    rw [getSet_perform, Operation.onSet, if_pos rfl] at hnew
    obtain ⟨old, hold, hchanged⟩ := Option.bind_eq_some_iff.1 hnew
    exact ⟨old, hold, eq_of_changed? hchanged⟩
  leaves old hold hgone := by
    rw [getSet_perform, Operation.onSet, if_pos rfl, hold, Option.bind_some] at hgone
    exact gone_of_changed? hgone
  sets k hk := by rw [getSet_perform, Operation.onSet, if_neg hk]
  runners k := by rw [getRunner_perform]; rfl

/-- Others' finalizers are kept exactly if the set holds those that the pass has read. -/
theorem Overwrites.othersKept_iff {key : String} {read : RunnerSet} {finalizers : List String}
    {before after : Store} (h : Overwrites key read finalizers before after) :
    OthersKept key before after ↔ ∀ set, before.getSet key = some set →
      ∀ f, f ≠ RunnerSet.finalizer →
        (f ∈ set.metadata.finalizers ↔ f ∈ read.metadata.finalizers) := by
  constructor
  · intro hkept set hset f hf
    have hiff := (hkept f hf).trans (h.others f hf)
    rw [finalizersOf_some hset, hset] at hiff
    simpa using hiff
  · intro hsame f hf
    rw [h.others f hf]
    cases hset : before.getSet key with
    | none => simp [finalizersOf_none hset]
    | some set => simpa [finalizersOf_some hset] using hsame set hset f hf

namespace Scene

/-- A pass that is about to write finalizers, after any events, writes those that it has read, with
its own added or released, and is over afterwards.  The write replaces what is stored: it keeps the
finalizers of others exactly if these are by then as the pass has read them.  They are so if nobody
else has written finalizers of the set, or created it, since a moment before the reading; requests
for its removal and other operations do no harm. -/
theorem finalizers_written_as_read (key : String) (events : List Event) (k : String)
    (finalizers : List String) (h : (run key events).intent = some (k, finalizers)) :
    k = key ∧ ∃ read, firstRead (run key events).calls = some read ∧
      Intends (run key events).calls read finalizers ∧
      ∀ service stamp,
        Overwrites key read finalizers (run key events).store
          (run key (events ++ [.serve service stamp])).store ∧
        (OthersKept key (run key events).store
            (run key (events ++ [.serve service stamp])).store ↔
          ∀ set, (run key events).store.getSet key = some set → ∀ f, f ≠ RunnerSet.finalizer →
            (f ∈ set.metadata.finalizers ↔ f ∈ read.metadata.finalizers)) ∧
        (∀ earlier later, events = earlier ++ later → (run key earlier).calls = [] →
          (∀ event ∈ later, ¬ event.Refinalizes key) →
          OthersKept key (run key events).store
            (run key (events ++ [.serve service stamp])).store) ∧
        ¬ (run key (events ++ [.serve service stamp])).InProgress := by
  have hs := sound_run key events
  obtain ⟨next, hpass⟩ := of_intent h
  obtain ⟨suffix, hmidway⟩ := hs.midway hpass
  obtain ⟨rfl, ⟨read, hread, hintends⟩, hover⟩ :=
    hmidway.due.intends fun _ => hs.key_of_firstRead
  refine ⟨rfl, read, hread, hintends, fun service stamp => ?_⟩
  rw [run_concat, step_serve k hpass]
  have hwrite : Overwrites k read finalizers _ _ :=
    overwrites_perform hintends (run k events).store stamp
  refine ⟨hwrite, hwrite.othersKept_iff, ?_, ?_⟩
  · rintro earlier later rfl hunread hlater
    have hasRead : (run k (earlier ++ later)).AsRead k := by
      rw [run_append]
      exact (sound_run k earlier).keeps (fun _ _ hs hkept (_ : True) => hkept.step hs)
        (asRead_of_nil hunread) (fun _ _ => trivial) hlater
    refine hwrite.othersKept_iff.2 fun set hset f _ => ?_
    rw [hasRead ⟨_, next, hpass⟩ read hread set hset]
  · rintro ⟨c, rest, hcall⟩
    obtain ⟨result, hresult⟩ := hover
      ((Call.setFinalizers k finalizers).perform service stamp (run k events).store).answer
    rw [hresult] at hcall
    cases hcall

/-- A finalizer of somebody else. -/
def foreign : String :=
  "example.com/backup"

/-- A set for examples that is held by these finalizers. -/
def heldBy (finalizers : List String) : RunnerSet where
  metadata := { name := "set", namespaceName := "ns", finalizers }
  spec := { replicas := 0, template := { image := "image" } }

/-- A set with a finalizer is read by a pass, and its removal is requested before the pass adds the
finalizer of the controller. -/
def condemnedMeanwhile : List Event :=
  [.other Stamp.sample (.createSet (heldBy [foreign])), .begin toString, serve,
    .other Stamp.sample (.deleteSet "ns/set")]

/-- The request for removal does no harm: the set holds both finalizers. -/
theorem condemnedMeanwhile_keeps :
    (run "ns/set" condemnedMeanwhile).intent =
      some ("ns/set", [foreign, RunnerSet.finalizer]) ∧
    OthersKept "ns/set" (run "ns/set" condemnedMeanwhile).store
      (run "ns/set" (condemnedMeanwhile ++ [serve])).store ∧
    (run "ns/set" (condemnedMeanwhile ++ [serve])).store.finalizersOf "ns/set" =
      [foreign, RunnerSet.finalizer] := by
  have hintent : (run "ns/set" condemnedMeanwhile).intent =
      some ("ns/set", [foreign, RunnerSet.finalizer]) := by decide +kernel
  obtain ⟨-, read, -, -, hwrite⟩ :=
    finalizers_written_as_read "ns/set" condemnedMeanwhile _ _ hintent
  obtain ⟨-, -, hkept, -⟩ := hwrite (fun _ => .ok ()) Stamp.sample
  refine ⟨hintent, hkept (condemnedMeanwhile.take 1) (condemnedMeanwhile.drop 1) rfl ?_ ?_, ?_⟩
  · rfl
  · intro event hevent
    simp only [condemnedMeanwhile, serve, List.drop_succ_cons, List.drop_zero, List.mem_cons,
      List.not_mem_nil, or_false] at hevent
    rcases hevent with rfl | rfl | rfl <;> exact id
  · decide +kernel

/-- A set is read by a pass, and somebody else adds a finalizer before the pass adds its own. -/
def overtaken : List Event :=
  [.other Stamp.sample (.createSet (heldBy [])), .begin toString, serve,
    .other Stamp.sample (.setSetFinalizers "ns/set" [foreign])]

/-- A set that is being removed is read and found without runners, and somebody else adds a
finalizer before the pass releases its own. -/
def overtakenRelease : List Event :=
  [.other Stamp.sample (.createSet (heldBy [RunnerSet.finalizer])),
    .other Stamp.sample (.deleteSet "ns/set"), .begin toString, serve, serve,
    .other Stamp.sample (.setSetFinalizers "ns/set" [RunnerSet.finalizer, foreign])]

/-- The finalizer that was added in between is lost with the write of the pass, and in the second
case the set leaves the store although it was held. -/
theorem overtaken_loses :
    ((run "ns/set" overtaken).intent = some ("ns/set", [RunnerSet.finalizer]) ∧
      ¬ OthersKept "ns/set" (run "ns/set" overtaken).store
        (run "ns/set" (overtaken ++ [serve])).store) ∧
    (run "ns/set" overtakenRelease).intent = some ("ns/set", []) ∧
    foreign ∈ (run "ns/set" overtakenRelease).store.finalizersOf "ns/set" ∧
    (run "ns/set" (overtakenRelease ++ [serve])).store.getSet "ns/set" = none := by
  refine ⟨⟨by decide +kernel, fun hkept => ?_⟩, by decide +kernel, by decide +kernel,
    by decide +kernel⟩
  have hheld : foreign ∈ (run "ns/set" overtaken).store.finalizersOf "ns/set" := by
    decide +kernel
  have hlost : foreign ∉ (run "ns/set" (overtaken ++ [serve])).store.finalizersOf "ns/set" := by
    decide +kernel
  exact hlost ((hkept foreign (by decide)).1 hheld)

end Scene
end Reconcile
end RunnerFleet
