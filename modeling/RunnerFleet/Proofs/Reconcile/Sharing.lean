import RunnerFleet.Proofs.Reconcile.Answers
import RunnerFleet.Proofs.Reconcile.Calls
import RunnerFleet.Proofs.Store.Custody

/-!
# Passes that share the store

A pass over a set relies on the others not to take the finalizer from this set, and not to create
runners for it.  In return it does neither to another set, takes the finalizer from its own only
when no runners are left, and creates runners only while its set holds the finalizer.

Main results:

- `Careful.custody`, `Careful.respects`: what a pass does keeps runners in custody, and leaves to
  the passes over other sets what they rely on.
- `Meets.stable`: what others do in between does not make a pass break its promise.
- `meets_pass`: a pass keeps its promise, whatever it finds in the store.
-/

namespace RunnerFleet
namespace Reconcile

open Program Store

/-! ## What others leave to a pass -/

/-- What others do to the store while a pass over a set is in progress. -/
structure Respects (key : String) (s s' : Store) : Prop where
  holds : s.Holds key → s'.Holds key
  childless : s.Childless key → s'.Childless key

theorem Respects.refl (key : String) (s : Store) : Respects key s s :=
  ⟨id, id⟩

theorem Respects.trans {key : String} {a b c : Store} (h : Respects key a b)
    (h' : Respects key b c) : Respects key a c :=
  ⟨h'.holds ∘ h.holds, h'.childless ∘ h.childless⟩

/-- An operation leaves a set alone if it neither releases nor populates it. -/
theorem respects_perform {key : String} {op : Operation} (s : Store) (stamp : Stamp)
    (hrelease : ¬ op.Releases key) (hpopulate : ¬ op.Populates key) :
    Respects key s (s.perform stamp op).store :=
  ⟨fun h => h.perform stamp hrelease, fun h => h.perform stamp hpopulate⟩

/-! ## What a pass promises -/

/-- The operation releases no set but this one, and it only without runners; it populates no set
but this one, and it only while it holds the finalizer. -/
structure Careful (key : String) (s : Store) (op : Operation) : Prop where
  releases : ∀ {k}, op.Releases k → k = key ∧ s.Childless key
  populates : ∀ {k}, op.Populates k → k = key ∧ s.Holds key

/-- A careful operation stays so while others respect the set. -/
theorem Careful.stable {key : String} {s s' : Store} {op : Operation} (h : Careful key s op)
    (hrespects : Respects key s s') : Careful key s' op where
  releases hrel := ⟨(h.releases hrel).1, hrespects.childless (h.releases hrel).2⟩
  populates hpop := ⟨(h.populates hpop).1, hrespects.holds (h.populates hpop).2⟩

/-- An operation that neither releases nor populates a set is careful. -/
theorem careful_of_harmless {op : Operation} (hrelease : ∀ k, ¬ op.Releases k)
    (hpopulate : ∀ k, ¬ op.Populates k) (key : String) (s : Store) : Careful key s op where
  releases hrel := absurd hrel (hrelease _)
  populates hpop := absurd hpop (hpopulate _)

/-- A careful operation keeps runners in custody. -/
theorem Careful.custody {key : String} {s : Store} {op : Operation} (h : Careful key s op)
    (hs : s.Custody) (stamp : Stamp) : (s.perform stamp op).store.Custody := by
  refine hs.perform stamp ?_ ?_
  · intro k hrel
    obtain ⟨rfl, hchildless⟩ := h.releases hrel
    exact hchildless
  · intro k hpop
    obtain ⟨rfl, hholds⟩ := h.populates hpop
    exact hholds

/-- An operation that is careful for one set leaves the others alone. -/
theorem Careful.respects {key other : String} {s : Store} {op : Operation} (h : Careful key s op)
    (hne : other ≠ key) (stamp : Stamp) : Respects other s (s.perform stamp op).store :=
  respects_perform s stamp (fun hrel => hne (h.releases hrel).1)
    fun hpop => hne (h.populates hpop).1

/-- The setting of a pass over a set: others act before each call is answered, with respect. -/
def sharing (key : String) : Setting Store where
  permits c s := ∀ op, c.operation? = some op → Careful key s op
  answers c s answer after :=
    ∃ between, Respects key s between ∧ between.Custody ∧ c.Answered between answer after

/-- What others do with respect leaves a program to keep its promise. -/
theorem Meets.stable {α : Type} {key : String} {p : Program α} {s s' : Store}
    (h : p.Meets (sharing key) (fun _ _ => True) s) (hrespects : Respects key s s') :
    p.Meets (sharing key) (fun _ _ => True) s' := by
  refine h.of_state (fun _ h => h) ?_ ?_
  · intro c hpermits op hop
    exact (hpermits op hop).stable hrespects
  · rintro c answer after ⟨between, hbetween, hcustody, hanswered⟩
    exact ⟨between, hrespects.trans hbetween, hcustody, hanswered⟩

/-- After an answer that is not a release, a set that held the finalizer still does. -/
theorem holds_of_answers {key : String} {c : Call} {s after : Store} {answer : c.Answer}
    (h : (sharing key).answers c s answer after) (hs : s.Holds key)
    (hrelease : ∀ op, c.operation? = some op → ¬ op.Releases key) : after.Holds key := by
  obtain ⟨between, hbetween, -, hanswered⟩ := h
  have hholds := hbetween.holds hs
  rcases hanswered.store with rfl | ⟨op, stamp, hop, rfl⟩
  · exact hholds
  · exact hholds.perform stamp (hrelease op hop)

/-! ## A pass keeps its promise -/

/-- The calls for a set that holds the finalizer are careful, and release nothing. -/
theorem careful_of_serves {set : RunnerSet} {runners : List Runner} {c : Call} {s : Store}
    (h : Call.Serves set runners c) (hs : s.Holds set.key) {op : Operation} (hop : c.operation? = some op) :
    Careful set.key s op ∧ ∀ k, ¬ op.Releases k := by
  cases h with
  | createRunner suffix wanted =>
      injection hop with hop
      subst hop
      refine ⟨⟨fun hrel => absurd hrel id, fun hpop => ?_⟩, fun k => id⟩
      have howner := (newRunner_ownerKey set suffix).symm.trans hpop
      exact ⟨(Option.some.inj howner).symm, hs⟩
  | deregister runnerId => cases hop
  | _ =>
      injection hop with hop
      subst hop
      exact ⟨careful_of_harmless (fun k => id) (fun k => id) _ _, fun k => id⟩

/-- A program that serves a set which holds the finalizer keeps the promise. -/
theorem Uses.meets_sharing {α : Type} {set : RunnerSet} {runners : List Runner} {p : Program α}
    {s : Store} (hp : p.Uses (Call.Serves set runners)) (hs : s.Holds set.key) :
    p.Meets (sharing set.key) (fun _ _ => True) s := by
  have hmeets := hp.meets (m := sharing set.key) (fun s => s.Holds set.key) ?_ ?_ hs
  · exact hmeets.mono fun _ _ _ => trivial
  · intro c s hserves hs op hop
    exact (careful_of_serves hserves hs hop).1
  · intro c s answer after hserves hs hanswers
    exact holds_of_answers hanswers hs fun op hop => (careful_of_serves hserves hs hop).2 _

/-- The part of a pass that comes after its reads keeps the promise. -/
theorem meets_proceed (suffix : Nat → String) {set : RunnerSet} {s : Store} (hs : s.Holds set.key)
    (hcustody : s.Custody) :
    (proceed suffix set (s.runnersOf set.key)).Meets (sharing set.key) (fun _ _ => True) s := by
  rw [proceed]
  split
  · exact Uses.meets_sharing (uses_converge set suffix _) hs
  · exact Uses.meets_sharing (uses_drain set (fun _ => .deleteRunner) .deregister) hs
  · rename_i hremovable
    have hchildless : s.Childless set.key :=
      hcustody.toKeyed.childless_of_nil (eq_nil_of_removable hremovable)
    refine ⟨?_, fun _ _ _ => trivial⟩
    intro op hop
    injection hop with hop
    subst hop
    exact ⟨fun hrel => ⟨hrel.1.symm, hchildless⟩, fun hpop => absurd hpop id⟩

/-- A pass keeps its promise, whatever it finds in the store. -/
theorem meets_pass (suffix : Nat → String) (key : String) (s : Store) :
    (pass suffix key).Meets (sharing key) (fun _ _ => True) s := by
  have hread : ∀ (s : Store) (op : Operation), op = .getSet key ∨ op = .listRunners key →
      Careful key s op := by
    rintro s op (rfl | rfl) <;> exact careful_of_harmless (fun k => id) (fun k => id) _ _
  rw [pass, meets_bind]
  refine ⟨fun op hop => hread s op (Or.inl (Option.some.inj hop).symm), ?_⟩
  rintro (e | _ | set) found ⟨between, -, hcustody, hanswered⟩
  · exact trivial
  · exact trivial
  · obtain ⟨rfl, hset⟩ := hanswered.getSet
    obtain rfl : set.key = key := hcustody.set hset
    change Meets _ _ (if set.hasFinalizer then _ else _) _
    split
    · rename_i hfinalizer
      have hholds : found.Holds set.key := ⟨set, hset, hfinalizer⟩
      rw [meets_bind]
      refine ⟨fun op hop => hread found op (Or.inr (Option.some.inj hop).symm), ?_⟩
      rintro (e | runners) listed ⟨between, hbetween, hcustody, hanswered⟩
      · exact trivial
      · obtain ⟨rfl, rfl⟩ := hanswered.listRunners
        exact meets_proceed suffix (hbetween.holds hholds) hcustody
    · split
      · exact trivial
      · rw [meets_bind]
        refine ⟨?_, fun _ _ _ => trivial⟩
        intro op hop
        injection hop with hop
        subst hop
        exact ⟨fun hrel => absurd (mem_withFinalizer.2 (Or.inr rfl)) hrel.2,
          fun hpop => absurd hpop id⟩

end Reconcile
end RunnerFleet
