import RunnerFleet.Proofs.Reconcile.Resilience
import RunnerFleet.Proofs.Reconcile.Steady

/-!
# Calls to a store that nobody else writes to

A chronicle has the calls that were made one after the other, with their answers, between two states
of a store that nobody else writes to.  Each call was carried out, or failed without effect.  What a
pass does is told by a transcript of it that is a chronicle of the store.

Main results:

- `chronicle_append`: the store between calls in a row.
- `chronicle_exchanges`: what happens in an environment is a chronicle of its store.
- `Chronicle.getSet_eq`: calls that do not write to a runner set leave all of them alone.
- `opening_of_chronicle`: a pass over a stored set that it holds goes by what is stored.
-/

namespace RunnerFleet
namespace Reconcile

open Program Store

/-- These calls, answered like this, lead from one store to the other while nobody else writes. -/
inductive Chronicle : Store → List Exchange → Store → Prop where
  | nil (s : Store) : Chronicle s [] s
  | cons {s mid after : Store} {c : Call} {answer : c.Answer} {t : List Exchange}
      (answered : c.Answered s answer mid) (rest : Chronicle mid t after) :
      Chronicle s (⟨c, answer⟩ :: t) after

variable {s mid after : Store} {t t' : List Exchange} {c : Call}

@[simp]
theorem chronicle_nil : Chronicle s [] after ↔ after = s := by
  constructor
  · intro h
    cases h
    rfl
  · rintro rfl
    exact .nil after

@[simp]
theorem chronicle_cons {answer : c.Answer} :
    Chronicle s (⟨c, answer⟩ :: t) after ↔
      ∃ mid, c.Answered s answer mid ∧ Chronicle mid t after := by
  constructor
  · intro h
    cases h with
    | cons answered rest => exact ⟨_, answered, rest⟩
  · rintro ⟨mid, answered, rest⟩
    exact .cons answered rest

theorem chronicle_singleton {answer : c.Answer} :
    Chronicle s [⟨c, answer⟩] after ↔ c.Answered s answer after := by
  simp

/-- Between calls in a row there is a store that the first lead to, and from which the others go
on. -/
theorem chronicle_append :
    Chronicle s (t ++ t') after ↔ ∃ mid, Chronicle s t mid ∧ Chronicle mid t' after := by
  induction t generalizing s with
  | nil => simp
  | cons e t ih =>
      obtain ⟨c, answer⟩ := e
      simp only [List.cons_append, chronicle_cons, ih]
      constructor
      · rintro ⟨first, hfirst, mid, ht, ht'⟩
        exact ⟨mid, ⟨first, hfirst, ht⟩, ht'⟩
      · rintro ⟨mid, ⟨first, hfirst, ht⟩, ht'⟩
        exact ⟨first, hfirst, mid, ht, ht'⟩

/-- What every call keeps, a chronicle keeps. -/
theorem Chronicle.keeps (h : Chronicle s t after) (inv : Store → Prop)
    (hstep : ∀ (c : Call) (answer : c.Answer) (s mid : Store), ⟨c, answer⟩ ∈ t →
      c.Answered s answer mid → inv s → inv mid)
    (hs : inv s) : inv after := by
  induction h with
  | nil s => exact hs
  | cons answered _ ih =>
      refine ih ?_ (hstep _ _ _ _ List.mem_cons_self answered hs)
      intro c answer s mid he
      exact hstep c answer s mid (List.mem_cons_of_mem _ he)

theorem Chronicle.keyed (h : Chronicle s t after) (hs : s.Keyed) : after.Keyed :=
  h.keeps Store.Keyed (fun _ _ _ _ _ answered hmid => answered.keyed hmid) hs

theorem Chronicle.reachable (h : Chronicle s t after) (hs : s.Reachable) : after.Reachable :=
  h.keeps Store.Reachable (fun _ _ _ _ _ answered hmid => answered.reachable hmid) hs

/-- What happens in an environment is a chronicle of its store. -/
theorem chronicle_exchanges {α : Type} (p : Program α) (env : Environment) :
    Chronicle env.store (p.exchanges Environment.answer env)
      (p.run Environment.answer env).2.store := by
  induction p generalizing env with
  | done value => exact .nil _
  | call c next ih => exact .cons (answered_answer c env) (ih _ _)

/-! ## What calls leave alone -/

/-- Calls that do not write to a runner set. -/
def Call.KeepsSets : Call → Prop
  | .updateStatus _ _ | .setFinalizers _ _ => False
  | _ => True

theorem Call.Answered.getSet_eq {answer : c.Answer} (h : c.Answered s answer after)
    (hc : c.KeepsSets) (key : String) : after.getSet key = s.getSet key := by
  rcases h.store with rfl | ⟨op, stamp, hop, rfl⟩
  · rfl
  · rw [getSet_perform]
    cases c with
    | updateStatus | setFinalizers => exact hc.elim
    | deregister runnerId => cases hop
    | getSet | listRunners | createRunner | deleteRunner =>
        obtain rfl := Option.some.inj hop
        rfl

/-- Calls that do not write to a runner set leave all of them as they were. -/
theorem Chronicle.getSet_eq (h : Chronicle s t after) (ht : ∀ e ∈ t, e.call.KeepsSets)
    (key : String) : after.getSet key = s.getSet key := by
  refine h.keeps (fun now => now.getSet key = s.getSet key) ?_ rfl
  intro c answer now mid he answered hnow
  rw [answered.getSet_eq (ht _ he), hnow]

/-- Calls that do not write leave the store as it was. -/
theorem Chronicle.eq_of_reads (h : Chronicle s t after) (ht : ∀ e ∈ t, e.call.isWrite = false) :
    after = s := by
  refine h.keeps (fun now => now = s) ?_ rfl
  rintro c answer now mid he answered rfl
  refine answered.store_eq fun op hop => ?_
  have hread := ht _ he
  cases c with
  | getSet | listRunners =>
      obtain rfl := Option.some.inj hop
      rfl
  | deregister runnerId => cases hop
  | createRunner | deleteRunner | updateStatus | setFinalizers => cases hread

/-- The calls by which a pass changes its fleet, and those by which it looks, do not write to a
runner set. -/
theorem Call.Changes.keepsSets (h : c.Changes) : c.KeepsSets := by
  cases c with
  | createRunner | deleteRunner | deregister => trivial
  | _ => exact h.elim

/-! ## How a pass begins -/

/-- A pass over a stored set that it holds goes by the set and the runners that are stored, unless a
read fails: then it writes nothing and reports the failure. -/
theorem opening_of_chronicle {suffix : Nat → String} {key : String} {set : RunnerSet}
    {result : Except Error Unit} (hset : s.getSet key = some set) (hheld : set.hasFinalizer = true)
    (h : (pass suffix key).Leads t (done result)) (hc : Chronicle s t after) :
    ((∃ error, result = .error error) ∧ (∃ e ∈ t, e.accepted = false) ∧
      ∀ e ∈ t, e.call.isWrite = false) ∨
    ∃ rest, t = ⟨.getSet key, .ok (some set)⟩ :: ⟨.listRunners key, .ok (s.runnersOf key)⟩ :: rest ∧
      (proceed suffix set (s.runnersOf key)).Leads rest (done result) ∧ Chronicle s rest after := by
  have hread : ∀ {found mid}, (Call.getSet key).Answered s (.ok found) mid →
      mid = s ∧ found = some set := by
    intro found mid hfound
    obtain ⟨hmid, hstored⟩ := hfound.getSet
    exact ⟨hmid, hstored.symm.trans hset⟩
  generalize hq : (done result : Program (Except Error Unit)) = q at h
  cases midway_of_leads h with
  | opening =>
      obtain ⟨next, hnext, -⟩ := pass_opens suffix key
      cases hq.trans hnext
  | unread e =>
      cases hq
      exact Or.inl ⟨⟨_, rfl⟩, ⟨_, List.mem_cons_self, rfl⟩, by simp [Call.isWrite]⟩
  | missing =>
      obtain ⟨mid, hfound, -⟩ := chronicle_cons.1 hc
      cases (hread hfound).2
  | released unheld =>
      obtain ⟨mid, hfound, -⟩ := chronicle_cons.1 hc
      cases (hread hfound).2
      cases unheld.symm.trans hheld
  | adding unheld =>
      obtain ⟨mid, hfound, -⟩ := chronicle_cons.1 hc
      cases (hread hfound).2
      cases unheld.symm.trans hheld
  | listing => cases hq
  | unlisted held e =>
      cases hq
      refine Or.inl ⟨⟨_, rfl⟩, ⟨_, List.mem_cons_of_mem _ List.mem_cons_self, rfl⟩, ?_⟩
      simp [Call.isWrite]
  | acting held follows =>
      obtain ⟨first, hfound, hlisting⟩ := chronicle_cons.1 hc
      obtain ⟨rfl, hsame⟩ := hread hfound
      cases hsame
      obtain ⟨second, hlisted, hrest⟩ := chronicle_cons.1 hlisting
      obtain ⟨rfl, rfl⟩ := hlisted.listRunners
      subst hq
      exact Or.inr ⟨_, rfl, follows, hrest⟩

end Reconcile
end RunnerFleet
