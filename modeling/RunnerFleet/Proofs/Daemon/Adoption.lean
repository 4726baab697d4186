import RunnerFleet.Proofs.Daemon.Collisions
import RunnerFleet.Proofs.Fleet.Groups

/-!
# Decisions that count as carried out

A pass takes the stored decision for carried out if its id is the latest that a runner bears.  That
is right within one lifetime.  Across lifetimes ids are given again, and a decision may be taken for
carried out because of runners that were created for another one.

Main results:

- `Sound.carriedOut_within`: no decision is mistaken for another one of its own lifetime.
- `carriedOut_iff`: decisions are never mistaken exactly if all of them ask for the same number.
-/

namespace RunnerFleet
namespace Daemon

open Reconcile Store

namespace Lives

/-- Where the stored decision counts as carried out, every runner that bears its id was created by
a pass that had read something in agreement with the number asked for. -/
def CarriedOut (plan : Plan) (l : Lives) (agrees : Origin → Nat → Prop) : Prop :=
  ∀ set, l.store.getSet plan.key = some set →
    (Fleet.classify (l.store.runnersOf plan.key)).isAdopted set.spec.patchId = true →
    ∀ r ∈ l.store.runnersOf plan.key, r.patchId = some set.spec.patchId →
      ∃ o, l.origins.get? (runnerKey plan.key r.name) = some o ∧ agrees o set.spec.replicas

variable {plan : Plan} {l : Lives} {set : RunnerSet}

/-- A runner with the stored id was created for a decision that was written, and is either the same
as the stored one or of an earlier lifetime. -/
theorem Sound.origin (h : Sound plan l) (hset : l.store.getSet plan.key = some set) {r : Runner}
    (hr : r ∈ l.store.runnersOf plan.key) (hid : r.patchId = some set.spec.patchId) :
    ∃ o ∈ l.written, l.origins.get? (runnerKey plan.key r.name) = some o ∧
      0 < o.patch.replicas ∧ l.current ∈ l.written ∧
      l.current.patch.replicas = set.spec.replicas ∧ o.lifetime ≤ l.current.lifetime ∧
      (o.lifetime = l.current.lifetime → o.patch.replicas = set.spec.replicas) := by
  obtain ⟨howner, hget⟩ := h.keyed.mem_runnersOf.1 hr
  obtain ⟨o, ho, horigin, hpos, hpatch⟩ := h.ledger _ r hget howner
  obtain ⟨set', hset', -, hreplicas, hcurrent⟩ := h.asks
  obtain rfl : set' = set := Option.some.inj (hset'.symm.trans hset)
  have hmem : l.current ∈ l.written := by
    refine h.chronicle.last.resolve_right ?_
    rintro ⟨hnone, -⟩
    rw [hnone] at ho
    cases ho
  refine ⟨o, ho, horigin, hpos, hmem, hreplicas.symm, h.chronicle.notAfter o ho, fun hsame => ?_⟩
  rw [hreplicas]
  exact h.chronicle.consistent o ho l.current hmem hsame
    ((hpatch _ hid).symm.trans hcurrent)

/-- No decision is mistaken for another one of its own lifetime. -/
theorem Sound.carriedOut_within (h : Sound plan l) :
    l.CarriedOut plan fun o replicas =>
      o.lifetime = l.current.lifetime → o.patch.replicas = replicas := by
  intro set hset _ r hr hid
  obtain ⟨o, -, horigin, -, -, -, -, hwithin⟩ := h.origin hset hr hid
  exact ⟨o, horigin, hwithin⟩

/-- Where all decisions ask for the same number, none is mistaken. -/
theorem Sound.carriedOut (h : Sound plan l)
    (hplan : ∀ earlier later, earlier < later → ∀ a a', 0 < (plan.bounds earlier).target a →
      (plan.bounds earlier).target a = (plan.bounds later).target a') :
    l.CarriedOut plan fun o replicas => o.patch.replicas = replicas := by
  intro set hset _ r hr hid
  obtain ⟨o, ho, horigin, hpos, hcurrent, hreplicas, hle, hwithin⟩ := h.origin hset hr hid
  refine ⟨o, horigin, ?_⟩
  rcases Nat.lt_or_eq_of_le hle with hlt | hsame
  · obtain ⟨a, ha⟩ := h.chronicle.target o ho
    obtain ⟨a', ha'⟩ := h.chronicle.target l.current hcurrent
    have hagree := hplan o.lifetime l.current.lifetime hlt a a' (ha ▸ hpos)
    rw [ha, hagree, ← ha', hreplicas]
  · exact hwithin hsame

/-- A decision whose id is borne by the only runner there is counts as carried out. -/
theorem Bears.adopted {r : Runner} {o : Origin} (h : Bears plan l r o) (hkeyed : l.store.Keyed) :
    r ∈ l.store.runnersOf plan.key ∧
      (Fleet.classify (l.store.runnersOf plan.key)).isAdopted 0 = true := by
  have hr : r ∈ l.store.runnersOf plan.key :=
    hkeyed.mem_runnersOf.2 ⟨h.owner, (h.only _).trans (if_pos rfl)⟩
  refine ⟨hr, Fleet.isAdopted_classify_iff.2 ⟨⟨r, hr, h.patchId⟩, ?_⟩⟩
  intro r' hr' id hid
  have hget := (hkeyed.mem_runnersOf.1 hr').2
  rw [h.only] at hget
  split at hget
  · obtain rfl : r = r' := Option.some.inj hget
    exact Int.le_of_eq (Option.some.inj (hid.symm.trans h.patchId))
  · cases hget

/-- If a decision is not mistaken in a collision, then both lifetimes ask for the same number. -/
theorem target_eq_of_carriedOut (plan : Plan) (suffix : Nat → String) (service : Actions.Service)
    (stamp : Stamp) (earlier between a a' : Nat) (hwanted : 0 < (plan.bounds earlier).target a)
    (h : (run plan stamp (collision suffix service stamp earlier between a a')).CarriedOut plan
      fun o replicas => o.patch.replicas = replicas) :
    (plan.bounds earlier).target a = (plan.bounds (earlier + 1 + between)).target a' := by
  have hsound := sound_run plan stamp (collision suffix service stamp earlier between a a')
  obtain ⟨set, r, l, hrun, hrests, hid, hreplicas, hbears⟩ :=
    collision_result plan suffix service stamp earlier between a a' hwanted
  rw [hrun] at h hsound
  obtain ⟨hr, hadopted⟩ := hbears.adopted hsound.keyed
  rw [← hid] at hadopted
  obtain ⟨o, ho, hagrees⟩ := h set hrests.stored hadopted r hr (hid ▸ hbears.patchId)
  obtain rfl := Option.some.inj (hbears.origin.symm.trans ho)
  exact hagrees.trans hreplicas

/-- No decision is mistaken for another one of its own lifetime.  None is ever mistaken exactly if
a number that one lifetime may ask for, other than zero, is the only one that all later lifetimes
may ask for. -/
theorem carriedOut_iff (plan : Plan) (stamp : Stamp) :
    (∀ events, (run plan stamp events).CarriedOut plan fun o replicas =>
      o.lifetime = (run plan stamp events).current.lifetime → o.patch.replicas = replicas) ∧
    ((∀ events, (run plan stamp events).CarriedOut plan fun o replicas =>
        o.patch.replicas = replicas) ↔
      ∀ earlier later, earlier < later → ∀ a a', 0 < (plan.bounds earlier).target a →
        (plan.bounds earlier).target a = (plan.bounds later).target a') := by
  refine ⟨fun events => (sound_run plan stamp events).carriedOut_within, ?_, ?_⟩
  · intro h earlier later hlt a a' hwanted
    obtain ⟨between, rfl⟩ := Nat.exists_eq_add_of_le (Nat.succ_le_of_lt hlt)
    exact target_eq_of_carriedOut plan toString (fun _ => .ok ()) stamp earlier between a a'
      hwanted (h _)
  · intro hplan events
    exact (sound_run plan stamp events).carriedOut hplan

/-- No decision of a set with a fixed size is mistaken. -/
theorem carriedOut_fixedSize : ∀ events,
    (run (samePlan 2 2) Stamp.sample events).CarriedOut (samePlan 2 2)
      fun o replicas => o.patch.replicas = replicas := by
  refine (carriedOut_iff (samePlan 2 2) Stamp.sample).2.2 ?_
  intro earlier later _ a a' _
  have htarget : ∀ lifetime a, ((samePlan 2 2).bounds lifetime).target a = 2 := by
    intro lifetime a
    change min (max _ 2) 2 = 2
    omega
  rw [htarget, htarget]

/-- The first daemon asks for one runner and the next one for three, and the one runner that is
there counts for them. -/
theorem restart_mistaken :
    ¬ (run (samePlan 0 5) Stamp.sample
      (collision toString (fun _ => .ok ()) Stamp.sample 0 0 1 3)).CarriedOut (samePlan 0 5)
        fun o replicas => o.patch.replicas = replicas := by
  intro h
  have hequal := target_eq_of_carriedOut (samePlan 0 5) toString (fun _ => .ok ()) Stamp.sample
    0 0 1 3 (by decide +kernel) h
  exact absurd hequal (by decide +kernel)

end Lives
end Daemon
end RunnerFleet
