import RunnerFleet.Scaling.Listener
import RunnerFleet.Proofs.Scaling.Decision

/-!
# Every decision is written once

A listener takes one report after another, and any write of a decision may fail.  The decisions do
not depend on that.  Those that are written have increasing ids, a listener that answers without a
fault has written its last decision, and one that answers with a fault tries again at the next
report, whatever this report says.

All of this rests on the decisions alone: their ids never decrease, and two decisions with one id
are the same.  A listener therefore may skip a decision that equals the one it wrote last, and never
writes it again once there was another one.

Main results:

- `precedes_next`, `pairwise_decisions`: decisions in a row.
- `turn_makes`: what a listener may make of a report.
- `Accounts.makes`, `Accounts.after`: what is known of the decisions that were written.
- `decisions_written_once`: all of this for a new listener and whatever it is sent.
-/

namespace RunnerFleet
namespace Scaling

/-! ## Decisions in a row -/

/-- A decision may come before another one: its id is not above, and is the same only if the
decision is. -/
structure Precedes (p q : ScalePatch) : Prop where
  patchId : p.patchId ≤ q.patchId
  eq : p.patchId = q.patchId → p = q

namespace Precedes

variable {p q r : ScalePatch}

theorem trans (hpq : Precedes p q) (hqr : Precedes q r) : Precedes p r := by
  refine ⟨Int.le_trans hpq.patchId hqr.patchId, fun h => ?_⟩
  have hid : p.patchId = q.patchId := Int.le_antisymm hpq.patchId (h ▸ hqr.patchId)
  exact (hpq.eq hid).trans (hqr.eq (hid ▸ h))

theorem antisymm (hpq : Precedes p q) (hqp : Precedes q p) : p = q :=
  hpq.eq (Int.le_antisymm hpq.patchId hqp.patchId)

theorem lt_of_ne (h : Precedes p q) (hne : p ≠ q) : p.patchId < q.patchId :=
  Std.lt_of_le_of_ne h.patchId fun hid => hne (h.eq hid)

end Precedes

/-- The last decision, if any, asks for a target. -/
def AsksForTarget (b : Bounds) (last : Option ScalePatch) : Prop :=
  ∀ p, last = some p → ∃ a, p.replicas = b.target a

section Next

variable {b : Bounds} {last : Option ScalePatch}

theorem AsksForTarget.next (h : AsksForTarget b last) (batch : JobBatch) :
    AsksForTarget b (some (next b last batch)) := by
  rintro _ ⟨⟩
  cases last with
  | none => exact ⟨batch.acquired, rfl⟩
  | some p => exact next_some_replicas b (h p rfl) batch

/-- A decision comes before the next one. -/
theorem precedes_next (h : AsksForTarget b last) {p : ScalePatch} (hp : last = some p)
    (batch : JobBatch) : Precedes p (next b last batch) := by
  subst hp
  obtain ⟨hle, hreplicas⟩ := next_some_patchId b (h p rfl) batch
  refine ⟨hle, fun hid => ?_⟩
  have hsame := hreplicas hid
  generalize next b (some p) batch = q at hid hsame
  cases p
  cases q
  exact ScalePatch.mk.injEq .. ▸ ⟨hsame, hid⟩

end Next

/-- The first decision has the id zero, and every other one the id before it or the one after. -/
theorem next_patchId_cases (b : Bounds) (last : Option ScalePatch) (batch : JobBatch) :
    last = none ∧ (next b last batch).patchId = 0 ∨
      ∃ p, last = some p ∧ ((next b last batch).patchId = p.patchId ∨
        (next b last batch).patchId = p.patchId + 1) := by
  cases last with
  | none => exact .inl ⟨rfl, rfl⟩
  | some p =>
      refine .inr ⟨p, rfl, ?_⟩
      rw [next]
      split
      · dsimp only
        split
        · exact .inr rfl
        · exact .inl rfl
      · exact .inr rfl

/-- The decisions that these reports lead to, after a last one. -/
def decisions (b : Bounds) : Option ScalePatch → List JobBatch → List ScalePatch
  | _, [] => []
  | last, batch :: rest => next b last batch :: decisions b (some (next b last batch)) rest

/-- A decision comes before all later ones. -/
theorem precedes_of_mem_decisions {b : Bounds} {last : Option ScalePatch}
    (h : AsksForTarget b last) {p : ScalePatch} (hp : last = some p) (batches : List JobBatch) :
    ∀ q ∈ decisions b last batches, Precedes p q := by
  induction batches generalizing last p with
  | nil => simp [decisions]
  | cons batch rest ih =>
      have hnext := precedes_next h hp batch
      rw [decisions, List.forall_mem_cons]
      exact ⟨hnext, fun q hq => hnext.trans (ih (h.next batch) rfl q hq)⟩

/-- Among decisions in a row, the ids never decrease, and one id means one decision. -/
theorem pairwise_decisions {b : Bounds} {last : Option ScalePatch} (h : AsksForTarget b last)
    (batches : List JobBatch) : (decisions b last batches).Pairwise Precedes := by
  induction batches generalizing last with
  | nil => exact .nil
  | cons batch rest ih =>
      exact .cons (precedes_of_mem_decisions (h.next batch) rfl rest) (ih (h.next batch))

/-- Ids are counted from zero and stay below the number of reports, so that they fit where the
reports can be counted. -/
theorem patchId_of_mem_decisions {b : Bounds} {last : Option ScalePatch} (batches : List JobBatch)
    {n : Nat} (hlast : ∀ p, last = some p → 0 ≤ p.patchId ∧ p.patchId < n) :
    ∀ q ∈ decisions b last batches, 0 ≤ q.patchId ∧ q.patchId < n + batches.length := by
  induction batches generalizing last n with
  | nil => simp [decisions]
  | cons batch rest ih =>
      have hnext : 0 ≤ (next b last batch).patchId ∧ (next b last batch).patchId < ↑(n + 1) := by
        rcases next_patchId_cases b last batch with ⟨-, hid⟩ | ⟨p, hp, hid⟩
        · omega
        · have hbounds := hlast p hp
          omega
      have hrest : ∀ q ∈ decisions b (some (next b last batch)) rest,
          0 ≤ q.patchId ∧ q.patchId < ↑(n + 1) + rest.length :=
        ih fun p hp => Option.some.inj hp ▸ hnext
      rw [decisions, List.forall_mem_cons, List.length_cons]
      refine ⟨by omega, fun q hq => ?_⟩
      have hq := hrest q hq
      omega

/-! ## Listeners whose writes may fail -/

variable {ε : Type}

/-- A report for a listener, and the fault of the write of its decision, if it fails. -/
structure Delivery (ε : Type) where
  batch : JobBatch
  fault : Option ε := none

/-- What a listener makes of a report. -/
structure Turn (ε : Type) where
  /-- The decisions whose writes were tried, each with its fault, if it failed. -/
  attempts : List (ScalePatch × Option ε)
  answer : Except ε ScalePatch
  /-- The listener afterwards. -/
  listener : Listener

/-- Try to write a decision, and note this. -/
def attempt (fault : Option ε) (patch : ScalePatch) :
    StateM (List (ScalePatch × Option ε)) (Except ε Unit) :=
  fun attempts => (fault.elim (.ok ()) .error, attempts ++ [(patch, fault)])

/-- The listener takes a report. -/
def turn (l : Listener) (d : Delivery ε) : Turn ε :=
  let ((answer, listener), attempts) := ((l.process (attempt d.fault) d.batch).run []).run
  ⟨attempts, answer, listener⟩

/-- The listener takes these reports, one after the other. -/
def turns (l : Listener) : List (Delivery ε) → List (Turn ε)
  | [] => []
  | d :: rest => turn l d :: turns (turn l d).listener rest

/-- The listener after these reports. -/
def after (l : Listener) (ds : List (Delivery ε)) : Listener :=
  ds.foldl (fun l d => (turn l d).listener) l

/-- The decision that was written in a turn, if any. -/
def Turn.written (t : Turn ε) : List ScalePatch :=
  t.attempts.filterMap fun a => if a.2.isNone then some a.1 else none

/-- All decisions that were written, one after the other. -/
def written (ts : List (Turn ε)) : List ScalePatch :=
  ts.flatMap Turn.written

/-! ## One report -/

/-- What a listener may make of a report: it skips its decision, writes it, or fails to. -/
inductive Makes (l : Listener) (d : Delivery ε) : Turn ε → Prop
  | skipped (happlied : l.applied = some (l.decisionFor d.batch)) :
      Makes l d
        ⟨[], .ok (l.decisionFor d.batch), { l with decision := some (l.decisionFor d.batch) }⟩
  | written (happlied : l.applied ≠ some (l.decisionFor d.batch)) (hfault : d.fault = none) :
      Makes l d
        ⟨[(l.decisionFor d.batch, none)], .ok (l.decisionFor d.batch),
          { l with
            decision := some (l.decisionFor d.batch), applied := some (l.decisionFor d.batch) }⟩
  | failed {e : ε} (happlied : l.applied ≠ some (l.decisionFor d.batch))
      (hfault : d.fault = some e) :
      Makes l d
        ⟨[(l.decisionFor d.batch, some e)], .error e,
          { l with decision := some (l.decisionFor d.batch) }⟩

theorem turn_makes (l : Listener) (d : Delivery ε) : Makes l d (turn l d) := by
  by_cases happlied : l.applied = some (l.decisionFor d.batch)
  · rw [turn, Listener.process_of_applied _ happlied]
    exact .skipped happlied
  · rw [turn, Listener.process]
    dsimp only
    rw [if_neg happlied]
    cases hfault : d.fault with
    | none => exact .written happlied hfault
    | some e => exact .failed happlied hfault

section Turn

variable {l : Listener} {d : Delivery ε} {t : Turn ε}

theorem Makes.bounds (h : Makes l d t) : t.listener.bounds = l.bounds := by
  cases h <;> rfl

/-- The listener ends a turn with the decision that the report leads to. -/
theorem Makes.decision (h : Makes l d t) : t.listener.decision = some (l.decisionFor d.batch) := by
  cases h <;> rfl

/-- In no turn any other decision is tried to be written, nor with another fault. -/
theorem Makes.of_mem_attempts (h : Makes l d t) {a : ScalePatch × Option ε} (ha : a ∈ t.attempts) :
    a = (l.decisionFor d.batch, d.fault) := by
  cases h with
  | skipped _ => cases ha
  | written _ hfault => rw [List.mem_singleton.1 ha, hfault]
  | failed _ hfault => rw [List.mem_singleton.1 ha, hfault]

/-- A listener that answers without a fault has written its last decision. -/
theorem Makes.of_ok (h : Makes l d t) {p : ScalePatch} (hp : t.answer = .ok p) :
    t.listener.decision = some p ∧ t.listener.applied = some p := by
  cases h with
  | skipped happlied =>
      cases hp
      exact ⟨rfl, happlied⟩
  | written _ _ =>
      cases hp
      exact ⟨rfl, rfl⟩
  | failed _ _ => cases hp

/-- A listener that answers with a fault has tried to write its last decision, in vain. -/
theorem Makes.of_error (h : Makes l d t) {e : ε} (he : t.answer = .error e) :
    t.attempts = [(l.decisionFor d.batch, some e)] ∧
      t.listener.applied ≠ t.listener.decision := by
  cases h with
  | skipped _ | written _ _ => cases he
  | failed happlied _ =>
      cases he
      exact ⟨rfl, happlied⟩

/-- What is written in a turn is the decision, if anything. -/
theorem Makes.written_sublist (h : Makes l d t) :
    t.written.Sublist [l.decisionFor d.batch] := by
  cases h with
  | skipped _ | failed _ _ => exact List.nil_sublist _
  | written _ _ => exact List.Sublist.refl _

end Turn

/-! ## What was written -/

/-- The listener knows which decision was written last.  Those that were written have increasing
ids, and none of them is later than the last decision. -/
structure Accounts (l : Listener) (done : List ScalePatch) : Prop where
  target : AsksForTarget l.bounds l.decision
  applied : l.applied = done.getLast?
  increasing : done.Pairwise fun p q => p.patchId < q.patchId
  precedes : ∀ q ∈ done, ∃ p, l.decision = some p ∧ Precedes q p

section Accounts

variable {l : Listener} {done : List ScalePatch}

theorem accounts_new (b : Bounds) : Accounts { bounds := b } [] where
  target _ hp := by cases hp
  applied := rfl
  increasing := .nil
  precedes _ hq := by cases hq

/-- What was written comes before the next decision. -/
theorem Accounts.precedes_decisionFor (h : Accounts l done) (batch : JobBatch) :
    ∀ q ∈ done, Precedes q (l.decisionFor batch) := by
  intro q hq
  obtain ⟨p, hp, hqp⟩ := h.precedes q hq
  exact hqp.trans (precedes_next h.target hp batch)

/-- A decision other than the last one written is newer than all that were written. -/
theorem Accounts.lt_decisionFor (h : Accounts l done) {batch : JobBatch}
    (happlied : l.applied ≠ some (l.decisionFor batch)) :
    ∀ q ∈ done, q.patchId < (l.decisionFor batch).patchId := by
  intro q hq
  have hprecedes := h.precedes_decisionFor batch
  have hincreasing := h.increasing
  rw [h.applied] at happlied
  rcases List.eq_nil_or_concat done with rfl | ⟨init, last, rfl⟩
  · cases hq
  · rw [List.concat_eq_append] at hq hprecedes hincreasing happlied
    rw [List.getLast?_concat] at happlied
    -- the ids increase up to the last one written, which alone was compared with the decision
    have hlast : last.patchId < (l.decisionFor batch).patchId :=
      (hprecedes last (by simp)).lt_of_ne fun heq => happlied (congrArg some heq)
    rcases List.mem_append.1 hq with hq | hq
    · have hlt := (List.pairwise_append.1 hincreasing).2.2 q hq last (by simp)
      omega
    · rwa [List.mem_singleton.1 hq]

/-- The listener still knows after a decision that it does not write. -/
theorem Accounts.decide (h : Accounts l done) (batch : JobBatch) :
    Accounts { l with decision := some (l.decisionFor batch) } done where
  target := h.target.next batch
  applied := h.applied
  increasing := h.increasing
  precedes q hq := ⟨_, rfl, h.precedes_decisionFor batch q hq⟩

/-- The listener still knows after a decision that it writes. -/
theorem Accounts.write (h : Accounts l done) {batch : JobBatch}
    (happlied : l.applied ≠ some (l.decisionFor batch)) :
    Accounts
      { l with decision := some (l.decisionFor batch), applied := some (l.decisionFor batch) }
      (done ++ [l.decisionFor batch]) where
  target := h.target.next batch
  applied := List.getLast?_concat.symm
  increasing := by
    refine List.pairwise_append.2 ⟨h.increasing, List.pairwise_singleton _ _, ?_⟩
    intro q hq p hp
    rw [List.mem_singleton.1 hp]
    exact h.lt_decisionFor happlied q hq
  precedes q hq := by
    refine ⟨_, rfl, ?_⟩
    rcases List.mem_append.1 hq with hq | hq
    · exact h.precedes_decisionFor batch q hq
    · rw [List.mem_singleton.1 hq]
      exact ⟨Int.le_refl _, fun _ => rfl⟩

/-- The listener still knows after a report. -/
theorem Accounts.makes (h : Accounts l done) {d : Delivery ε} {t : Turn ε} (ht : Makes l d t) :
    Accounts t.listener (done ++ t.written) := by
  cases ht with
  | skipped _ | failed _ _ => simpa [Turn.written] using h.decide d.batch
  | written happlied _ => simpa [Turn.written] using h.write happlied

/-- As long as its last decision is not written, the listener tries to write at the next report,
whatever this says. -/
theorem Accounts.attempts_of_ne (h : Accounts l done) {p : ScalePatch} (hp : l.decision = some p)
    (hne : l.applied ≠ l.decision) {d : Delivery ε} {t : Turn ε} (ht : Makes l d t) :
    ∃ fault, t.attempts = [(l.decisionFor d.batch, fault)] := by
  cases ht with
  | skipped happlied =>
      -- the last decision stands between what was written last and the next decision
      obtain ⟨q, hq, hqp⟩ := h.precedes _ (List.mem_of_getLast? (h.applied.symm.trans happlied))
      obtain rfl : q = p := Option.some.inj (hq.symm.trans hp)
      have hlast : q = l.decisionFor d.batch :=
        (precedes_next h.target hp d.batch).antisymm hqp
      exact absurd (by rw [happlied, hp, hlast]) hne
  | written _ _ => exact ⟨none, rfl⟩
  | @failed e _ _ => exact ⟨some e, rfl⟩

end Accounts

/-! ## Many reports -/

section Run

variable (l : Listener)

theorem getElem?_turns (ds : List (Delivery ε)) (n : Nat) :
    (turns l ds)[n]? = ds[n]?.map fun d => turn (after l (ds.take n)) d := by
  induction ds generalizing l n with
  | nil => simp [turns]
  | cons d rest ih =>
      cases n with
      | zero => rfl
      | succ n =>
          rw [turns, List.getElem?_cons_succ, ih, List.getElem?_cons_succ]
          rfl

/-- Every turn is made by the listener after the reports before it. -/
theorem makes_of_getElem? {ds : List (Delivery ε)} {n : Nat} {t : Turn ε}
    (ht : (turns l ds)[n]? = some t) :
    ∃ d, ds[n]? = some d ∧ Makes (after l (ds.take n)) d t ∧
      after l (ds.take (n + 1)) = t.listener := by
  rw [getElem?_turns] at ht
  obtain ⟨d, hd, rfl⟩ := Option.map_eq_some_iff.1 ht
  refine ⟨d, hd, turn_makes _ d, ?_⟩
  rw [List.take_add_one, hd, after, List.foldl_append]
  rfl

theorem take_turns (ds : List (Delivery ε)) (n : Nat) :
    (turns l ds).take n = turns l (ds.take n) := by
  induction ds generalizing l n with
  | nil => simp [turns]
  | cons d rest ih =>
      cases n with
      | zero => rfl
      | succ n => rw [turns, List.take_succ_cons, ih, List.take_succ_cons, turns]

/-- What is decided does not depend on which writes fail. -/
theorem map_decision_turns (ds : List (Delivery ε)) :
    (turns l ds).map (fun t => t.listener.decision) =
      (decisions l.bounds l.decision (ds.map Delivery.batch)).map some := by
  induction ds generalizing l with
  | nil => rfl
  | cons d rest ih =>
      have hmakes := turn_makes l d
      rw [turns, List.map_cons, ih, hmakes.decision, hmakes.bounds]
      rfl

/-- What is written are decisions, in their order. -/
theorem written_sublist (ds : List (Delivery ε)) :
    (written (turns l ds)).Sublist (decisions l.bounds l.decision (ds.map Delivery.batch)) := by
  induction ds generalizing l with
  | nil => exact .slnil
  | cons d rest ih =>
      have hmakes := turn_makes l d
      have hrest := ih (turn l d).listener
      rw [hmakes.decision, hmakes.bounds] at hrest
      rw [turns, written, List.flatMap_cons]
      exact hmakes.written_sublist.append hrest

end Run

/-- The listener knows what was written after any number of reports. -/
theorem Accounts.after {l : Listener} {done : List ScalePatch} (h : Accounts l done)
    (ds : List (Delivery ε)) : Accounts (after l ds) (done ++ written (turns l ds)) := by
  induction ds generalizing l done with
  | nil => simpa [turns, written, Scaling.after] using h
  | cons d rest ih =>
      rw [turns, written, List.flatMap_cons, ← List.append_assoc]
      exact ih (h.makes (turn_makes l d))

/-- A new listener is sent any reports, and any writes fail.  It makes the decisions that these
lead to; their ids are below the number of reports, never decrease, and tell decisions apart.  Those
that are written follow each other in this order and with increasing ids, so that none is written
twice.  In every turn the listener tries to write its last decision only, if any; an answer without
a fault is this decision, which is the one that was written last.  After an answer with a fault
there is a try in the next turn, whatever the report says. -/
theorem decisions_written_once (b : Bounds) (ds : List (Delivery ε)) {ts : List (Turn ε)}
    (hts : ts = turns { bounds := b } ds) {made : List ScalePatch}
    (hmade : made = decisions b none (ds.map Delivery.batch)) :
    (written ts).Pairwise (fun p q => p.patchId < q.patchId) ∧ (written ts).Nodup ∧
      ts.map (fun t => t.listener.decision) = made.map some ∧ made.Pairwise Precedes ∧
      (∀ p ∈ made, 0 ≤ p.patchId ∧ p.patchId < ds.length) ∧ (written ts).Sublist made ∧
      ∀ n t, ts[n]? = some t →
        (∀ p, t.answer = .ok p → t.listener.decision = some p ∧
          (written (ts.take (n + 1))).getLast? = some p) ∧
        (∀ a ∈ t.attempts, t.listener.decision = some a.1 ∧
          ds[n]?.map Delivery.fault = some a.2) ∧
        ∀ e, t.answer = .error e →
          (∃ p, t.attempts = [(p, some e)]) ∧
          ∀ u, ts[n + 1]? = some u → ∃ p fault, u.attempts = [(p, fault)] := by
  subst hts hmade
  have hnew := accounts_new b
  have hdone := hnew.after ds
  rw [List.nil_append] at hdone
  refine ⟨hdone.increasing, hdone.increasing.imp fun hlt heq => ?_, map_decision_turns _ ds,
    pairwise_decisions hnew.target _, ?_, written_sublist _ ds, fun n t ht => ?_⟩
  · rw [heq] at hlt
    exact Int.lt_irrefl _ hlt
  · simpa using patchId_of_mem_decisions (b := b) (ds.map Delivery.batch) (n := 0)
      (fun p (hp : none = some p) => by cases hp)
  · obtain ⟨d, hd, hmakes, hafter⟩ := makes_of_getElem? _ ht
    have hlater := hnew.after (ds.take (n + 1))
    rw [List.nil_append, ← take_turns, hafter] at hlater
    refine ⟨fun p hp => ?_, fun a ha => ?_, fun e he => ?_⟩
    · obtain ⟨hdecision, happlied⟩ := hmakes.of_ok hp
      exact ⟨hdecision, hlater.applied.symm.trans happlied⟩
    · rw [hmakes.decision, hmakes.of_mem_attempts ha, hd]
      exact ⟨rfl, rfl⟩
    · obtain ⟨hattempts, hne⟩ := hmakes.of_error he
      refine ⟨⟨_, hattempts⟩, fun u hu => ?_⟩
      obtain ⟨d', -, hmakes', -⟩ := makes_of_getElem? _ hu
      rw [hafter] at hmakes'
      exact ⟨_, hlater.attempts_of_ne hmakes.decision hne hmakes'⟩

/-- Three acquired jobs whose decision fails to be written twice, and empty reports. -/
def unreliable : List (Delivery Unit) :=
  [{ batch := { acquired := 3 }, fault := some () }, { batch := {}, fault := some () },
    { batch := {} }, { batch := {} }]

/-- The decision is written when a write succeeds at last, and then not again. -/
theorem unreliable_written_once :
    written (turns { bounds := { min := 0, max := 5 } } unreliable) = [⟨3, 0⟩] ∧
      ∀ u, (turns { bounds := { min := 0, max := 5 } } unreliable)[1]? = some u →
        ∃ p fault, u.attempts = [(p, fault)] := by
  have hwritten : written (turns { bounds := { min := 0, max := 5 } } unreliable) = [⟨3, 0⟩] := by
    decide +kernel
  obtain ⟨-, -, -, -, -, -, hturns⟩ :=
    decisions_written_once { min := 0, max := 5 } unreliable rfl rfl
  exact ⟨hwritten, ((hturns 0 _ rfl).2.2 () rfl).2⟩

end Scaling
end RunnerFleet
