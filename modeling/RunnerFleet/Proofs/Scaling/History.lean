import Mathlib.Data.List.Induction
import RunnerFleet.Config.Basic
import RunnerFleet.Proofs.Scaling.Writes

/-!
# Decisions told from all reports so far

A decision is made from the one before it and the next report.  Told from the whole history, it is
simple.  The number is the target for the last report that said anything, or for the first report if
none has said anything since.  The id counts the reports after the first that said something, and
those that found the number at a positive lower bound.  The induction goes by the last report, since
it is the last decision that the history tells.

Main results:

- `next_some_eq`: one decision after another that asks for a target.
- `getLast?_decisions`: the last decision in closed form.
- `target_mem_bounds`: a target is within the bounds, as far as these allow for any number.
- `decisions_closed_form`: all of this for a calculator and any reports.
-/

namespace RunnerFleet
namespace Scaling

/-! ## Calculators -/

/-- A calculator takes a report: it keeps the decision, and answers with the id of it. -/
def compute (b : Bounds) (batch : JobBatch) : StateM (Option ScalePatch) Int := do
  let patch := next b (← get) batch
  set (some patch)
  return patch.patchId

/-- A calculator that takes reports answers with the ids of the decisions that these lead to, and
keeps the last one. -/
theorem run_mapM_compute (b : Bounds) (last : Option ScalePatch) (batches : List JobBatch) :
    (batches.mapM (compute b)).run last =
      pure ((decisions b last batches).map ScalePatch.patchId,
        (decisions b last batches).getLast?.or last) := by
  induction batches generalizing last with
  | nil => rfl
  | cons batch rest ih =>
      have hrest := ih (some (next b last batch))
      have hfirst : (compute b batch).run last =
          pure ((next b last batch).patchId, some (next b last batch)) := rfl
      rw [List.mapM_cons, StateT.run_bind, hfirst, pure_bind, StateT.run_bind, hrest, pure_bind,
        StateT.run_pure, decisions, List.map_cons, List.getLast?_cons]
      cases (decisions b (some (next b last batch)) rest).getLast? <;> rfl

/-- One more report leads to one more decision. -/
theorem decisions_concat (b : Bounds) (last : Option ScalePatch) (batches : List JobBatch)
    (batch : JobBatch) :
    decisions b last (batches ++ [batch]) =
      decisions b last batches ++ [next b ((decisions b last batches).getLast?.or last) batch] := by
  induction batches generalizing last with
  | nil => rfl
  | cons first rest ih =>
      rw [List.cons_append, decisions, ih, decisions, List.cons_append, List.getLast?_cons]
      cases (decisions b (some (next b last first)) rest).getLast? <;> rfl

@[simp]
theorem length_decisions (b : Bounds) (last : Option ScalePatch) (batches : List JobBatch) :
    (decisions b last batches).length = batches.length := by
  induction batches generalizing last with
  | nil => rfl
  | cons batch rest ih => rw [decisions, List.length_cons, ih, List.length_cons]

/-! ## The last decision -/

/-- The report that the number goes by: the last one that says anything, or else the first. -/
def decisive (first : JobBatch) (rest : List JobBatch) : JobBatch :=
  (rest.filter fun batch => !batch.isEmpty).getLastD first

/-- Whether a report after a decision leads to a new id: it says something, or finds the number at a
positive lower bound. -/
def advances (b : Bounds) (last : ScalePatch) (batch : JobBatch) : Bool :=
  !batch.isEmpty || batch.isEmpty && decide (0 < b.min ∧ last.replicas = b.min)

/-- How many reports after the first lead to a new id; each is judged by the decision before it. -/
def advanceCount (b : Bounds) (first : JobBatch) (rest : List JobBatch) : Nat :=
  ((decisions b none (first :: rest)).zip rest).countP fun pair => advances b pair.1 pair.2

/-- A decision after one that asks for a target. -/
theorem next_some_eq (b : Bounds) {last : ScalePatch} (h : ∃ a, last.replicas = b.target a)
    (batch : JobBatch) :
    next b (some last) batch =
      ⟨if batch.isEmpty then last.replicas else b.target batch.acquired,
        last.patchId + (advances b last batch).toNat⟩ := by
  obtain ⟨a, ha⟩ := h
  rw [next, advances]
  cases hempty : batch.isEmpty with
  | true =>
      simp only [idleReplicas_target b ha, if_true, Bool.not_true, Bool.false_or, Bool.true_and]
      by_cases hfloor : 0 < b.min ∧ last.replicas = b.min
      · rw [if_pos hfloor, decide_eq_true hfloor, Bool.toNat_true]
        rfl
      · rw [if_neg hfloor, decide_eq_false hfloor, Bool.toNat_false, Int.natCast_zero, Int.add_zero]
  | false => simp

/-- One more report is judged by the last decision before it. -/
theorem advanceCount_concat (b : Bounds) {first : JobBatch} {rest : List JobBatch}
    {last : ScalePatch} (h : (decisions b none (first :: rest)).getLast? = some last)
    (batch : JobBatch) :
    advanceCount b first (rest ++ [batch]) =
      advanceCount b first rest + (advances b last batch).toNat := by
  obtain ⟨earlier, hmade⟩ := List.getLast?_eq_some_iff.1 h
  have hlength : earlier.length = rest.length := by
    have hall := length_decisions b none (first :: rest)
    rw [hmade, List.length_append] at hall
    exact Nat.succ.inj hall
  have hbefore : (earlier ++ [last]).zip rest = earlier.zip rest := by
    rw [← List.append_nil rest, List.zip_append hlength, List.zip_nil_right, List.append_nil,
      List.append_nil]
  rw [advanceCount, ← List.cons_append, decisions_concat, hmade, List.append_assoc,
    List.zip_append hlength, List.countP_append, advanceCount, hmade, hbefore]
  cases hadvances : advances b last batch <;> simp [hadvances]

/-- The number of the last decision, and its id, told from all reports. -/
theorem getLast?_decisions (b : Bounds) (first : JobBatch) (rest : List JobBatch) :
    (decisions b none (first :: rest)).getLast? =
      some ⟨b.target (decisive first rest).acquired, advanceCount b first rest⟩ := by
  induction rest using List.reverseRecOn with
  | nil => rfl
  | append_singleton rest batch ih =>
      have hdecisive : decisive first (rest ++ [batch]) =
          if batch.isEmpty then decisive first rest else batch := by
        rw [decisive, List.filter_append]
        cases hempty : batch.isEmpty <;> simp [hempty, decisive]
      rw [← List.cons_append, decisions_concat, List.getLast?_concat, ih, Option.some_or,
        next_some_eq b ⟨_, rfl⟩, advanceCount_concat b ih, hdecisive]
      rw [Int.natCast_add]
      cases batch.isEmpty <;> rfl

/-! ## All decisions -/

/-- A target is within the bounds, as far as these allow for any number. -/
theorem target_mem_bounds (b : Bounds) (a : Nat) :
    min b.min b.max ≤ b.target a ∧ b.target a ≤ b.max := by
  refine ⟨?_, b.clamp_le_max _⟩
  rw [Bounds.target, Bounds.clamp]
  generalize Nat.min (b.min + b.scaled a) countLimit = n
  change min b.min b.max ≤ min (max n b.min) b.max
  omega

/-- All decisions ask for targets. -/
theorem target_of_mem_decisions {b : Bounds} {last : Option ScalePatch} (h : AsksForTarget b last)
    (batches : List JobBatch) : ∀ p ∈ decisions b last batches, ∃ a, p.replicas = b.target a := by
  induction batches generalizing last with
  | nil => exact fun p hp => absurd hp List.not_mem_nil
  | cons batch rest ih =>
      rw [decisions, List.forall_mem_cons]
      exact ⟨h.next batch _ rfl, ih (h.next batch)⟩

/-- The bounds of a valid configuration are in order. -/
theorem min_le_max_of_validate {c : Config} (h : c.validate = .ok ()) :
    c.bounds.min ≤ c.bounds.max := by
  have hnone : ∀ problems : List (Bool × Config.Problem), Config.firstProblem problems = .ok () →
      ∀ found ∈ problems, found.1 = false := by
    intro problems
    induction problems with
    | nil => exact fun _ found hfound => absurd hfound List.not_mem_nil
    | cons found rest ih =>
        intro hok
        obtain ⟨flawed, problem⟩ := found
        cases flawed with
        | true => cases hok
        | false => exact List.forall_mem_cons.2 ⟨rfl, ih hok⟩
  have hordered := hnone _ h (decide (c.maxRunners < c.group.minRunners),
    .minAboveMax c.group.minRunners c.maxRunners) (by simp)
  exact Nat.le_of_not_lt (of_decide_eq_false hordered)

/-- A calculator that takes a first report and then others answers each time with the id of the
decision that it keeps.  The number of the last decision is the target for the last report that said
anything, or for the first report; the id counts the reports after the first that said something, or
found the number at a positive lower bound.  All numbers are within the bounds, as far as these allow
for any, and those of a valid configuration do.  Ids never decrease; decisions with the same id have
the same number, and a change of the number comes with a higher id. -/
theorem decisions_closed_form (b : Bounds) (first : JobBatch) (rest : List JobBatch) :
    let made := decisions b none (first :: rest)
    ((first :: rest).mapM (compute b)).run none =
        pure (made.map ScalePatch.patchId, made.getLast?) ∧
      made.getLast? =
        some ⟨b.target (decisive first rest).acquired, advanceCount b first rest⟩ ∧
      (∀ p ∈ made, min b.min b.max ≤ p.replicas ∧ p.replicas ≤ b.max ∧
        ∀ c : Config, c.validate = .ok () → c.bounds = b →
          c.group.minRunners ≤ p.replicas ∧ p.replicas ≤ c.maxRunners) ∧
      made.Pairwise fun p q => p.patchId ≤ q.patchId ∧
        (p.patchId = q.patchId → p.replicas = q.replicas) ∧
        (p.replicas ≠ q.replicas → p.patchId < q.patchId) := by
  intro made
  have hnone : AsksForTarget b none := fun p hp => nomatch hp
  refine ⟨?_, getLast?_decisions b first rest, fun p hp => ?_, ?_⟩
  · rw [run_mapM_compute, Option.or_none]
  · obtain ⟨a, ha⟩ := target_of_mem_decisions hnone (first :: rest) p hp
    obtain ⟨hlow, hhigh⟩ := target_mem_bounds b a
    refine ⟨ha ▸ hlow, ha ▸ hhigh, ?_⟩
    rintro c hvalid rfl
    have hordered := min_le_max_of_validate hvalid
    rw [Nat.min_eq_left hordered] at hlow
    exact ⟨ha ▸ hlow, ha ▸ hhigh⟩
  · refine (pairwise_decisions hnone (first :: rest)).imp fun {p q} hprecedes => ?_
    exact ⟨hprecedes.patchId, fun hid => congrArg ScalePatch.replicas (hprecedes.eq hid),
      fun hne => hprecedes.lt_of_ne fun heq => hne (congrArg ScalePatch.replicas heq)⟩

/-- A valid configuration with a positive lower bound. -/
def floored : Config where
  group := { name := "set", namespaceName := "ns", minRunners := 2, maxRunners := some 5 }

/-- Three jobs, nothing, their completions, and nothing: with the last report the lower bound is asked
for again. -/
theorem floored_closed_form :
    (decisions floored.bounds none [⟨3, 0⟩, {}, ⟨0, 3⟩, {}]).getLast? = some ⟨2, 2⟩ ∧
      ∀ p ∈ decisions floored.bounds none [⟨3, 0⟩, {}, ⟨0, 3⟩, {}],
        2 ≤ p.replicas ∧ p.replicas ≤ 5 := by
  obtain ⟨-, hlast, hbounds, -⟩ := decisions_closed_form floored.bounds ⟨3, 0⟩ [{}, ⟨0, 3⟩, {}]
  refine ⟨hlast.trans (by decide +kernel), fun p hp => ?_⟩
  exact (hbounds p hp).2.2 floored (by decide +kernel) rfl

end Scaling
end RunnerFleet
