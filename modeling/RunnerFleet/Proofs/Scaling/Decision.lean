import RunnerFleet.Scaling.Decision

/-!
# Decisions in a row

Every number that is asked for is the target for some number of acquired jobs.  The patch ids of the
decisions that follow each other never decrease, and a decision that keeps the id of the one before
it keeps its number too.

Main results:

- `idleReplicas_target`: an empty report leaves the number as it is.
- `next_replicas_le_max`: no decision asks for more than the upper bound.
- `next_some_replicas`, `next_some_patchId`: the number and the id of a decision after another.
-/

namespace RunnerFleet
namespace Scaling

/-- The numerator of zero. -/
theorem ratio_zero : (Binary64.ratio 0).1 = 0 :=
  Nat.zero_mul _

theorem ceilUpTo_finite (limit : Nat) (rank : Fin Binary64.rankCount) :
    Binary64.ceilUpTo limit (.finite false rank) =
      min (((Binary64.ratio rank).1 + ((Binary64.ratio rank).2 - 1)) / (Binary64.ratio rank).2)
        limit :=
  rfl

theorem mul_finite (s t : Bool) (a b : Fin Binary64.rankCount) :
    Binary64.mul (.finite s a) (.finite t b) =
      Binary64.roundRatio (s != t) ((Binary64.ratio a).1 * (Binary64.ratio b).1)
        ((Binary64.ratio a).2 * (Binary64.ratio b).2) :=
  rfl

/-- The least natural number not below zero. -/
theorem ceilUpTo_zero (limit : Nat) (negative : Bool) :
    Binary64.ceilUpTo limit (Binary64.zero negative) = 0 := by
  cases negative with
  | true => rfl
  | false =>
      have hlt : (Binary64.ratio 0).2 - 1 < (Binary64.ratio 0).2 :=
        Nat.sub_lt (Binary64.ratio_den_pos 0) Nat.zero_lt_one
      rw [Binary64.zero, ceilUpTo_finite, ratio_zero, Nat.zero_add, Nat.div_eq_of_lt hlt,
        Nat.zero_min]

/-- Nothing times anything is nothing, or not a number. -/
theorem ceilUpTo_zero_mul (limit : Nat) (x : Binary64) :
    Binary64.ceilUpTo limit (Binary64.mul (Binary64.ofNat 0) x) = 0 := by
  have hnothing : Binary64.ofNat 0 = .finite false ⟨0, by decide⟩ := rfl
  cases x with
  | nan => rfl
  | infinite negative => rfl
  | finite negative rank =>
      rw [hnothing, mul_finite, ratio_zero, Nat.zero_mul, Binary64.roundRatio_zero, ceilUpTo_zero]

/-- No runners are needed on top of the lower bound where no job was acquired. -/
@[simp]
theorem scaled_zero (b : Bounds) : b.scaled 0 = 0 :=
  ceilUpTo_zero_mul countLimit b.effectiveFactor

/-- A target stays as it is beside the lowest one. -/
@[simp]
theorem clamp_max_target (b : Bounds) (a : Nat) :
    b.clamp (Nat.max (b.target a) (b.target 0)) = b.target a := by
  rw [Bounds.target, Bounds.target, scaled_zero]
  simp only [Bounds.clamp, Nat.add_zero]
  generalize Nat.min (b.min + b.scaled a) countLimit = n
  change min (max (max (min (max n b.min) b.max) (min (max (min b.min countLimit) b.min) b.max))
    b.min) b.max = min (max n b.min) b.max
  omega

/-- An empty report leaves a number that was asked for as it is. -/
theorem idleReplicas_target (b : Bounds) {last : ScalePatch} {a : Nat}
    (h : last.replicas = b.target a) : idleReplicas b last = last.replicas := by
  rw [idleReplicas, h, clamp_max_target]

/-- A number that is asked for is a target, if the one before it was. -/
theorem next_some_replicas (b : Bounds) {last : ScalePatch} (h : ∃ a, last.replicas = b.target a)
    (batch : JobBatch) : ∃ a, (next b (some last) batch).replicas = b.target a := by
  obtain ⟨a, ha⟩ := h
  rw [next]
  split
  · exact ⟨a, (idleReplicas_target b ha).trans ha⟩
  · exact ⟨batch.acquired, rfl⟩

/-- No decision asks for more runners than the upper bound. -/
theorem next_replicas_le_max (b : Bounds) (last : Option ScalePatch) (batch : JobBatch) :
    (next b last batch).replicas ≤ b.max := by
  cases last with
  | none => exact b.clamp_le_max _
  | some last =>
      rw [next]
      split <;> exact b.clamp_le_max _

/-- The id of a decision is not below the one before; where it is the same, so is the number. -/
theorem next_some_patchId (b : Bounds) {last : ScalePatch} (h : ∃ a, last.replicas = b.target a)
    (batch : JobBatch) :
    last.patchId ≤ (next b (some last) batch).patchId ∧
      (last.patchId = (next b (some last) batch).patchId →
        last.replicas = (next b (some last) batch).replicas) := by
  obtain ⟨a, ha⟩ := h
  rw [next]
  split
  · dsimp only
    rw [idleReplicas_target b ha]
    refine ⟨?_, fun _ => rfl⟩
    split <;> omega
  · refine ⟨?_, fun heq => ?_⟩
    · dsimp only
      omega
    · dsimp only at heq
      omega

end Scaling
end RunnerFleet
