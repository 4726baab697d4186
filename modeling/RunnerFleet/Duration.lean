import RunnerFleet.Powers

/-!
# Spans of time

A span is a number of whole seconds, which fits into 64 bits, and of nanoseconds below a second.
Arithmetic that would exceed the longest span gives the longest span.

Main results:

- `toNanos_scale`: a multiple of a span is exact unless it exceeds the longest span.
- `toNanos_min`: the shorter one of two spans.
-/

namespace RunnerFleet

/-- A span of time. -/
structure Duration where
  seconds : Nat
  nanos : Nat
  seconds_lt : seconds < 2 ^ 64
  nanos_lt : nanos < 10 ^ 9
deriving DecidableEq

namespace Duration

/-- The longest span. -/
def longest : Duration where
  seconds := 2 ^ 64 - 1
  nanos := 10 ^ 9 - 1
  seconds_lt := by decide
  nanos_lt := by decide

instance : Inhabited Duration := ⟨⟨0, 0, by decide, by decide⟩⟩

/-- The length of a span in nanoseconds. -/
def toNanos (d : Duration) : Nat :=
  d.seconds * 10 ^ 9 + d.nanos

/-- The whole milliseconds of a span. -/
def toMillis (d : Duration) : Nat :=
  d.seconds * 1000 + d.nanos / 10 ^ 6

/-- The span of this many milliseconds, or the longest span if that is shorter. -/
def ofMillis (millis : Nat) : Duration :=
  if h : millis / 1000 < 2 ^ 64 then
    ⟨millis / 1000, millis % 1000 * 10 ^ 6, h, by omega⟩
  else longest

/-- The span taken `factor` times. -/
def scale (d : Duration) (factor : Nat) : Duration :=
  let nanos := d.nanos * factor
  let seconds := d.seconds * factor + nanos / 10 ^ 9
  if h : seconds < 2 ^ 64 then
    ⟨seconds, nanos % 10 ^ 9, h, Nat.mod_lt _ (by decide)⟩
  else longest

/-- The shorter one of two spans. -/
def min (a b : Duration) : Duration :=
  if a.seconds < b.seconds ∨ a.seconds = b.seconds ∧ a.nanos ≤ b.nanos then a else b

/-- No duration is longer than the longest. -/
theorem toNanos_le_longest (d : Duration) : d.toNanos ≤ longest.toNanos := by
  have hs := d.seconds_lt
  have hn := d.nanos_lt
  simp only [toNanos, longest]
  omega

/-- Scaling multiplies the nanoseconds and stops at the longest duration. -/
@[simp]
theorem toNanos_scale (d : Duration) (factor : Nat) :
    (d.scale factor).toNanos = Nat.min (d.toNanos * factor) longest.toNanos := by
  have key : (d.seconds * factor + d.nanos * factor / 10 ^ 9) * 10 ^ 9 +
      d.nanos * factor % 10 ^ 9 = d.toNanos * factor := by
    rw [Nat.add_mul, Nat.add_assoc, Nat.div_add_mod', toNanos, Nat.add_mul, Nat.mul_right_comm]
  have hl : longest.toNanos = 2 ^ 64 * 10 ^ 9 - 1 := by decide
  have hn : d.nanos * factor % 10 ^ 9 < 10 ^ 9 := Nat.mod_lt _ (by decide)
  rw [hl, ← key]
  unfold scale
  simp only
  split
  · rename_i h
    refine Eq.symm (Nat.min_eq_left ?_)
    omega
  · rename_i h
    rw [hl]
    refine Eq.symm (Nat.min_eq_right ?_)
    omega

/-- The shorter of two durations has the fewer nanoseconds. -/
@[simp]
theorem toNanos_min (a b : Duration) : (min a b).toNanos = Nat.min a.toNanos b.toNanos := by
  have ha := a.nanos_lt
  have hb := b.nanos_lt
  unfold min
  split
  · rename_i h
    refine (Nat.min_eq_left ?_).symm
    simp only [toNanos]
    omega
  · rename_i h
    refine (Nat.min_eq_right ?_).symm
    simp only [toNanos]
    omega

end Duration
end RunnerFleet
