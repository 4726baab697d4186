import RunnerFleet.Proofs.Config.Validity

/-!
# Waiting times are exact

The time to wait after failures is computed with spans that end at the longest one.  As no limit is
longer than the longest span, it never shows that they end: every waiting time is what it would be
if spans had no end.

Main results:

- `toNanos_ofMillis`: all milliseconds of 64 bits are exact.
- `toNanos_delay`: the waiting time as a number.
- `delay_mono`, `delay_double`: it grows with the failures, and doubles as long as it may.
- `delay_exact`: both, and its bounds in a valid configuration.
-/

namespace RunnerFleet

namespace Duration

/-- Milliseconds are exact as long as their seconds fit. -/
theorem toNanos_ofMillis {millis : Nat} (h : millis < 2 ^ 64) :
    (ofMillis millis).toNanos = millis * 10 ^ 6 := by
  have hfits : millis / 1000 < 2 ^ 64 := by omega
  rw [ofMillis, dif_pos hfits, toNanos]
  dsimp only
  omega

/-- More milliseconds make no shorter span. -/
theorem toNanos_ofMillis_mono {a b : Nat} (h : a ≤ b) :
    (ofMillis a).toNanos ≤ (ofMillis b).toNanos := by
  by_cases hb : b / 1000 < 2 ^ 64
  · have ha : a / 1000 < 2 ^ 64 := Nat.lt_of_le_of_lt (Nat.div_le_div_right h) hb
    rw [ofMillis, dif_pos ha, ofMillis, dif_pos hb, toNanos, toNanos]
    dsimp only
    omega
  · rw [ofMillis.eq_def b, dif_neg hb]
    exact toNanos_le_longest _

end Duration

namespace Controller
namespace Settings

variable (s : Settings)

/-- The waiting time as a number. -/
theorem toNanos_delay (failures : Nat) :
    (s.delay failures).toNanos =
      min (s.requeueBase.toNanos * 2 ^ min (failures - 1) maxDoublings) s.requeueMax.toNanos := by
  have hlimit : s.requeueMax.toNanos ≤ Duration.longest.toNanos := s.requeueMax.toNanos_le_longest
  rw [delay, Duration.toNanos_min, Duration.toNanos_scale]
  -- the longest span is no limit beside the longest waiting time
  exact (Nat.min_assoc _ _ _).trans (congrArg _ (Nat.min_eq_right hlimit))

/-- After more failures the controller waits no shorter. -/
theorem delay_mono {failures more : Nat} (h : failures ≤ more) :
    (s.delay failures).toNanos ≤ (s.delay more).toNanos := by
  have hexponent : min (failures - 1) maxDoublings ≤ min (more - 1) maxDoublings := by omega
  have hpower := Nat.pow_le_pow_right Nat.zero_lt_two hexponent
  rw [toNanos_delay, toNanos_delay]
  have hscaled := Nat.mul_le_mul_left s.requeueBase.toNanos hpower
  omega

/-- One more failure doubles the waiting time up to the limit, as long as it may double. -/
theorem delay_double {failures : Nat} (hone : 1 ≤ failures) (hmany : failures ≤ maxDoublings) :
    (s.delay (failures + 1)).toNanos =
      min (2 * (s.delay failures).toNanos) s.requeueMax.toNanos := by
  have hbefore : min (failures - 1) maxDoublings = failures - 1 := by omega
  have hafter : min (failures + 1 - 1) maxDoublings = failures - 1 + 1 := by omega
  rw [toNanos_delay, toNanos_delay, hbefore, hafter, Nat.pow_succ, ← Nat.mul_assoc]
  omega

/-- The waiting time is at least the first one, if that is within the limit. -/
theorem base_le_delay (h : s.requeueBase.toNanos ≤ s.requeueMax.toNanos) (failures : Nat) :
    s.requeueBase.toNanos ≤ (s.delay failures).toNanos := by
  rw [toNanos_delay]
  exact Nat.le_min.2 ⟨Nat.le_mul_of_pos_right _ (Nat.two_pow_pos _), h⟩

/-- The waiting time is within the limit. -/
theorem delay_le_max (failures : Nat) : (s.delay failures).toNanos ≤ s.requeueMax.toNanos := by
  rw [toNanos_delay]
  exact Nat.min_le_right _ _

/-- Waiting times are those of spans without an end, of which milliseconds of 64 bits are some: the
first one is doubled with every further failure, up to sixteen times and up to the limit.  In a valid
configuration they lie between the first one and the limit. -/
theorem delay_exact :
    (∀ (s : Settings) (failures : Nat),
      (s.delay failures).toNanos =
          min (s.requeueBase.toNanos * 2 ^ min (max failures 1 - 1) 16) s.requeueMax.toNanos ∧
        (∀ more, failures ≤ more → (s.delay failures).toNanos ≤ (s.delay more).toNanos) ∧
        (1 ≤ failures → failures ≤ 16 → (s.delay (failures + 1)).toNanos =
          min (2 * (s.delay failures).toNanos) s.requeueMax.toNanos)) ∧
    (∀ millis, millis < 2 ^ 64 → (Duration.ofMillis millis).toNanos = millis * 10 ^ 6) ∧
    ∀ c : Config, c.validate = .ok () → ∀ failures,
      (Duration.ofMillis c.passes.requeueBase).toNanos ≤ (c.settings.delay failures).toNanos ∧
        (c.settings.delay failures).toNanos ≤ (Duration.ofMillis c.passes.requeueMax).toNanos := by
  refine ⟨fun s failures => ⟨?_, fun more => s.delay_mono, s.delay_double⟩,
    fun millis => Duration.toNanos_ofMillis, fun c hvalid failures => ⟨?_, ?_⟩⟩
  · have hcount : max failures 1 - 1 = failures - 1 := by omega
    rw [toNanos_delay, hcount]
    rfl
  · have hwaiting := (Config.validate_eq_ok_iff.1 hvalid).waiting
    exact c.settings.base_le_delay (Duration.toNanos_ofMillis_mono hwaiting) failures
  · exact c.settings.delay_le_max failures

/-- A configuration whose times are the longest of 64 bits. -/
def patient : Config where
  group := { name := "linux", namespaceName := "ci" }
  passes := { requeueBase := 2 ^ 64 - 2, requeueMax := 2 ^ 64 - 1 }

/-- After seventeen failures such a configuration waits for as long as its limit says, although its
first time, doubled sixteen times, exceeds the longest span. -/
theorem delay_patient :
    (patient.settings.delay 17).toNanos = (2 ^ 64 - 1) * 10 ^ 6 ∧
      (patient.settings.delay 16).toNanos ≤ (patient.settings.delay 17).toNanos ∧
      (2 ^ 64 - 2) * 10 ^ 6 ≤ (patient.settings.delay 16).toNanos := by
  have hvalid : patient.validate = .ok () := by
    rw [Config.validate_eq_ok_iff]
    constructor <;> decide +kernel
  obtain ⟨hsettings, hmillis, hconfig⟩ := delay_exact
  obtain ⟨hfirst, hgrows, hdoubles⟩ := hsettings patient.settings 16
  refine ⟨?_, hgrows 17 (by decide), ?_⟩
  · rw [hdoubles (by decide) (by decide), hfirst]
    decide
  · rw [← hmillis (2 ^ 64 - 2) (by decide)]
    exact (hconfig patient hvalid 16).1

end Settings
end Controller
end RunnerFleet
