import Mathlib.Algebra.Order.Field.Power
import Mathlib.Data.Rat.Cast.Order
import Mathlib.Tactic.FieldSimp
import Mathlib.Tactic.Linarith
import Mathlib.Tactic.NormNum
import Mathlib.Tactic.Positivity
import Mathlib.Tactic.Ring
import RunnerFleet.Binary64.Rounding

/-!
# Which number a quotient is rounded to

A quotient is rounded by its binary exponent: that gives the power of two that the significand is a
multiple of, and the significand is rounded to a whole number.  The result is described here without
exponents.  Every rank has an interval of rationals around its magnitude, half the way to its
neighbours on both sides, and the quotients that are rounded to the rank are those in its interval.
The ends belong to the ranks with even significands.

Main results:

- `divideToEven_eq`: the whole number that a quotient is near to.
- `binaryExponent_spec`: the power of two below a quotient.
- `nearestRank_eq`, `roundRatio_eq`: a quotient in the interval of a rank is rounded to it.
-/

namespace RunnerFleet
namespace Binary64

/-! ## Powers -/

/-- A power with a whole exponent is a quotient of powers with natural ones. -/
theorem zpow_eq_div (b : ℚ) (q : ℤ) : b ^ q = b ^ q.toNat / b ^ (-q).toNat := by
  obtain ⟨n, rfl | rfl⟩ := q.eq_nat_or_neg
  · simp
  · simp [one_div]

/-! ## Intervals -/

/-- The distance of a magnitude from the next larger one. -/
def ulp (rank : Nat) : ℚ :=
  2 ^ power rank

/-- The magnitude with this rank. -/
def magnitude (rank : Nat) : ℚ :=
  significand rank * ulp rank

/-- Half the distance from the next smaller magnitude, which is nearer below a power of two. -/
def gapBelow (rank : Nat) : ℚ :=
  if significand rank = 2 ^ 52 ∧ 2 ^ 53 ≤ rank then ulp rank / 4 else ulp rank / 2

/-- No other magnitude is nearer to `x`, and an equally near one has an odd significand. -/
structure IsNear (rank : Nat) (x : ℚ) : Prop where
  low : magnitude rank - gapBelow rank ≤ x
  high : x ≤ magnitude rank + ulp rank / 2
  ends : significand rank % 2 = 0 ∨
    magnitude rank - gapBelow rank < x ∧ x < magnitude rank + ulp rank / 2

theorem ulp_pos (rank : Nat) : 0 < ulp rank :=
  zpow_pos (by norm_num) _

theorem gapBelow_le (rank : Nat) : gapBelow rank ≤ ulp rank / 2 := by
  have hulp := ulp_pos rank
  unfold gapBelow
  split <;> linarith

/-- The significand and the power of a rank make up the rank. -/
theorem rank_eq (rank : Nat) :
    (rank : ℤ) = (power rank + 1074) * (2 ^ 52 : ℕ) + significand rank ∧ -1074 ≤ power rank := by
  unfold power significand
  split <;> omega

/-- Only ranks with the smallest power have significands of less than 53 bits. -/
theorem significand_cases (rank : Nat) :
    power rank = -1074 ∧ rank < 2 ^ 53 ∨ 2 ^ 52 ≤ significand rank ∧ 2 ^ 53 ≤ rank := by
  unfold power significand
  split <;> omega

/-! ## Rounding to whole numbers -/

/-- The whole number that is nearest to a quotient, or the even one of two. -/
theorem divideToEven_eq {num den m : Nat} (hden : 0 < den) (hlow : 2 * m * den ≤ 2 * num + den)
    (hhigh : 2 * num ≤ 2 * m * den + den)
    (hends : m % 2 = 0 ∨ 2 * m * den < 2 * num + den ∧ 2 * num < 2 * m * den + den) :
    divideToEven num den = m := by
  have hnum := Nat.div_add_mod num den
  have hrest := Nat.mod_lt num hden
  simp only [divideToEven]
  generalize num / den = f at *
  generalize num % den = r at *
  subst hnum
  -- the quotient is between `m - 1` and `m + 1`
  have hle : f ≤ m := by
    by_contra hlt
    have hmul := Nat.mul_le_mul_left den (show m + 1 ≤ f by omega)
    rw [Nat.mul_add, Nat.mul_comm den m] at hmul
    have hm : 2 * m * den = 2 * (m * den) := Nat.mul_assoc 2 m den
    omega
  have hge : m ≤ f + 1 := by
    by_contra hlt
    have hmul := Nat.mul_le_mul_left den (show f + 2 ≤ m by omega)
    rw [Nat.mul_add, Nat.mul_comm den m] at hmul
    have hm : 2 * m * den = 2 * (m * den) := Nat.mul_assoc 2 m den
    omega
  have hm : 2 * m * den = 2 * (den * m) := by rw [Nat.mul_assoc, Nat.mul_comm m den]
  rw [hm] at hlow hhigh hends
  obtain rfl | rfl : m = f ∨ m = f + 1 := by omega
  · split
    · rfl
    · split <;> omega
  · rw [Nat.mul_add] at hlow hhigh hends
    split
    · omega
    · split <;> omega

/-! ## Exponents -/

/-- The test whether a power of two is above a quotient. -/
theorem zpow_le_div_iff {num den : Nat} (hden : 0 < den) (e : ℤ) :
    (2 : ℚ) ^ e ≤ num / den ↔ den * 2 ^ e.toNat ≤ num * 2 ^ (-e).toNat := by
  have hdenQ : (0 : ℚ) < den := by exact_mod_cast hden
  have hpow : (0 : ℚ) < 2 ^ (-e).toNat := by positivity
  rw [zpow_eq_div, div_le_div_iff₀ hpow hdenQ, mul_comm _ (den : ℚ)]
  exact_mod_cast Iff.rfl

/-- The binary exponent of a positive quotient. -/
theorem binaryExponent_spec {num den : Nat} (hnum : 0 < num) (hden : 0 < den) :
    (2 : ℚ) ^ binaryExponent num den ≤ num / den ∧
      (num / den : ℚ) < 2 ^ (binaryExponent num den + 1) := by
  have hnumLow : (2 : ℚ) ^ num.log2 ≤ num := by exact_mod_cast Nat.log2_self_le hnum.ne'
  have hnumHigh : (num : ℚ) < 2 ^ (num.log2 + 1) := by exact_mod_cast Nat.lt_log2_self
  have hdenLow : (2 : ℚ) ^ den.log2 ≤ den := by exact_mod_cast Nat.log2_self_le hden.ne'
  have hdenHigh : (den : ℚ) < 2 ^ (den.log2 + 1) := by exact_mod_cast Nat.lt_log2_self
  have hdenPos : (0 : ℚ) < den := by exact_mod_cast hden
  have hbelow : (2 : ℚ) ^ ((num.log2 : ℤ) - den.log2 - 1) ≤ num / den := by
    rw [show (num.log2 : ℤ) - den.log2 - 1 = num.log2 - (den.log2 + 1 : ℕ) by push_cast; ring,
      zpow_sub₀ (by norm_num), zpow_natCast, zpow_natCast]
    exact div_le_div₀ (by positivity) hnumLow hdenPos hdenHigh.le
  have habove : (num / den : ℚ) < 2 ^ ((num.log2 : ℤ) - den.log2 + 1) := by
    rw [show (num.log2 : ℤ) - den.log2 + 1 = (num.log2 + 1 : ℕ) - den.log2 by push_cast; ring,
      zpow_sub₀ (by norm_num), zpow_natCast, zpow_natCast]
    exact div_lt_div₀ hnumHigh hdenLow (by positivity) (by positivity)
  unfold binaryExponent
  simp only [← zpow_le_div_iff hden]
  split <;> rename_i hguess
  · exact ⟨hguess, habove⟩
  · refine ⟨hbelow, ?_⟩
    rw [sub_add_cancel]
    exact not_le.1 hguess

/-- The power of the significand that a quotient is rounded to, by what it lies between. -/
theorem roundingPower_eq {num den : Nat} {p : ℤ} (hnum : 0 < num) (hden : 0 < den)
    (hmin : -1074 ≤ p) (hlow : p = -1074 ∨ (2 : ℚ) ^ (p + 52) ≤ num / den)
    (hhigh : (num / den : ℚ) < 2 ^ (p + 53)) : max (binaryExponent num den - 52) (-1074) = p := by
  obtain ⟨hbelow, habove⟩ := binaryExponent_spec hnum hden
  have hle : binaryExponent num den < p + 53 :=
    (zpow_lt_zpow_iff_right₀ (by norm_num : (1 : ℚ) < 2)).1 (hbelow.trans_lt hhigh)
  rcases hlow with rfl | hlow
  · omega
  · have hge : p + 52 < binaryExponent num den + 1 :=
      (zpow_lt_zpow_iff_right₀ (by norm_num : (1 : ℚ) < 2)).1 (hlow.trans_lt habove)
    omega

/-! ## Rounding to ranks -/

/-- A quotient is rounded to the whole number that its multiple of a power of two is near to. -/
theorem divideToEven_scaled {num den m : Nat} {p : ℤ} (hden : 0 < den)
    (hlow : (m - 1 / 2 : ℚ) * 2 ^ p ≤ num / den) (hhigh : (num / den : ℚ) ≤ (m + 1 / 2) * 2 ^ p)
    (hends : m % 2 = 0 ∨
      (m - 1 / 2 : ℚ) * 2 ^ p < num / den ∧ (num / den : ℚ) < (m + 1 / 2) * 2 ^ p) :
    divideToEven (num * 2 ^ (-p).toNat) (den * 2 ^ p.toNat) = m := by
  have hdenQ : (0 : ℚ) < den := by exact_mod_cast hden
  have hpow : (0 : ℚ) < 2 ^ (-p).toNat := by positivity
  simp only [zpow_eq_div, ← mul_div_assoc] at hlow hhigh hends
  rw [div_le_div_iff₀ hpow hdenQ] at hlow
  rw [div_le_div_iff₀ hdenQ hpow] at hhigh
  rw [div_lt_div_iff₀ hpow hdenQ, div_lt_div_iff₀ hdenQ hpow] at hends
  refine divideToEven_eq (by positivity) ?_ ?_ ?_
  · have hcast : (2 * m * (den * 2 ^ p.toNat) : ℚ) ≤
        2 * (num * 2 ^ (-p).toNat) + den * 2 ^ p.toNat := by linarith
    exact_mod_cast hcast
  · have hcast : (2 * (num * 2 ^ (-p).toNat) : ℚ) ≤
        2 * m * (den * 2 ^ p.toNat) + den * 2 ^ p.toNat := by linarith
    exact_mod_cast hcast
  · refine hends.imp_right fun ⟨hleft, hright⟩ => ⟨?_, ?_⟩
    · have hcast : (2 * m * (den * 2 ^ p.toNat) : ℚ) <
          2 * (num * 2 ^ (-p).toNat) + den * 2 ^ p.toNat := by linarith
      exact_mod_cast hcast
    · have hcast : (2 * (num * 2 ^ (-p).toNat) : ℚ) <
          2 * m * (den * 2 ^ p.toNat) + den * 2 ^ p.toNat := by linarith
      exact_mod_cast hcast

/-- What a quotient is rounded to whose significand and power are known. -/
theorem nearestRank_of_bounds {num den m : Nat} {p : ℤ} (hnum : 0 < num) (hden : 0 < den)
    (hmin : -1074 ≤ p) (hpower : p = -1074 ∨ (2 ^ 52 : ℚ) * 2 ^ p ≤ num / den)
    (hlow : (m - 1 / 2 : ℚ) * 2 ^ p ≤ num / den) (hhigh : (num / den : ℚ) ≤ (m + 1 / 2) * 2 ^ p)
    (hlarge : (num / den : ℚ) < 2 ^ 53 * 2 ^ p)
    (hends : m % 2 = 0 ∨
      (m - 1 / 2 : ℚ) * 2 ^ p < num / den ∧ (num / den : ℚ) < (m + 1 / 2) * 2 ^ p) :
    (nearestRank num den : ℤ) = (p + 1074) * (2 ^ 52 : ℕ) + m := by
  have hshift (k : ℕ) : (2 : ℚ) ^ (p + k) = 2 ^ k * 2 ^ p := by
    rw [zpow_add₀ (by norm_num), zpow_natCast, mul_comm]
  have hmax := roundingPower_eq hnum hden hmin
    (hpower.imp_right fun hle => (hshift 52).trans_le hle) (hlarge.trans_eq (hshift 53).symm)
  rw [nearestRank, hmax]
  simp only [divideToEven_scaled hden hlow hhigh hends]
  omega

/-- A quotient near to the magnitude of a rank is rounded to the rank. -/
theorem nearestRank_eq {rank num den : Nat} (hnum : 0 < num) (hden : 0 < den)
    (h : IsNear rank (num / den)) : nearestRank num den = rank := by
  obtain ⟨hrank, hmin⟩ := rank_eq rank
  obtain ⟨hlow, hhigh, hends⟩ := h
  have hsignificand : (significand rank : ℚ) + 1 ≤ 2 ^ 53 := by
    exact_mod_cast significand_lt rank
  have hcases := significand_cases rank
  have hgap := gapBelow_le rank
  have hulp := ulp_pos rank
  simp only [magnitude] at hlow hhigh hends
  by_cases hpower : power rank = -1074 ∨ (2 ^ 52 : ℚ) * ulp rank ≤ num / den
  · -- the quotient has the power of the rank
    have hlarge : (num / den : ℚ) < 2 ^ 53 * ulp rank := by
      nlinarith
    have hround := nearestRank_of_bounds (m := significand rank) hnum hden hmin hpower
      (by simp only [ulp] at *; linarith) (by simp only [ulp] at *; linarith) hlarge ?_
    · omega
    · refine hends.imp_right fun ⟨hleft, hright⟩ => ?_
      simp only [ulp] at *
      constructor <;> linarith
  · -- the rank is a power of two, and the quotient lies below it
    obtain ⟨hnormal, hbelow⟩ := not_or.1 hpower
    rw [not_le] at hbelow
    obtain ⟨hfull, hrankLe⟩ := hcases.resolve_left fun hleft => hnormal hleft.1
    have hsmall : (significand rank : ℚ) < (2 ^ 52 + 1 : ℕ) := by
      push_cast
      nlinarith
    have hsig : significand rank = 2 ^ 52 := by
      have hlt : significand rank < 2 ^ 52 + 1 := by exact_mod_cast hsmall
      omega
    have hquarter : gapBelow rank = ulp rank / 4 := if_pos ⟨hsig, hrankLe⟩
    have hhalf : (2 : ℚ) ^ (power rank - 1) = ulp rank / 2 := by
      rw [zpow_sub_one₀ (by norm_num), ulp, div_eq_mul_inv]
    rw [hquarter, hsig] at hlow
    push_cast at hlow
    have hround := nearestRank_of_bounds (m := 2 ^ 53) (p := power rank - 1) hnum hden (by omega)
      (Or.inr (by rw [hhalf]; linarith)) (by rw [hhalf]; push_cast; linarith)
      (by rw [hhalf]; push_cast; linarith) (by rw [hhalf]; linarith) (Or.inl (by norm_num))
    omega

/-- A quotient near to the magnitude of a positive rank is rounded to the number of this rank. -/
theorem roundRatio_eq {negative : Bool} {rank : Fin rankCount} {num den : Nat} (hnum : 0 < num)
    (hden : 0 < den) (h : IsNear rank (num / den)) :
    roundRatio negative num den = .finite negative rank := by
  have hrank := nearestRank_eq hnum hden h
  simp only [roundRatio, hnum.ne', if_false, hrank, rank.isLt, dif_pos, Fin.eta]

end Binary64
end RunnerFleet
