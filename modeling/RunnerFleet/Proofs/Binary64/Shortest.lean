import Mathlib.Data.Nat.Cast.Order.Field
import RunnerFleet.Binary64.Shortest
import RunnerFleet.Proofs.Binary64.Nearest
import RunnerFleet.Proofs.Text.Decimal

/-!
# The shortest decimal reads back

The shortest decimal of a number is looked for on finer and finer grids of decimals, until one of
the neighbours of the number on the grid is nearer to it than to every other number.  With seventeen
digits the grid is finer than the interval of the number is wide, so the search ends, and what it
finds is rounded to the number again.

Main results:

- `holds_iff`: an interval holds the decimals that are near to its rank.
- `exists_gridPoint`: a grid that is finer than the interval has a point in it.
- `shortest_isNear`: the shortest decimal is near to the rank.
- `ofDecimal_eq`: every decimal near to a rank is read as the number of the rank.
- `exists_spelled`: the text of a number spells a decimal near to its rank.
-/

namespace RunnerFleet
namespace Binary64

/-! ## The interval of a rank -/

variable {rank : Nat}

theorem significand_pos (hrank : 0 < rank) : 0 < significand rank := by
  unfold significand
  split <;> omega

theorem roundingInterval_den_pos (rank : Nat) : 0 < (roundingInterval rank).den := by
  simp only [roundingInterval, ratio]
  positivity

/-- The middle of the interval. -/
theorem roundingInterval_mid (rank : Nat) :
    ((roundingInterval rank).mid / (roundingInterval rank).den : ℚ) = magnitude rank := by
  have hpow : (0 : ℚ) < 2 ^ (-power rank).toNat := by positivity
  simp only [roundingInterval, ratio, magnitude, ulp, zpow_eq_div]
  push_cast
  field_simp

/-- The upper end of the interval. -/
theorem roundingInterval_high (hrank : 0 < rank) :
    ((roundingInterval rank).high / (roundingInterval rank).den : ℚ) =
      magnitude rank + ulp rank / 2 := by
  have hpow : (0 : ℚ) < 2 ^ (-power rank).toNat := by positivity
  simp only [roundingInterval, ratio, magnitude, ulp, zpow_eq_div,
    Nat.mul_div_cancel_left _ (significand_pos hrank)]
  push_cast
  field_simp
  ring

/-- The lower end of the interval. -/
theorem roundingInterval_low (hrank : 0 < rank) :
    ((roundingInterval rank).low / (roundingInterval rank).den : ℚ) =
      magnitude rank - gapBelow rank := by
  have hsig := significand_pos hrank
  have hpow : (0 : ℚ) < 2 ^ (-power rank).toNat := by positivity
  have hunit := Nat.mul_le_mul_right (2 ^ (power rank).toNat) hsig
  simp only [roundingInterval, ratio, magnitude, gapBelow, ulp, zpow_eq_div,
    Nat.mul_div_cancel_left _ hsig]
  split
  · rw [Nat.cast_sub (by omega)]
    push_cast
    field_simp
  · rw [Nat.cast_sub (by omega)]
    push_cast
    field_simp
    ring

/-- Comparing a decimal with a quotient needs no quotients. -/
theorem div_le_decimal_iff {a den : Nat} (hden : 0 < den) (n : Nat) (e : ℤ) :
    ((a / den : ℚ) ≤ n * 10 ^ e ↔ a * 10 ^ (-e).toNat ≤ n * 10 ^ e.toNat * den) ∧
      ((n * 10 ^ e : ℚ) ≤ a / den ↔ n * 10 ^ e.toNat * den ≤ a * 10 ^ (-e).toNat) := by
  have hdenQ : (0 : ℚ) < den := by exact_mod_cast hden
  have hpow : (0 : ℚ) < 10 ^ (-e).toNat := by positivity
  rw [zpow_eq_div, ← mul_div_assoc, div_le_div_iff₀ hdenQ hpow, div_le_div_iff₀ hpow hdenQ]
  exact ⟨by exact_mod_cast Iff.rfl, by exact_mod_cast Iff.rfl⟩

/-- The interval holds the decimals that are near to its rank. -/
theorem holds_iff (hrank : 0 < rank) (n : Nat) (e : ℤ) :
    (roundingInterval rank).holds n e = true ↔ IsNear rank (n * 10 ^ e) := by
  have hden := roundingInterval_den_pos rank
  have hlow := div_le_decimal_iff (a := (roundingInterval rank).low) hden n e
  have hhigh := div_le_decimal_iff (a := (roundingInterval rank).high) hden n e
  rw [roundingInterval_low hrank] at hlow
  rw [roundingInterval_high hrank] at hhigh
  have hclosed : (roundingInterval rank).closed = decide (significand rank % 2 = 0) := rfl
  simp only [RoundingInterval.holds, hclosed, decide_eq_true_eq]
  split <;> rename_i heven
  · rw [Bool.and_eq_true, decide_eq_true_eq, decide_eq_true_eq, ← hlow.1, ← hhigh.2]
    exact ⟨fun h => ⟨h.1, h.2, Or.inl heven⟩, fun h => ⟨h.low, h.high⟩⟩
  · rw [Bool.and_eq_true, decide_eq_true_eq, decide_eq_true_eq, ← not_le, ← not_le, ← hlow.2,
      ← hhigh.1, not_le, not_le]
    exact ⟨fun h => ⟨h.1.le, h.2.le, Or.inr h⟩, fun h => h.ends.resolve_left heven⟩

/-! ## Grids -/

/-- What a grid gives lies in the interval. -/
theorem gridPoint?_isNear (hrank : 0 < rank) {e : ℤ} {n : Nat}
    (h : (roundingInterval rank).gridPoint? e = some n) : IsNear rank (n * 10 ^ e) := by
  rw [← holds_iff hrank]
  simp only [RoundingInterval.gridPoint?] at h
  grind

/-- The point of a grid below a magnitude, which the search starts from. -/
theorem gridPoint_below (rank : Nat) (e : ℤ) :
    ∃ below : Nat, (below * 10 ^ e : ℚ) ≤ magnitude rank ∧
      magnitude rank < (below + 1 : ℕ) * 10 ^ e ∧
      ((roundingInterval rank).gridPoint? e = none →
        (roundingInterval rank).holds below e = false ∧
          (roundingInterval rank).holds (below + 1) e = false) := by
  have hden := roundingInterval_den_pos rank
  have hscaled : 0 < (roundingInterval rank).den * 10 ^ e.toNat := by positivity
  refine ⟨(roundingInterval rank).mid * 10 ^ (-e).toNat /
    ((roundingInterval rank).den * 10 ^ e.toNat), ?_, ?_, ?_⟩
  · rw [← roundingInterval_mid, (div_le_decimal_iff hden _ e).2, mul_assoc,
      mul_comm (10 ^ e.toNat)]
    exact Nat.div_mul_le_self _ _
  · rw [← roundingInterval_mid, ← not_le, (div_le_decimal_iff hden _ e).2, not_le, mul_assoc,
      mul_comm (10 ^ e.toNat)]
    exact Nat.lt_mul_of_div_lt (Nat.lt_succ_self _) hscaled
  · intro h
    simp only [RoundingInterval.gridPoint?] at h
    grind

/-- A grid that is finer than the interval is wide has a point in it. -/
theorem exists_gridPoint (hrank : 0 < rank) {e : ℤ}
    (hfine : (10 : ℚ) ^ e < gapBelow rank + ulp rank / 2) :
    ((roundingInterval rank).gridPoint? e).isSome = true := by
  have hulp := ulp_pos rank
  obtain ⟨below, hle, hlt, hnone⟩ := gridPoint_below rank e
  by_contra hmissing
  obtain ⟨hbelow, habove⟩ := hnone (by simpa using hmissing)
  rw [← Bool.not_eq_true, holds_iff hrank] at hbelow habove
  -- both neighbours are outside, so the interval fits between them
  have hleft : (below * 10 ^ e : ℚ) ≤ magnitude rank - gapBelow rank := by
    by_contra hinside
    exact hbelow ⟨by linarith, by linarith, Or.inr ⟨by linarith, by linarith⟩⟩
  have hright : magnitude rank + ulp rank / 2 ≤ (below + 1 : ℕ) * 10 ^ e := by
    by_contra hinside
    have hgap : 0 < gapBelow rank := by
      unfold gapBelow
      split <;> positivity
    exact habove ⟨by linarith, by linarith, Or.inr ⟨by linarith, by linarith⟩⟩
  push_cast at hright
  linarith

/-! ## The search -/

/-- The search gives a point of the first grid that has one. -/
theorem firstPoint_spec {i : RoundingInterval} {top : ℤ} {fuel count k : Nat} (hk : count ≤ k)
    (hfuel : k < count + fuel) (hpoint : (i.gridPoint? (top + 1 - k)).isSome = true) :
    i.gridPoint? (i.firstPoint top fuel count).exponent =
      some (i.firstPoint top fuel count).digits := by
  induction fuel generalizing count with
  | zero => omega
  | succ fuel ih =>
      simp only [RoundingInterval.firstPoint]
      split
      · assumption
      · rename_i hnone
        have hne : count ≠ k := by
          rintro rfl
          simp [hnone] at hpoint
        exact ih (by omega) (by omega)

/-- The decimal exponent of a positive quotient is not too large. -/
theorem decimalExponent_le {num den : Nat} (hnum : 0 < num) (hden : 0 < den) :
    (10 : ℚ) ^ decimalExponent num den ≤ num / den := by
  have hnumQ : (0 : ℚ) < num := by exact_mod_cast hnum
  have hdenQ : (0 : ℚ) < den := by exact_mod_cast hden
  unfold decimalExponent
  split <;> rename_i hle
  · -- the quotient has as many digits as its whole part
    have hpos := Nat.div_pos hle hden
    have hdigits := Nat.length_toDigits_pos (b := 10) (n := num / den)
    have hpow := Text.pow_length_toDigits_le hpos
    rw [show ((Nat.toDigits 10 (num / den)).length : ℤ) - 1 =
      ((Nat.toDigits 10 (num / den)).length - 1 : ℕ) by omega, zpow_natCast]
    calc (10 : ℚ) ^ ((Nat.toDigits 10 (num / den)).length - 1) ≤ (num / den : ℕ) := by
          exact_mod_cast hpow
      _ ≤ num / den := Nat.cast_div_le
  · -- the inverse, rounded up, is at most the power of ten with as many zeros
    have hlt := Text.lt_pow_length_toDigits ((den + (num - 1)) / num - 1)
    have hceil : den ≤ (den + (num - 1)) / num * num := by
      have hmod := Nat.div_add_mod' (den + (num - 1)) num
      have hrest := Nat.mod_lt (den + (num - 1)) hnum
      omega
    have hpow : den ≤ 10 ^ (Nat.toDigits 10 ((den + (num - 1)) / num - 1)).length * num :=
      hceil.trans (Nat.mul_le_mul_right _ (by omega))
    rw [zpow_neg, zpow_natCast, ← one_div, div_le_div_iff₀ (by positivity) hdenQ, one_mul,
      mul_comm]
    exact_mod_cast hpow

/-- With seventeen digits the grid is finer than the interval is wide. -/
theorem seventeen_digits_fine (hrank : 0 < rank) :
    (10 : ℚ) ^ (decimalExponent (roundingInterval rank).mid (roundingInterval rank).den + 1 -
      (17 : ℕ)) < gapBelow rank + ulp rank / 2 := by
  have hmid : 0 < (roundingInterval rank).mid := by
    have hsig := significand_pos hrank
    simp only [roundingInterval, ratio]
    positivity
  have hexponent := decimalExponent_le hmid (roundingInterval_den_pos rank)
  rw [roundingInterval_mid, magnitude] at hexponent
  have hulp := ulp_pos rank
  have hsig : (significand rank : ℚ) + 1 ≤ 2 ^ 53 := by
    exact_mod_cast significand_lt rank
  rw [show ∀ e : ℤ, e + 1 - (17 : ℕ) = e - 16 by intro e; omega, zpow_sub₀ (by norm_num)]
  unfold gapBelow
  split <;> rename_i hgap
  · rw [hgap.1] at hexponent
    push_cast at hexponent
    norm_num at hexponent ⊢
    linarith
  · norm_num at hsig ⊢
    nlinarith

/-- The shortest decimal is near to the rank. -/
theorem shortest_isNear (hrank : 0 < rank) :
    IsNear rank ((shortest rank).digits * 10 ^ (shortest rank).exponent) := by
  refine gridPoint?_isNear hrank (firstPoint_spec (k := 17) (by omega) (by omega) ?_)
  exact exists_gridPoint hrank (seventeen_digits_fine hrank)

/-! ## Reading decimals -/

/-- What is near to a positive rank is not too small. -/
theorem IsNear.lower {x : ℚ} (hrank : 0 < rank) (h : IsNear rank x) :
    (2 : ℚ) ^ (-1075 : ℤ) ≤ x := by
  have hulp := ulp_pos rank
  have hgap := gapBelow_le rank
  have hlow := h.low
  have hsig : (1 : ℚ) ≤ significand rank := by exact_mod_cast significand_pos hrank
  have hmin : (2 : ℚ) ^ (-1074 : ℤ) ≤ ulp rank :=
    zpow_le_zpow_right₀ (by norm_num) (rank_eq rank).2
  calc (2 : ℚ) ^ (-1075 : ℤ) = 2 ^ (-1074 : ℤ) / 2 := by
        rw [show (-1075 : ℤ) = -1074 - 1 by norm_num, zpow_sub_one₀ (by norm_num), div_eq_mul_inv]
    _ ≤ ulp rank / 2 := by linarith
    _ ≤ magnitude rank - gapBelow rank := by
        rw [magnitude]
        nlinarith
    _ ≤ x := hlow

/-- What is near to a rank is not too large. -/
theorem IsNear.upper {x : ℚ} (hrank : rank < rankCount) (h : IsNear rank x) :
    x < (2 : ℚ) ^ (1024 : ℤ) := by
  have hulp := ulp_pos rank
  have hhigh := h.high
  have hsig : (significand rank : ℚ) + 1 ≤ 2 ^ 53 := by exact_mod_cast significand_lt rank
  have hpower : power rank ≤ 971 := by
    have hcount : rank < 2047 * 2 ^ 52 := hrank
    unfold power
    split <;> omega
  have hmax : ulp rank ≤ (2 : ℚ) ^ (971 : ℤ) := zpow_le_zpow_right₀ (by norm_num) hpower
  calc x ≤ magnitude rank + ulp rank / 2 := hhigh
    _ < 2 ^ 53 * ulp rank := by
        rw [magnitude]
        nlinarith
    _ ≤ 2 ^ 53 * 2 ^ (971 : ℤ) := by linarith
    _ = 2 ^ (1024 : ℤ) := by
        rw [show (1024 : ℤ) = (53 : ℕ) + 971 by norm_num, zpow_add₀ (by norm_num), zpow_natCast]

/-- A power of ten is beyond all magnitudes, and its inverse below them. -/
theorem two_zpow_lt_ten_zpow :
    (2 : ℚ) ^ (1075 : ℤ) < 10 ^ (400 : ℤ) :=
  calc (2 : ℚ) ^ (1075 : ℤ) < 2 ^ ((3 : ℤ) * 400) :=
        zpow_lt_zpow_right₀ (by norm_num) (by norm_num)
    _ = (2 ^ (3 : ℤ)) ^ (400 : ℤ) := zpow_mul 2 3 400
    _ ≤ 10 ^ (400 : ℤ) := zpow_le_zpow_left₀ (by norm_num) (by norm_num) (by norm_num)

/-- A decimal lies between the powers of ten that its digits and its exponent tell. -/
theorem decimal_scale {digits : Nat} (hdigits : 0 < digits) (e : ℤ) :
    (10 : ℚ) ^ ((Nat.toDigits 10 digits).length + e - 1) ≤ digits * 10 ^ e ∧
      (digits * 10 ^ e : ℚ) < 10 ^ ((Nat.toDigits 10 digits).length + e) := by
  have hpow : (0 : ℚ) < 10 ^ e := by positivity
  have hlength := Nat.length_toDigits_pos (b := 10) (n := digits)
  have hlow : (10 : ℚ) ^ ((Nat.toDigits 10 digits).length - 1) ≤ digits := by
    exact_mod_cast Text.pow_length_toDigits_le hdigits
  have hhigh : (digits : ℚ) < 10 ^ (Nat.toDigits 10 digits).length := by
    exact_mod_cast Text.lt_pow_length_toDigits digits
  constructor
  · rw [show ((Nat.toDigits 10 digits).length : ℤ) + e - 1 =
      ((Nat.toDigits 10 digits).length - 1 : ℕ) + e by omega, zpow_add₀ (by norm_num), zpow_natCast]
    exact mul_le_mul_of_nonneg_right hlow hpow.le
  · rw [zpow_add₀ (by norm_num), zpow_natCast]
    exact mul_lt_mul_of_pos_right hhigh hpow

/-- What is near to a positive rank is neither so small nor so large that it is not rounded. -/
theorem IsNear.scale_bounds {digits : Nat} {e : ℤ} (hrank : 0 < rank) (hcount : rank < rankCount)
    (hdigits : 0 < digits) (h : IsNear rank (digits * 10 ^ e)) :
    -400 ≤ ((Nat.toDigits 10 digits).length : ℤ) + e ∧
      ((Nat.toDigits 10 digits).length : ℤ) + e ≤ 400 := by
  obtain ⟨hlarge, hsmall⟩ := decimal_scale hdigits e
  generalize ((Nat.toDigits 10 digits).length : ℤ) + e = scale at hlarge hsmall ⊢
  constructor
  · by_contra hlt
    have hpower : (10 : ℚ) ^ scale ≤ 10 ^ (-400 : ℤ) :=
      zpow_le_zpow_right₀ (by norm_num) (by omega)
    have hinv : (10 : ℚ) ^ (-400 : ℤ) < 2 ^ (-1075 : ℤ) := by
      rw [zpow_neg, zpow_neg]
      exact inv_strictAnti₀ (by positivity) two_zpow_lt_ten_zpow
    exact lt_irrefl _ ((((h.lower hrank).trans_lt hsmall).trans_le hpower).trans hinv)
  · by_contra hlt
    have hpower : (10 : ℚ) ^ (400 : ℤ) ≤ 10 ^ (scale - 1) :=
      zpow_le_zpow_right₀ (by norm_num) (by omega)
    have hless : (2 : ℚ) ^ (1024 : ℤ) < 10 ^ (400 : ℤ) :=
      (zpow_lt_zpow_right₀ (by norm_num) (by norm_num)).trans two_zpow_lt_ten_zpow
    exact lt_irrefl _ (((hpower.trans hlarge).trans_lt (h.upper hcount)).trans hless)

/-- A decimal near to a positive rank is not zero. -/
theorem IsNear.digits_pos {digits : Nat} {e : ℤ} (hrank : 0 < rank)
    (h : IsNear rank (digits * 10 ^ e)) : 0 < digits := by
  rcases Nat.eq_zero_or_pos digits with rfl | hpos
  · have hlower := h.lower hrank
    have hpositive : (0 : ℚ) < 2 ^ (-1075 : ℤ) := by positivity
    rw [Nat.cast_zero, zero_mul] at hlower
    exact absurd hpositive (not_lt.2 hlower)
  · exact hpos

/-- A decimal near to a positive rank is read as the number of the rank. -/
theorem ofDecimal_eq {negative : Bool} {rank : Fin rankCount} {digits : Nat} {e : ℤ}
    (hrank : 0 < rank.val) (h : IsNear rank (digits * 10 ^ e)) :
    ofDecimal negative digits e = .finite negative rank := by
  have hdigits := h.digits_pos hrank
  obtain ⟨hlow, hhigh⟩ := h.scale_bounds hrank rank.isLt hdigits
  rw [zpow_eq_div, ← mul_div_assoc] at h
  simp only [ofDecimal, hdigits.ne', not_lt.2 hlow, not_lt.2 hhigh, if_false]
  refine roundRatio_eq (by positivity) (by positivity) ?_
  exact_mod_cast h

/-! ## The text of a number -/

/--
Digits before and behind a decimal point, without a needless zero in front, that make up a decimal
near to the rank.
-/
structure Spelled (rank : Nat) (whole places : List Char) : Prop where
  whole_ne : whole ≠ []
  places_ne : places ≠ []
  whole_digits : ∀ c ∈ whole, c.isDigit = true
  places_digits : ∀ c ∈ places, c.isDigit = true
  leading : whole = ['0'] ∨ whole.head? ≠ some '0'
  near : IsNear rank (Text.ofDigits 10 (Text.values (whole ++ places)) *
    10 ^ (-(places.length : ℤ)))

/-- A positive number does not start with a zero. -/
theorem head?_toDigits_ne {n : Nat} (hpos : 0 < n) : (Nat.toDigits 10 n).head? ≠ some '0' := by
  rcases Text.values_toDigits_cases n with ⟨rfl, -⟩ | ⟨-, d, rest, hvalues, hd⟩
  · exact absurd hpos (lt_irrefl 0)
  · intro hzero
    obtain ⟨cs, hcs⟩ := List.head?_eq_some_iff.1 hzero
    rw [hcs] at hvalues
    exact hd (List.cons.inj hvalues).1.symm

/-- The values of zeros. -/
theorem values_replicate_zero (k : Nat) :
    Text.values (List.replicate k '0') = List.replicate k 0 := by
  simp [Text.values]

theorem isDigit_of_mem_zeros {k : Nat} {c : Char} (h : c ∈ List.replicate k '0') :
    c.isDigit = true := by
  rw [List.eq_of_mem_replicate h]
  decide

/-- A whole number is written with zeros behind its digits, and with a zero behind the point. -/
theorem spelled_whole {d : Decimal} (hnear : IsNear rank (d.digits * 10 ^ d.exponent))
    (hpos : 0 < d.digits) (hexponent : 0 ≤ d.exponent) :
    Spelled rank (Nat.toDigits 10 d.digits ++ List.replicate d.exponent.toNat '0') ['0'] where
  whole_ne := by simp
  places_ne := by simp
  whole_digits := by
    intro c hc
    rcases List.mem_append.1 hc with hc | hc
    · exact Text.isDigit_of_mem_toDigits hc
    · exact isDigit_of_mem_zeros hc
  places_digits := fun _ hc => isDigit_of_mem_zeros (k := 1) hc
  leading := by
    have hhead := head?_toDigits_ne hpos
    rw [List.head?_append_of_ne_nil _ (by simp)]
    exact Or.inr hhead
  near := by
    have hzeros : List.replicate d.exponent.toNat '0' ++ ['0'] =
        List.replicate (d.exponent.toNat + 1) '0' := List.replicate_succ'.symm
    have hvalue : Text.ofDigits 10 (Text.values (Nat.toDigits 10 d.digits ++
        List.replicate d.exponent.toNat '0' ++ ['0'])) =
          d.digits * 10 ^ (d.exponent.toNat + 1) := by
      rw [List.append_assoc, hzeros, Text.values, List.map_append, ← Text.values, ← Text.values,
        values_replicate_zero, Text.ofDigits_append_zeros, Text.ofDigits_toDigits]
    obtain ⟨n, hn⟩ := Int.eq_ofNat_of_zero_le hexponent
    rw [hvalue]
    rw [hn] at hnear ⊢
    simp only [Int.toNat_natCast, List.length_cons, List.length_nil, Nat.cast_mul, Nat.cast_pow,
      Nat.cast_ofNat, zero_add, Nat.cast_one]
    rw [zpow_natCast] at hnear
    rwa [pow_succ, zpow_neg, zpow_one, mul_assoc, mul_assoc, mul_inv_cancel₀ (by norm_num),
      mul_one]

/-- A number with more digits than decimal places has the point among the digits. -/
theorem spelled_inside {d : Decimal} (hnear : IsNear rank (d.digits * 10 ^ d.exponent))
    (hpos : 0 < d.digits) (hexponent : d.exponent < 0)
    (hplaces : (-d.exponent).toNat < (Nat.toDigits 10 d.digits).length) :
    Spelled rank
      ((Nat.toDigits 10 d.digits).take ((Nat.toDigits 10 d.digits).length - (-d.exponent).toNat))
      ((Nat.toDigits 10 d.digits).drop
        ((Nat.toDigits 10 d.digits).length - (-d.exponent).toNat)) where
  whole_ne := by
    rw [← List.length_pos_iff, List.length_take]
    omega
  places_ne := by
    rw [← List.length_pos_iff, List.length_drop]
    omega
  whole_digits := fun c hc => Text.isDigit_of_mem_toDigits (List.mem_of_mem_take hc)
  places_digits := fun c hc => Text.isDigit_of_mem_toDigits (List.mem_of_mem_drop hc)
  leading := by
    have hhead := head?_toDigits_ne hpos
    rw [List.head?_take, if_neg (by omega)]
    exact Or.inr hhead
  near := by
    rw [List.take_append_drop, Text.ofDigits_toDigits, List.length_drop]
    have hlength : -(((Nat.toDigits 10 d.digits).length -
        ((Nat.toDigits 10 d.digits).length - (-d.exponent).toNat) : ℕ) : ℤ) = d.exponent := by
      omega
    rwa [hlength]

/-- A number with more decimal places than digits has zeros behind the point. -/
theorem spelled_below {d : Decimal} (hnear : IsNear rank (d.digits * 10 ^ d.exponent))
    (hplaces : (Nat.toDigits 10 d.digits).length ≤ (-d.exponent).toNat) :
    Spelled rank ['0'] (List.replicate ((-d.exponent).toNat - (Nat.toDigits 10 d.digits).length) '0'
      ++ Nat.toDigits 10 d.digits) where
  whole_ne := by simp
  places_ne := by simp
  whole_digits := fun _ hc => isDigit_of_mem_zeros (k := 1) hc
  places_digits := by
    intro c hc
    rcases List.mem_append.1 hc with hc | hc
    · exact isDigit_of_mem_zeros hc
    · exact Text.isDigit_of_mem_toDigits hc
  leading := Or.inl rfl
  near := by
    have hdigits := Nat.length_toDigits_pos (b := 10) (n := d.digits)
    have hlength : -(((-d.exponent).toNat - (Nat.toDigits 10 d.digits).length +
        (Nat.toDigits 10 d.digits).length : ℕ) : ℤ) = d.exponent := by
      omega
    rw [← List.append_assoc, List.singleton_append, ← List.replicate_succ, Text.values,
      List.map_append, ← Text.values, ← Text.values, values_replicate_zero, Text.ofDigits_zeros,
      Text.ofDigits_toDigits, List.length_append, List.length_replicate, hlength]
    exact hnear

/-- A positive finite number is written as digits before and behind a decimal point. -/
theorem exists_spelled {rank : Fin rankCount} (hrank : 0 < rank.val) :
    ∃ whole places, (decimalText (.finite false rank)).toList = whole ++ '.' :: places ∧
      Spelled rank whole places := by
  have hnear := shortest_isNear hrank
  have hpos := hnear.digits_pos hrank
  simp only [decimalText, text, hrank.ne', if_false, Bool.false_eq_true, Decimal.text]
  generalize shortest rank = d at *
  split <;> rename_i hexponent
  · refine ⟨_, _, ?_, spelled_whole hnear hpos hexponent⟩
    have hpoint : '.' ∉ Nat.toDigits 10 d.digits ++ List.replicate d.exponent.toNat '0' := by
      intro hmem
      exact absurd ((spelled_whole hnear hpos hexponent).whole_digits _ hmem) (by decide)
    rw [String.toList_ofList, if_neg (by simpa using hpoint), String.toList_append,
      String.toList_ofList]
    rfl
  · split <;> rename_i hplaces
    · refine ⟨_, _, ?_, spelled_inside hnear hpos (by omega) hplaces⟩
      simp
    · refine ⟨_, _, ?_, spelled_below hnear (by omega)⟩
      simp

end Binary64
end RunnerFleet
