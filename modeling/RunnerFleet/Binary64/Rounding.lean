import RunnerFleet.Binary64.Basic

/-!
# Rounding to the nearest number

Arithmetic computes an exact quotient and rounds it once: to the nearest number, of two equally
near ones to the one with the even significand, and beyond the largest finite number to infinity.

Main results:

- `divideToEven_of_dvd`: a quotient that is a whole number is not rounded.
- `roundRatio_zero`: the quotient zero rounds to zero.
-/

namespace RunnerFleet
namespace Binary64

/-- The whole number nearest to `num / den`; of two equally near ones, the even one. -/
def divideToEven (num den : Nat) : Nat :=
  let floor := num / den
  let rest := 2 * (num % den)
  if rest < den then floor
  else if rest = den then floor + floor % 2
  else floor + 1

/-- A quotient that comes out even needs no rounding. -/
theorem divideToEven_of_dvd {num den : Nat} (hpos : 0 < den) (h : den ∣ num) :
    divideToEven num den = num / den := by
  simp [divideToEven, Nat.mod_eq_zero_of_dvd h, hpos]

/-- The largest `e` with `2 ^ e ≤ num / den`, for positive `num` and `den`. -/
def binaryExponent (num den : Nat) : Int :=
  let guess := (Nat.log2 num : Int) - Nat.log2 den
  if den * 2 ^ guess.toNat ≤ num * 2 ^ (-guess).toNat then guess else guess - 1

/-- The rank nearest to the magnitude `num / den`; it is too large where that overflows. -/
def nearestRank (num den : Nat) : Nat :=
  let q := max (binaryExponent num den - 52) (-1074)
  (q + 1074).toNat * 2 ^ 52 + divideToEven (num * 2 ^ (-q).toNat) (den * 2 ^ q.toNat)

/-- The number with this sign that is nearest to the magnitude `num / den`. -/
def roundRatio (negative : Bool) (num den : Nat) : Binary64 :=
  if num = 0 then zero negative
  else
    let rank := nearestRank num den
    if h : rank < rankCount then .finite negative ⟨rank, h⟩ else .infinite negative

/-- A zero numerator rounds to the zero of its sign. -/
@[simp]
theorem roundRatio_zero (negative : Bool) (den : Nat) : roundRatio negative 0 den = zero negative :=
  rfl

/-- The number nearest to a whole number. -/
def ofInt (n : Int) : Binary64 :=
  roundRatio (n < 0) n.natAbs 1

/-- The number nearest to a natural number. -/
def ofNat (n : Nat) : Binary64 :=
  roundRatio false n 1

/--
The number nearest to `digits * 10 ^ exponent`. Beyond `10 ^ 400` and below `10 ^ (-400)` the
result is decided by the number of digits alone, so that no huge power is computed.
-/
def ofDecimal (negative : Bool) (digits : Nat) (exponent : Int) : Binary64 :=
  let scale := ((Nat.toDigits 10 digits).length : Int) + exponent
  if digits = 0 then zero negative
  else if 400 < scale then .infinite negative
  else if scale < -400 then zero negative
  else roundRatio negative (digits * 10 ^ exponent.toNat) (10 ^ (-exponent).toNat)

/-- Rounded multiplication. -/
def mul : Binary64 → Binary64 → Binary64
  | nan, _ => nan
  | _, nan => nan
  | infinite s, infinite t => .infinite (s != t)
  | infinite s, finite t b => if b.val = 0 then nan else .infinite (s != t)
  | finite s a, infinite t => if a.val = 0 then nan else .infinite (s != t)
  | finite s a, finite t b =>
      let (an, ad) := ratio a
      let (bn, bd) := ratio b
      roundRatio (s != t) (an * bn) (ad * bd)

/-- Rounded division of finite numbers; what is not a finite quotient is not a number. -/
def div : Binary64 → Binary64 → Binary64
  | finite s a, finite t b =>
      let (an, ad) := ratio a
      let (bn, bd) := ratio b
      if b.val = 0 then nan else roundRatio (s != t) (an * bd) (ad * bn)
  | _, _ => nan

/--
The least natural number not below `x`, but at most `limit`. What is not a number, and what is
negative, counts as zero.
-/
def ceilUpTo (limit : Nat) : Binary64 → Nat
  | nan => 0
  | infinite negative => if negative then 0 else limit
  | finite negative rank =>
      let (num, den) := ratio rank
      if negative then 0 else min ((num + (den - 1)) / den) limit

end Binary64
end RunnerFleet
