import RunnerFleet.Powers

/-!
# Binary floating-point numbers of 64 bits

A finite number is a sign and a *rank*: the non-negative finite numbers, numbered in increasing
order from zero. The rank is also the bit pattern of the magnitude, so its lower 52 bits are the
stored fraction and the bits above them the biased exponent.

Main results:

- `significand_lt`: a magnitude is a whole number below `2 ^ 53` times a power of two.
- `ratio_den_pos`: the exact value of a rank has a positive denominator.
-/

namespace RunnerFleet

/-- How many non-negative finite numbers there are: 2047 exponents of `2 ^ 52` fractions each. -/
abbrev Binary64.rankCount : Nat := 2047 * 2 ^ 52

/-- A 64-bit floating-point number. The values that are not numbers are not told apart. -/
inductive Binary64 where
  | nan
  | infinite (negative : Bool)
  | finite (negative : Bool) (rank : Fin Binary64.rankCount)
deriving DecidableEq

namespace Binary64

/-- The number zero with its sign. -/
def zero (negative : Bool) : Binary64 :=
  .finite negative ⟨0, by decide⟩

/-- The number one. -/
def one : Binary64 :=
  .finite false ⟨1023 * 2 ^ 52, by decide⟩

instance : Inhabited Binary64 := ⟨zero false⟩

/-- The whole number `m` of the magnitude `m * 2 ^ q` with this rank. -/
def significand (rank : Nat) : Nat :=
  if rank < 2 ^ 52 then rank else 2 ^ 52 + rank % 2 ^ 52

/-- The power `q` of the magnitude `m * 2 ^ q` with this rank. -/
def power (rank : Nat) : Int :=
  if rank < 2 ^ 52 then -1074 else (rank / 2 ^ 52 : Nat) - 1075

/-- The magnitude with this rank, as an exact quotient. -/
def ratio (rank : Nat) : Nat × Nat :=
  (significand rank * 2 ^ (power rank).toNat, 2 ^ (-power rank).toNat)

/-- A significand has at most 53 bits. -/
theorem significand_lt (rank : Nat) : significand rank < 2 ^ 53 := by
  unfold significand
  split <;> omega

/-- The ratio of a rank has a positive denominator. -/
theorem ratio_den_pos (rank : Nat) : 0 < (ratio rank).2 :=
  Nat.two_pow_pos _

/-- Whether the number is not a number. -/
def isNaN : Binary64 → Bool
  | nan => true
  | _ => false

/-- The number with the other sign. -/
def neg : Binary64 → Binary64
  | nan => nan
  | infinite negative => infinite !negative
  | finite negative rank => finite (!negative) rank

/-- A whole number that orders the numbers that are not infinite or undefined. -/
def position (negative : Bool) (rank : Nat) : Int :=
  if negative then -(rank : Int) else rank

/-- The order of numbers: nothing compares with what is not a number, and zeros are equal. -/
def le : Binary64 → Binary64 → Bool
  | nan, _ => false
  | _, nan => false
  | infinite true, _ => true
  | _, infinite false => true
  | _, infinite true => false
  | infinite false, _ => false
  | finite s a, finite t b => position s a ≤ position t b

end Binary64
end RunnerFleet
