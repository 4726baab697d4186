import RunnerFleet.Binary64.Basic

/-!
# The shortest decimal that reads back

A finite number is written with the fewest significant digits that no other number is nearer to,
and of the decimals of that length with the one nearest to the number itself. The digits stand in
positional notation, whatever the size of the number.
-/

namespace RunnerFleet
namespace Binary64

/-- The number `digits * 10 ^ exponent`. -/
structure Decimal where
  digits : Nat
  exponent : Int
deriving DecidableEq, Repr

namespace Decimal

/-- The decimal in positional notation, without a point where it is not needed. -/
def text (d : Decimal) : String :=
  let digits := Nat.toDigits 10 d.digits
  let places := (-d.exponent).toNat
  if 0 ≤ d.exponent then
    String.ofList (digits ++ List.replicate d.exponent.toNat '0')
  else if places < digits.length then
    String.ofList
      (digits.take (digits.length - places) ++ '.' :: digits.drop (digits.length - places))
  else
    String.ofList ('0' :: '.' :: List.replicate (places - digits.length) '0' ++ digits)

end Decimal

/--
The reals that round to a magnitude: between `low / den` and `high / den`, ends included where
`closed`.
-/
structure RoundingInterval where
  low : Nat
  mid : Nat
  high : Nat
  den : Nat
  closed : Bool

/-- The interval of a rank. Below a power of two the next number is only half as far away. -/
def roundingInterval (rank : Nat) : RoundingInterval :=
  let (num, den) := ratio rank
  let m := significand rank
  let unit := num / m
  let nearBelow := m = 2 ^ 52 ∧ 2 ^ 53 ≤ rank
  { low := 4 * num - if nearBelow then unit else 2 * unit
    mid := 4 * num
    high := 4 * num + 2 * unit
    den := 4 * den
    closed := m % 2 = 0 }

/-- Whether `n * 10 ^ exponent` lies in the interval. -/
def RoundingInterval.holds (i : RoundingInterval) (n : Nat) (exponent : Int) : Bool :=
  let x := n * 10 ^ exponent.toNat * i.den
  let scale := 10 ^ (-exponent).toNat
  if i.closed then i.low * scale ≤ x && x ≤ i.high * scale
  else i.low * scale < x && x < i.high * scale

/-- The largest `e` with `10 ^ e ≤ num / den`, for positive `num` and `den`. -/
def decimalExponent (num den : Nat) : Int :=
  if den ≤ num then ((Nat.toDigits 10 (num / den)).length : Int) - 1
  else -((Nat.toDigits 10 ((den + (num - 1)) / num - 1)).length : Int)

/--
The neighbour of the interval's middle on the grid of multiples of `10 ^ exponent` that lies in the
interval: of two such neighbours the nearer one, of two equally near ones the upper one.
-/
def RoundingInterval.gridPoint? (i : RoundingInterval) (exponent : Int) : Option Nat :=
  let num := i.mid * 10 ^ (-exponent).toNat
  let den := i.den * 10 ^ exponent.toNat
  let below := num / den
  match i.holds below exponent, i.holds (below + 1) exponent with
  | true, true => if 2 * (num % den) < den then some below else some (below + 1)
  | true, false => some below
  | false, true => some (below + 1)
  | false, false => none

/-- The first grid, from the one with `count` digits on, that has a point in the interval. -/
def RoundingInterval.firstPoint (i : RoundingInterval) (top : Int) : Nat → Nat → Decimal
  | 0, count => ⟨0, top + 1 - count⟩
  | fuel + 1, count =>
      let exponent := top + 1 - count
      match i.gridPoint? exponent with
      | some n => ⟨n, exponent⟩
      | none => firstPoint i top fuel (count + 1)

/--
The shortest decimal for the magnitude of a positive rank. The first grid is the power of ten above
the number, which may round to it; seventeen digits always suffice.
-/
def shortest (rank : Nat) : Decimal :=
  let i := roundingInterval rank
  i.firstPoint (decimalExponent i.mid i.den) 18 0

/-- The number as text: the shortest decimal in positional notation. -/
def text : Binary64 → String
  | nan => "NaN"
  | infinite negative => if negative then "-inf" else "inf"
  | finite negative rank =>
      let magnitude := if rank.val = 0 then "0" else (shortest rank).text
      if negative then "-" ++ magnitude else magnitude

/-- The text of a finite number with at least one decimal place. -/
def decimalText (x : Binary64) : String :=
  match x with
  | finite _ _ => if x.text.toList.contains '.' then x.text else x.text ++ ".0"
  | _ => x.text

end Binary64
end RunnerFleet
