import RunnerFleet.Powers
import RunnerFleet.Text.Digits

/-!
# Whole numbers as text

A whole number is read from a sign that may be left out and one or more digits, and nothing else.
-/

namespace RunnerFleet
namespace Text

/-- The number spelled by digits alone. -/
def toNat? (cs : List Char) : Option Nat :=
  match spanDigits cs with
  | ([], _) => none
  | (digits, []) => some (ofDigits 10 digits)
  | _ => none

/-- The number spelled by digits, perhaps with a sign in front of them. -/
def toInt? (cs : List Char) : Option Int :=
  match cs with
  | '-' :: rest => (toNat? rest).map fun n => -(n : Int)
  | '+' :: rest => (toNat? rest).map fun n => (n : Int)
  | _ => (toNat? cs).map fun n => (n : Int)

/-- The number of 64 bits that a text spells. -/
def toInt64? (cs : List Char) : Option Int :=
  (toInt? cs).filter fun n => -2 ^ 63 ≤ n ∧ n < 2 ^ 63

end Text
end RunnerFleet
