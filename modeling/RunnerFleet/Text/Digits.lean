/-!
# Digits

Decimal and hexadecimal digits, the run of digits in front of a text, and the number that a row of
digits stands for. Only ASCII digits count.

Main results:

- `spanDigits_length_le`: taking digits off a text never makes it longer.
- `ofDigits_append_singleton`: one more digit multiplies by the base and adds the digit.
-/

namespace RunnerFleet
namespace Text

/-- The value of a decimal digit. -/
def digit? (c : Char) : Option Nat :=
  if '0' ≤ c ∧ c ≤ '9' then some (c.toNat - '0'.toNat) else none

/-- The value of a hexadecimal digit in either case. -/
def hexDigit? (c : Char) : Option Nat :=
  if '0' ≤ c ∧ c ≤ '9' then some (c.toNat - '0'.toNat)
  else if 'a' ≤ c ∧ c ≤ 'f' then some (c.toNat - 'a'.toNat + 10)
  else if 'A' ≤ c ∧ c ≤ 'F' then some (c.toNat - 'A'.toNat + 10)
  else none

/-- The digits in front of a text, and the rest of it. -/
def spanDigits : List Char → List Nat × List Char
  | [] => ([], [])
  | c :: rest =>
      match digit? c with
      | some d => (d :: (spanDigits rest).1, (spanDigits rest).2)
      | none => ([], c :: rest)

/-- The number with these digits, the most significant one first. -/
def ofDigits (base : Nat) (digits : List Nat) : Nat :=
  digits.foldl (fun n d => base * n + d) 0

/-- The number that these hexadecimal digits stand for. -/
def ofHexDigits? (cs : List Char) : Option Nat :=
  (cs.mapM hexDigit?).map (ofDigits 16)

/-- Reading digits never lengthens the text. -/
theorem spanDigits_length_le (cs : List Char) : (spanDigits cs).2.length ≤ cs.length := by
  induction cs with
  | nil => simp [spanDigits]
  | cons c rest ih =>
      simp only [spanDigits]
      split
      · exact Nat.le_succ_of_le ih
      · exact Nat.le_refl _

/-- One more digit shifts the number by its base and adds the digit. -/
@[simp]
theorem ofDigits_append_singleton (base : Nat) (digits : List Nat) (d : Nat) :
    ofDigits base (digits ++ [d]) = base * ofDigits base digits + d := by
  simp [ofDigits]

end Text
end RunnerFleet
