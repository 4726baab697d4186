import RunnerFleet.Binary64.Rounding
import RunnerFleet.Document.Node
import RunnerFleet.Text.Digits

/-!
# Numbers in JSON texts

A number is a sign, digits, and perhaps a fraction and an exponent. It is a whole number if it has
neither of these and fits into 64 bits, and else a floating-point number.

A floating-point number is computed from as many digits as fit into 64 bits: the significand is
rounded to a float and then multiplied or divided by a rounded power of ten. The result may differ
from the nearest float in its last place.

Main results:

- `Number.readExponent_length_le`, `Number.read_length_lt`: reading consumes the text.
-/

namespace RunnerFleet
namespace Json

/-- A number as it is spelled. -/
structure Number where
  negative : Bool
  whole : List Nat
  fraction : Option (List Nat)
  /-- The exponent's sign and digits. -/
  exponent : Option (Bool × List Nat)

namespace Number

/-! ## Spelling -/

/-- The whole part in front of a text: one zero, or digits that do not start with a zero. -/
def readWhole (cs : List Char) : Option (List Nat × List Char) :=
  match Text.spanDigits cs with
  | ([], _) => none
  | ([0], rest) => some ([0], rest)
  | (0 :: _, _) => none
  | digits => some digits

/-- The fraction in front of a text, if there is one. -/
def readFraction (cs : List Char) : Option (Option (List Nat) × List Char) :=
  match cs with
  | '.' :: rest =>
      match Text.spanDigits rest with
      | ([], _) => none
      | (digits, rest) => some (some digits, rest)
  | _ => some (none, cs)

/-- The digits of an exponent with this sign. -/
def readExponentDigits (negative : Bool) (cs : List Char) :
    Option (Option (Bool × List Nat) × List Char) :=
  match Text.spanDigits cs with
  | ([], _) => none
  | (digits, rest) => some (some (negative, digits), rest)

/-- The exponent in front of a text, if there is one. -/
def readExponent (cs : List Char) : Option (Option (Bool × List Nat) × List Char) :=
  match cs with
  | c :: rest =>
      if c = 'e' ∨ c = 'E' then
        match rest with
        | '+' :: rest => readExponentDigits false rest
        | '-' :: rest => readExponentDigits true rest
        | rest => readExponentDigits false rest
      else some (none, cs)
  | [] => some (none, cs)

/-- The number without its sign in front of a text. -/
def readMagnitude (negative : Bool) (cs : List Char) : Option (Number × List Char) := do
  let (whole, rest) ← readWhole cs
  let (fraction, rest) ← readFraction rest
  let (exponent, rest) ← readExponent rest
  return ({ negative, whole, fraction, exponent }, rest)

/-- The number in front of a text. -/
def read (cs : List Char) : Option (Number × List Char) :=
  match cs with
  | '-' :: rest => readMagnitude true rest
  | _ => readMagnitude false cs

/-- Reading digits never lengthens what is left. -/
theorem length_le_of_spanDigits {cs rest : List Char} {digits : List Nat}
    (h : Text.spanDigits cs = (digits, rest)) : rest.length ≤ cs.length := by
  have := Text.spanDigits_length_le cs
  rwa [h] at this

/-- A whole part takes at least one character. -/
theorem readWhole_length_lt {cs rest : List Char} {digits : List Nat}
    (h : readWhole cs = some (digits, rest)) : rest.length < cs.length := by
  have key : ∀ ds r, Text.spanDigits cs = (ds, r) → ds ≠ [] → r.length < cs.length := by
    intro ds r hs hne
    cases cs with
    | nil => simp_all [Text.spanDigits]
    | cons c tail =>
        simp only [Text.spanDigits] at hs
        split at hs
        · injection hs with _ hr
          subst hr
          exact Nat.lt_succ_of_le (Text.spanDigits_length_le tail)
        · injection hs with hd _
          exact absurd hd.symm hne
  unfold readWhole at h
  split at h
  · contradiction
  · rename_i hs
    injection h with h
    injection h with _ h
    exact h ▸ key _ _ hs (by simp)
  · contradiction
  · rename_i h0 _ _
    injection h with h
    exact key _ _ h (fun hnil => h0 rest (hnil ▸ h))

/-- A fraction, there or not, never lengthens what is left. -/
theorem readFraction_length_le {cs rest : List Char} {digits : Option (List Nat)}
    (h : readFraction cs = some (digits, rest)) : rest.length ≤ cs.length := by
  unfold readFraction at h
  split at h
  · split at h
    · contradiction
    · rename_i hs
      injection h with h
      injection h with _ h
      subst h
      exact Nat.le_succ_of_le (length_le_of_spanDigits hs)
  · injection h with h
    injection h with _ h
    exact h ▸ Nat.le_refl _

/-- The digits of an exponent never lengthen what is left. -/
theorem readExponentDigits_length_le {negative : Bool} {cs rest : List Char}
    {e : Option (Bool × List Nat)} (h : readExponentDigits negative cs = some (e, rest)) :
    rest.length ≤ cs.length := by
  unfold readExponentDigits at h
  split at h
  · contradiction
  · rename_i hs
    injection h with h
    injection h with _ h
    exact h ▸ length_le_of_spanDigits hs

/-- An exponent, there or not, never lengthens what is left. -/
theorem readExponent_length_le {cs rest : List Char} {e : Option (Bool × List Nat)}
    (h : readExponent cs = some (e, rest)) : rest.length ≤ cs.length := by
  unfold readExponent at h
  split at h
  · split at h
    · split at h <;>
        exact Nat.le_trans (readExponentDigits_length_le h) (by simp <;> omega)
    · injection h with h
      injection h with _ h
      exact h ▸ Nat.le_refl _
  · injection h with h
    injection h with _ h
    exact h ▸ Nat.le_refl _

/-- A number without its sign takes at least one character. -/
theorem readMagnitude_length_lt {negative : Bool} {cs rest : List Char} {n : Number}
    (h : readMagnitude negative cs = some (n, rest)) : rest.length < cs.length := by
  simp only [readMagnitude, Option.bind_eq_bind, Option.bind_eq_some_iff, Prod.exists] at h
  obtain ⟨_, r₁, h₁, _, r₂, h₂, _, r₃, h₃, h⟩ := h
  injection h with h
  injection h with _ h
  subst h
  exact Nat.lt_of_le_of_lt (readExponent_length_le h₃)
    (Nat.lt_of_le_of_lt (readFraction_length_le h₂) (readWhole_length_lt h₁))

/-- A number takes at least one character, so reading values ends. -/
theorem read_length_lt {cs rest : List Char} {n : Number} (h : read cs = some (n, rest)) :
    rest.length < cs.length := by
  unfold read at h
  split at h
  · exact Nat.lt_succ_of_lt (readMagnitude_length_lt h)
  · exact readMagnitude_length_lt h

/-! ## Value -/

/-- The largest significand. -/
def significandLimit : Nat := 2 ^ 64 - 1

/--
Append digits to a significand while it stays within the limit, and give the digits that are left.
-/
def absorb (significand : Nat) : List Nat → Nat × List Nat
  | [] => (significand, [])
  | d :: rest =>
      if 10 * significand + d ≤ significandLimit then absorb (10 * significand + d) rest
      else (significand, d :: rest)

/-- The rounded power of ten. -/
def powerOfTen (n : Nat) : Binary64 :=
  Binary64.ofNat (10 ^ n)

/--
`significand * 10 ^ exponent` with one rounding a step: a product for exponents up to 308, a
quotient, or two quotients, for negative ones. Overflow has no value.
-/
def scale? (significand : Nat) (exponent : Int) : Option Binary64 :=
  let f := Binary64.ofNat significand
  if significand = 0 then some f
  else if 308 < exponent then none
  else if 0 ≤ exponent then
    match Binary64.mul f (powerOfTen exponent.toNat) with
    | .infinite _ => none
    | product => some product
  else if -308 ≤ exponent then some (Binary64.div f (powerOfTen (-exponent).toNat))
  else if -616 ≤ exponent then
    some (Binary64.div (Binary64.div f (powerOfTen 308)) (powerOfTen (-exponent - 308).toNat))
  else some (Binary64.zero false)

/-- The largest exponent that is computed with. -/
def exponentLimit : Int := 2 ^ 31 - 1

/-- The floating-point value of the digits, if it does not overflow. -/
def magnitude? (n : Number) : Option Binary64 :=
  let (significand, left) := absorb 0 n.whole
  let fraction := n.fraction.getD []
  let (significand, unused) := absorb significand fraction
  let places : Int := left.length - (fraction.length - unused.length : Nat)
  match n.exponent with
  | none => scale? significand places
  | some (negative, digits) =>
      let e : Int := Text.ofDigits 10 digits
      if exponentLimit < e then
        if significand ≠ 0 ∧ negative = false then none else some (Binary64.zero false)
      else if negative then scale? significand (max (places - e) (-exponentLimit - 1))
      else scale? significand (min (places + e) exponentLimit)

/-- The number as a floating-point value. -/
def toFloat (n : Number) : Document.Node :=
  match n.magnitude? with
  | some f => .float (if n.negative then f.neg else f)
  | none => .valueless

/--
The number as a node: whole if it is spelled so and fits. The negative zero is a floating-point
number.
-/
def toNode (n : Number) : Document.Node :=
  let value := Text.ofDigits 10 n.whole
  match n.fraction, n.exponent with
  | none, none =>
      if n.negative then
        if 0 < value ∧ value ≤ 2 ^ 63 then .integer (-value) else n.toFloat
      else if value ≤ significandLimit then .integer value
      else n.toFloat
  | _, _ => n.toFloat

end Number
end Json
end RunnerFleet
