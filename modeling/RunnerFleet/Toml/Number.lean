import RunnerFleet.Binary64.Rounding
import RunnerFleet.Timestamp.Text
import RunnerFleet.Toml.Value

/-!
# Numbers, dates and times in TOML texts

Digits may be parted by single underscores. A number with a fraction or an exponent is a
floating-point number, and so are infinity and what is not a number; all others are whole numbers of
64 bits, which may also be written in base sixteen, eight or two.

Main results:

- `integer64_eq_some_iff`: whole numbers are those of 64 bits.
-/

namespace RunnerFleet
namespace Toml

/-- What was read in front of a text, and the rest of it. -/
abbrev Scan (α : Type) := List Char → Option (α × List Char)

/-! ## Digits -/

/-- Digits that may be parted by underscores, behind a first digit. -/
def moreDigits (digit? : Char → Option Nat) : List Char → Option (List Nat × List Char)
  | [] => some ([], [])
  | c :: rest =>
      match digit? c with
      | some d => (moreDigits digit? rest).map fun (ds, rest) => (d :: ds, rest)
      | none =>
          if c = '_' then
            match rest with
            | [] => none
            | c :: rest =>
                match digit? c with
                | some d => (moreDigits digit? rest).map fun (ds, rest) => (d :: ds, rest)
                | none => none
          else some ([], c :: rest)

/-- Digits that may be parted by underscores. -/
def someDigits (digit? : Char → Option Nat) : Scan (List Nat)
  | [] => none
  | c :: rest =>
      match digit? c with
      | some d => (moreDigits digit? rest).map fun (ds, rest) => (d :: ds, rest)
      | none => none

/-- The digits of a number in base ten: no zero stands in front of another digit. -/
def wholeDigits (cs : List Char) : Option (List Nat × List Char) :=
  match cs with
  | '0' :: rest => some ([0], rest)
  | _ => someDigits Text.digit? cs

/-- The value of a digit below `base`. -/
def digitBelow? (base : Nat) (c : Char) : Option Nat :=
  (Text.hexDigit? c).filter (· < base)

/-! ## Numbers -/

/-- A whole number of 64 bits. -/
def integer64 (n : Int) : Option Value :=
  if -2 ^ 63 ≤ n ∧ n < 2 ^ 63 then some (.integer n) else none

/-- Exactly the integers of 64 bits are values. -/
theorem integer64_eq_some_iff {n : Int} {v : Value} :
    integer64 n = some v ↔ (-2 ^ 63 ≤ n ∧ n < 2 ^ 63) ∧ v = .integer n := by
  unfold integer64
  split <;> rename_i h
  · constructor
    · intro heq
      injection heq with heq
      exact ⟨h, heq.symm⟩
    · rintro ⟨_, rfl⟩
      rfl
  · simp only [h, false_and, reduceCtorEq]

/-- The exponent in front of a text, if there is one. -/
def exponent : Scan (Option Int) := fun cs =>
  let signed (negative : Bool) (rest : List Char) : Option (Option Int × List Char) :=
    (someDigits Text.digit? rest).map fun (ds, rest) =>
      let n : Int := Text.ofDigits 10 ds
      (some (if negative then -n else n), rest)
  match cs with
  | c :: rest =>
      if c = 'e' ∨ c = 'E' then
        match rest with
        | '+' :: rest => signed false rest
        | '-' :: rest => signed true rest
        | rest => signed false rest
      else some (none, cs)
  | [] => some (none, cs)

/-- The fraction in front of a text, if there is one. -/
def fraction : Scan (Option (List Nat)) := fun cs =>
  match cs with
  | '.' :: rest => (someDigits Text.digit? rest).map fun (ds, rest) => (some ds, rest)
  | _ => some (none, cs)

/-- A floating-point number with these parts. One that is too large is none. -/
def floatOf (negative : Bool) (whole places : List Nat) (e : Int) : Option Value :=
  match Binary64.ofDecimal negative (Text.ofDigits 10 (whole ++ places)) (e - places.length) with
  | .infinite false => none
  | x => some (.float x)

/-- A number in base ten behind its sign. -/
def decimal (negative : Bool) : Scan Value := fun cs => do
  let (whole, rest) ← wholeDigits cs
  let (places, rest) ← fraction rest
  let (e, rest) ← exponent rest
  if places.isSome || e.isSome then
    return (← floatOf negative whole (places.getD []) (e.getD 0), rest)
  else
    let n : Int := Text.ofDigits 10 whole
    return (← integer64 (if negative then -n else n), rest)

/-- A number behind its sign. -/
def signed (negative : Bool) : Scan Value
  | 'i' :: 'n' :: 'f' :: rest => some (.float (.infinite negative), rest)
  | 'n' :: 'a' :: 'n' :: rest => some (.float .nan, rest)
  | cs => decimal negative cs

/-- A whole number in another base, behind the letters for it. -/
def based (base : Nat) : Scan Value := fun cs => do
  let (ds, rest) ← someDigits (digitBelow? base) cs
  return (← integer64 (Text.ofDigits base ds), rest)

/-- A number in front of a text. -/
def number : Scan Value
  | '0' :: 'x' :: rest => based 16 rest
  | '0' :: 'o' :: rest => based 8 rest
  | '0' :: 'b' :: rest => based 2 rest
  | '+' :: rest => signed false rest
  | '-' :: rest => signed true rest
  | cs => signed false cs

/-! ## Dates and times -/

/-- A number of exactly two digits. -/
def twoDigits : Scan Nat
  | a :: b :: rest => do
      let a ← Text.digit? a
      let b ← Text.digit? b
      return (10 * a + b, rest)
  | _ => none

/-- The text behind a mark. -/
def expect (mark : Char) : List Char → Option (List Char)
  | c :: rest => if c = mark then some rest else none
  | [] => none

/-- A day in its normal form. -/
def date : Scan String := fun cs => do
  let (century, cs) ← twoDigits cs
  let (year, cs) ← twoDigits cs
  let cs ← expect '-' cs
  let (month, cs) ← twoDigits cs
  let cs ← expect '-' cs
  let (day, cs) ← twoDigits cs
  let d : Day := ⟨100 * century + year, month, day⟩
  if d.Valid then
    return (Timestamp.padded 4 (100 * century + year) ++ "-" ++ Timestamp.padded 2 month ++ "-" ++
      Timestamp.padded 2 day, cs)
  else none

/-- The decimal places of a second in their normal form: up to nine, without zeros at the end. -/
def places : Scan String := fun cs =>
  match cs with
  | '.' :: rest =>
      match Text.spanDigits rest with
      | ([], _) => some ("", cs)
      | (ds, rest) =>
          let kept := ((ds.take 9).reverse.dropWhile (· == 0)).reverse
          let text := if kept.isEmpty then "" else "." ++ String.ofList (kept.map Nat.digitChar)
          some (text, rest)
  | _ => some ("", cs)

/-- A time of day in its normal form. -/
def time : Scan String := fun cs => do
  let (hour, cs) ← twoDigits cs
  let cs ← expect ':' cs
  let (minute, cs) ← twoDigits cs
  let cs ← expect ':' cs
  let (second, cs) ← twoDigits cs
  let (places, cs) ← places cs
  if hour < 24 ∧ minute < 60 ∧ second ≤ 60 then
    return (Timestamp.padded 2 hour ++ ":" ++ Timestamp.padded 2 minute ++ ":" ++
      Timestamp.padded 2 second ++ places, cs)
  else none

/-- The hours and minutes of an offset in its normal form. -/
def offsetTime (negative : Bool) : Scan String := fun cs => do
  let (hour, cs) ← twoDigits cs
  let cs ← expect ':' cs
  let (minute, cs) ← twoDigits cs
  if hour < 24 ∧ minute < 60 then
    let sign := if negative ∧ (hour ≠ 0 ∨ minute ≠ 0) then "-" else "+"
    return (sign ++ Timestamp.padded 2 hour ++ ":" ++ Timestamp.padded 2 minute, cs)
  else none

/-- An offset in its normal form, if there is one. -/
def offset : Scan String := fun cs =>
  match cs with
  | 'Z' :: rest => some ("Z", rest)
  | 'z' :: rest => some ("Z", rest)
  | '+' :: rest => offsetTime false rest
  | '-' :: rest => offsetTime true rest
  | _ => some ("", cs)

/-- The time of day, and perhaps the offset, that may follow a day. -/
def timeBehind (day : String) (cs : List Char) : Option (Value × List Char) :=
  match cs with
  | c :: rest =>
      if c = 'T' ∨ c = 't' ∨ c = ' ' then
        match time rest with
        | some (time, rest) =>
            (offset rest).map fun (offset, rest) => (.datetime (day ++ "T" ++ time ++ offset), rest)
        | none => some (.datetime day, cs)
      else some (.datetime day, cs)
  | [] => some (.datetime day, cs)

/-- A date, a time of day, or both. -/
def datetime : Scan Value := fun cs =>
  match date cs with
  | some (day, rest) => timeBehind day rest
  | none => (time cs).map fun (time, rest) => (.datetime time, rest)

end Toml
end RunnerFleet
