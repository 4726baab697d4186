import RunnerFleet.Text.Blank
import RunnerFleet.Text.Digits
import RunnerFleet.Timestamp.Basic

/-!
# Moments as text

A moment is written as `YYYY-MM-DDTHH:MM:SSZ`, with three, six or nine decimal places of the second
where they are needed. Years outside of four digits carry a sign.

The reader is more lenient than that. Numbers may have fewer digits and blanks in front of them, the
day and the time of day are parted by a letter or a blank, and the offset from universal time may be
spelled in several ways.
-/

namespace RunnerFleet
namespace Timestamp

/-! ## Writing -/

/-- The digits of `n` with zeros in front of them up to `width` characters. -/
def padded (width n : Nat) : String :=
  let digits := toString n
  String.ofList (List.replicate (width - digits.length) '0') ++ digits

/-- The year: four digits, or else a sign and at least four digits. -/
def yearText (year : Int) : String :=
  if 0 ≤ year ∧ year ≤ 9999 then padded 4 year.toNat
  else (if year < 0 then "-" else "+") ++ padded 4 year.natAbs

/-- The decimal places of a second in groups of three, as many groups as are needed. -/
def decimalPlaces (nanosecond : Nat) : String :=
  if nanosecond = 0 then ""
  else if nanosecond % 1000000 = 0 then "." ++ padded 3 (nanosecond / 1000000)
  else if nanosecond % 1000 = 0 then "." ++ padded 6 (nanosecond / 1000)
  else "." ++ padded 9 nanosecond

/-- The text of a moment. -/
def text (t : Timestamp) : String :=
  yearText t.day.year ++ "-" ++ padded 2 t.day.month ++ "-" ++ padded 2 t.day.day ++ "T" ++
    padded 2 t.hour ++ ":" ++ padded 2 t.minute ++ ":" ++ padded 2 t.second ++
    decimalPlaces t.nanosecond ++ "Z"

/-! ## Reading -/

/-- What is left of a text, with what was read in front of it. -/
abbrev Scan (α : Type) := List Char → Option (α × List Char)

/-- A number of one to `width` digits. -/
def digits (width : Nat) : Scan Nat := fun cs =>
  match ((Text.spanDigits cs).1.take width).length with
  | 0 => none
  | count => some (Text.ofDigits 10 ((Text.spanDigits cs).1.take width), cs.drop count)

/-- A number of one to `width` digits, perhaps after blanks. -/
def number (width : Nat) : Scan Nat := fun cs =>
  digits width (Text.trimStart cs)

/-- A year, perhaps after blanks: up to four digits, or a sign and any number of digits. -/
def year : Scan Int := fun cs =>
  match Text.trimStart cs with
  | '-' :: rest => (digits rest.length rest).map fun (n, rest) => (-(n : Int), rest)
  | '+' :: rest => (digits rest.length rest).map fun (n, rest) => ((n : Int), rest)
  | rest => (digits 4 rest).map fun (n, rest) => ((n : Int), rest)

/-- A mark, perhaps after blanks. -/
def mark (c : Char) (cs : List Char) : Option (List Char) :=
  match Text.trimStart cs with
  | first :: rest => if first = c then some rest else none
  | [] => none

/-- The decimal places of a second, as nanoseconds; places beyond the ninth are dropped. -/
def nanoseconds : Scan Nat := fun cs =>
  match cs with
  | '.' :: rest =>
      match Text.spanDigits rest with
      | ([], _) => none
      | (places, rest) =>
          let kept := places.take 9
          some (Text.ofDigits 10 kept * 10 ^ (9 - kept.length), rest)
  | _ => some (0, cs)

/-- The offset in minutes that a number of hours and minutes of two digits each stands for. -/
def offsetMinutes (cs : List Char) : Option (Nat × List Char) := do
  match cs with
  | h₁ :: h₂ :: rest =>
      let h₁ ← Text.digit? h₁
      let h₂ ← Text.digit? h₂
      match rest.dropWhile (fun c => c == ':' || Text.isBlank c) with
      | m₁ :: m₂ :: rest =>
          let m₁ ← Text.digit? m₁
          let m₂ ← Text.digit? m₂
          if m₁ < 6 then some ((10 * h₁ + h₂) * 60 + (10 * m₁ + m₂), rest) else none
      | _ => none
  | _ => none

/-- Whether the letters are the abbreviation of universal time, in either case. -/
def isUniversal (a b c : Char) : Bool :=
  (a == 'U' || a == 'u') && (b == 'T' || b == 't') && (c == 'C' || c == 'c')

/-- An offset from universal time in minutes: the letters of universal time, or a sign and a time. -/
def offset : Scan Int := fun cs =>
  match cs with
  | 'Z' :: rest => some (0, rest)
  | 'z' :: rest => some (0, rest)
  | '+' :: rest => (offsetMinutes rest).map fun (n, rest) => ((n : Int), rest)
  | '-' :: rest => (offsetMinutes rest).map fun (n, rest) => (-(n : Int), rest)
  | '\u2212' :: rest => (offsetMinutes rest).map fun (n, rest) => (-(n : Int), rest)
  | a :: b :: c :: rest => if isUniversal a b c then some (0, rest) else none
  | _ => none

/-- The moment at which clocks with this offset show this day and time, if the offset is below a
day. -/
def ofLocal? (day : Day) (hour minute second nanosecond : Nat) (offset : Int) : Option Timestamp :=
  let minutes : Int := hour * 60 + minute - offset
  let day' := if minutes < 0 then day.previous else if 1440 ≤ minutes then day.next else day
  let rest := (minutes % 1440).toNat
  if day.Valid ∧ minYear ≤ day.year ∧ day.year ≤ maxYear ∧ hour < 24 ∧ minute < 60 ∧
      -1440 < offset ∧ offset < 1440 then
    ofParts? day' (rest / 60) (rest % 60) second nanosecond
  else none

/-- The letter or blank between the day and the time of day. -/
def isDivider (c : Char) : Bool :=
  c == 'T' || c == 't' || c == ' '

/-- The moment that a text stands for. -/
def ofText? (text : String) : Option Timestamp := do
  let (year, cs) ← year text.toList
  let cs ← mark '-' cs
  let (month, cs) ← number 2 cs
  let cs ← mark '-' cs
  let (day, cs) ← number 2 cs
  let (divider, cs) ← cs.head?.map (·, cs.tail)
  guard (isDivider divider)
  let (hour, cs) ← number 2 cs
  let cs ← mark ':' cs
  let (minute, cs) ← number 2 cs
  let cs ← mark ':' cs
  let (second, cs) ← number 2 cs
  let (nanosecond, cs) ← nanoseconds cs
  let (offset, cs) ← offset (Text.trimStart cs)
  guard (Text.trimStart cs).isEmpty
  ofLocal? ⟨year, month, day⟩ hour minute second nanosecond offset

end Timestamp
end RunnerFleet
