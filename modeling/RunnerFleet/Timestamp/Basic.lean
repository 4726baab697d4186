import RunnerFleet.Powers

/-!
# Moments in universal time

A moment is a date of the Gregorian calendar with a time of day, down to nanoseconds. A minute may
have a leap second, its second number sixty. Dates before the calendar's introduction are counted as
if it had always been in use, and years before the first one as zero and below.

Main results:

- `Day.Valid.of_previous`, `Day.Valid.of_next`: the neighbours of a day are days again.
- `lt_irrefl`, `lt_trans`: moments are ordered.
-/

namespace RunnerFleet

/-- A day of the calendar. -/
structure Day where
  year : Int
  month : Nat
  day : Nat
deriving DecidableEq, Repr

namespace Day

/-- Whether the year has a twenty-ninth of February. -/
def isLeapYear (year : Int) : Bool :=
  year % 4 = 0 && (year % 100 ≠ 0 || year % 400 = 0)

/-- The number of days in a month. -/
def daysInMonth (year : Int) (month : Nat) : Nat :=
  if month = 2 then if isLeapYear year then 29 else 28
  else if month = 4 ∨ month = 6 ∨ month = 9 ∨ month = 11 then 30
  else 31

/-- Whether the calendar has this day. -/
def Valid (d : Day) : Prop :=
  1 ≤ d.month ∧ d.month ≤ 12 ∧ 1 ≤ d.day ∧ d.day ≤ daysInMonth d.year d.month

instance (d : Day) : Decidable d.Valid :=
  inferInstanceAs (Decidable (_ ∧ _))

/-- The day before this one. -/
def previous (d : Day) : Day :=
  if 1 < d.day then { d with day := d.day - 1 }
  else if 1 < d.month then
    { d with month := d.month - 1, day := daysInMonth d.year (d.month - 1) }
  else { year := d.year - 1, month := 12, day := 31 }

/-- The day after this one. -/
def next (d : Day) : Day :=
  if d.day < daysInMonth d.year d.month then { d with day := d.day + 1 }
  else if d.month < 12 then { d with month := d.month + 1, day := 1 }
  else { year := d.year + 1, month := 1, day := 1 }

/-- Every month has 28 to 31 days. -/
theorem daysInMonth_bounds (year : Int) (month : Nat) :
    28 ≤ daysInMonth year month ∧ daysInMonth year month ≤ 31 := by
  unfold daysInMonth
  split
  · split <;> omega
  · split <;> omega

/-- The day before a day of the calendar is one of its days. -/
theorem Valid.of_previous {d : Day} (h : d.Valid) : d.previous.Valid := by
  obtain ⟨h₁, h₂, h₃, h₄⟩ := h
  unfold previous
  split
  · exact ⟨h₁, h₂, by simp only; omega, by simp only; omega⟩
  · split
    · have := daysInMonth_bounds d.year (d.month - 1)
      exact ⟨by simp only; omega, by simp only; omega, by simp only; omega, Nat.le_refl _⟩
    · simp [Valid, daysInMonth]

/-- The day after a day of the calendar is one of its days. -/
theorem Valid.of_next {d : Day} (h : d.Valid) : d.next.Valid := by
  obtain ⟨h₁, h₂, h₃, h₄⟩ := h
  unfold next
  split
  · exact ⟨h₁, h₂, by simp only; omega, by simp only; omega⟩
  · split
    · have := daysInMonth_bounds d.year (d.month + 1)
      exact ⟨by simp only; omega, by simp only; omega, by simp only; omega, by simp only; omega⟩
    · simp [Valid, daysInMonth]

end Day

/-- The earliest year that a moment may have. -/
def Timestamp.minYear : Int := -262143

/-- The latest year that a moment may have. -/
def Timestamp.maxYear : Int := 262142

/-- A moment in universal time. -/
structure Timestamp where
  day : Day
  hour : Nat
  minute : Nat
  /-- The second of the minute; sixty is a leap second. -/
  second : Nat
  nanosecond : Nat
  day_valid : day.Valid
  year_range : Timestamp.minYear ≤ day.year ∧ day.year ≤ Timestamp.maxYear
  time_range : hour < 24 ∧ minute < 60 ∧ second ≤ 60 ∧ nanosecond < 10 ^ 9
deriving DecidableEq

namespace Timestamp

/-- The moment with these parts, if there is one. -/
def ofParts? (day : Day) (hour minute second nanosecond : Nat) : Option Timestamp :=
  if h : day.Valid ∧ (minYear ≤ day.year ∧ day.year ≤ maxYear) ∧
      (hour < 24 ∧ minute < 60 ∧ second ≤ 60 ∧ nanosecond < 10 ^ 9) then
    some ⟨day, hour, minute, second, nanosecond, h.1, h.2.1, h.2.2⟩
  else none

/-- The parts of a moment in the order of their weight. -/
def parts (t : Timestamp) : List Int :=
  [t.day.year, t.day.month, t.day.day, t.hour, t.minute, t.second, t.nanosecond]

/-- A moment is earlier than another if the first part in which they differ is smaller. -/
instance : LT Timestamp where
  lt a b := a.parts < b.parts

instance (a b : Timestamp) : Decidable (a < b) :=
  inferInstanceAs (Decidable (a.parts < b.parts))

/-- No moment is before itself. -/
theorem lt_irrefl (a : Timestamp) : ¬a < a :=
  List.lt_irrefl a.parts

/-- Moments are in a transitive order. -/
theorem lt_trans {a b c : Timestamp} (hab : a < b) (hbc : b < c) : a < c :=
  List.lt_trans hab hbc

end Timestamp
end RunnerFleet
