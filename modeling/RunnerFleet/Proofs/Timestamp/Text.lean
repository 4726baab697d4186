import Mathlib.Data.Option.Basic
import RunnerFleet.Proofs.Text.Decimal
import RunnerFleet.Timestamp.Text

/-!
# Moments that were written

The text of a moment is read back as the moment, for every year that a moment may have, with a leap
second, and with every number of nanoseconds.  Each number of the text has as many digits as the
reader takes, and the mark behind it is no digit, so no number takes anything of the next one.

Main results:

- `digits_padded`, `year_yearText`, `nanoseconds_decimalPlaces`: the parts are read back.
- `ofText?_text`: a moment is read back from its text.
-/

namespace RunnerFleet
namespace Timestamp

open Text (values)

/-! ## Numbers with zeros in front -/

theorem toList_padded (width n : Nat) :
    (padded width n).toList =
      List.replicate (width - (Nat.toDigits 10 n).length) '0' ++ Nat.toDigits 10 n := by
  simp [padded, Nat.toString_eq_repr, Nat.toList_repr, ← String.length_toList]

theorem isDigit_of_mem_padded {width n : Nat} {c : Char} (h : c ∈ (padded width n).toList) :
    c.isDigit = true := by
  rw [toList_padded] at h
  rcases List.mem_append.1 h with h | h
  · rw [(List.mem_replicate.1 h).2]
    rfl
  · exact Text.isDigit_of_mem_toDigits h

theorem padded_ne_nil (width n : Nat) : (padded width n).toList ≠ [] := by
  simp [toList_padded]

/-- Zeros in front of a number do not change it. -/
@[simp]
theorem ofDigits_padded (width n : Nat) : Text.ofDigits 10 (values (padded width n).toList) = n := by
  have hzeros : values (List.replicate (width - (Nat.toDigits 10 n).length) '0') =
      List.replicate (width - (Nat.toDigits 10 n).length) 0 := by
    simp [values]
  rw [toList_padded, values, List.map_append, ← values, ← values, hzeros, Text.ofDigits_zeros,
    Text.ofDigits_toDigits]

/-- A number that fits takes exactly the given width. -/
theorem length_padded {width n : Nat} (hwidth : 0 < width) (h : n < 10 ^ width) :
    (padded width n).toList.length = width := by
  have hlength := (Nat.length_toDigits_le_iff (b := 10) (by decide) hwidth).2 h
  rw [toList_padded, List.length_append, List.length_replicate]
  omega

/-- A text that starts with a digit starts without a blank. -/
@[simp]
theorem trimStart_padded (width n : Nat) (rest : List Char) :
    Text.trimStart ((padded width n).toList ++ rest) = (padded width n).toList ++ rest := by
  obtain ⟨c, cs, hcons⟩ := List.exists_cons_of_ne_nil (padded_ne_nil width n)
  have hdigit := isDigit_of_mem_padded (hcons ▸ List.mem_cons_self : c ∈ (padded width n).toList)
  rw [hcons, List.cons_append, Text.trimStart, List.dropWhile_cons,
    Text.not_isBlank_of_isDigit hdigit, if_neg Bool.false_ne_true]

/-- Digits are read up to what follows them, if the reader takes so many of them. -/
theorem digits_of_isDigit {width : Nat} {cs rest : List Char} (h : ∀ c ∈ cs, c.isDigit = true)
    (hne : cs ≠ []) (hlength : cs.length ≤ width) (hrest : rest.head?.bind Text.digit? = none) :
    digits width (cs ++ rest) = some (Text.ofDigits 10 (values cs), rest) := by
  have htake : (values cs).take width = values cs :=
    List.take_of_length_le (by simpa [values] using hlength)
  have hvalues : (values cs).length = cs.length := by simp [values]
  rw [digits, Text.spanDigits_append h hrest, htake, hvalues]
  split
  · rename_i hzero
    exact absurd (List.length_eq_zero_iff.1 hzero) hne
  · rw [List.drop_left]

theorem digits_padded {width n : Nat} (hwidth : 0 < width) (h : n < 10 ^ width) {rest : List Char}
    (hrest : rest.head?.bind Text.digit? = none) :
    digits width ((padded width n).toList ++ rest) = some (n, rest) := by
  have hread := digits_of_isDigit (fun c hc => isDigit_of_mem_padded hc) (padded_ne_nil width n)
    (Nat.le_of_eq (length_padded hwidth h)) hrest
  rwa [ofDigits_padded] at hread

/-- A number of two digits is read up to what follows it. -/
theorem number_padded {n : Nat} (h : n < 100) {rest : List Char}
    (hrest : rest.head?.bind Text.digit? = none) :
    number 2 ((padded 2 n).toList ++ rest) = some (n, rest) := by
  rw [number, trimStart_padded]
  exact digits_padded (by decide) h hrest

/-! ## The parts of a moment -/

/-- Behind a sign a year has as many digits as it needs. -/
theorem digits_signed (n : Nat) (rest : List Char) :
    digits ((padded 4 n).toList ++ '-' :: rest).length ((padded 4 n).toList ++ '-' :: rest) =
      some (n, '-' :: rest) := by
  have hlength : (padded 4 n).toList.length ≤ ((padded 4 n).toList ++ '-' :: rest).length := by
    simp
  have hread := digits_of_isDigit (fun c hc => isDigit_of_mem_padded hc) (padded_ne_nil 4 n) hlength
    (show ('-' :: rest).head?.bind Text.digit? = none from rfl)
  rwa [ofDigits_padded] at hread

/-- A text that starts with a digit is read as a year without a sign. -/
theorem year_of_isDigit {cs tail : List Char} {c : Char} (hcs : Text.trimStart cs = c :: tail)
    (hdigit : c.isDigit = true) :
    year cs = (digits 4 (c :: tail)).map fun (n, rest) => ((n : Int), rest) := by
  rw [year, hcs]
  split
  · rename_i heq
    obtain ⟨rfl, -⟩ := List.cons.inj heq
    exact absurd hdigit (by decide)
  · rename_i heq
    obtain ⟨rfl, -⟩ := List.cons.inj heq
    exact absurd hdigit (by decide)
  · rfl

theorem year_minus (rest : List Char) :
    year ('-' :: rest) = (digits rest.length rest).map fun (n, rest) => (-(n : Int), rest) :=
  rfl

theorem year_plus (rest : List Char) :
    year ('+' :: rest) = (digits rest.length rest).map fun (n, rest) => ((n : Int), rest) :=
  rfl

/-- A year is read back, with or without a sign. -/
theorem year_yearText (y : Int) (rest : List Char) :
    year ((yearText y).toList ++ '-' :: rest) = some (y, '-' :: rest) := by
  unfold yearText
  split
  · rename_i hfour
    obtain ⟨c, cs, hcons⟩ := List.exists_cons_of_ne_nil (padded_ne_nil 4 y.toNat)
    have hdigit := isDigit_of_mem_padded (hcons ▸ List.mem_cons_self : c ∈ (padded 4 y.toNat).toList)
    have htrim := trimStart_padded 4 y.toNat ('-' :: rest)
    have hread : digits 4 ((padded 4 y.toNat).toList ++ '-' :: rest) =
        some (y.toNat, '-' :: rest) :=
      digits_padded (by decide) (by omega) rfl
    rw [hcons, List.cons_append] at htrim hread
    rw [hcons, List.cons_append, year_of_isDigit htrim hdigit, hread]
    simp [Int.toNat_of_nonneg hfour.1]
  · rename_i hother
    split
    · rename_i hneg
      have hminus : ("-" ++ padded 4 y.natAbs).toList = '-' :: (padded 4 y.natAbs).toList := by simp
      rw [hminus, List.cons_append, year_minus, digits_signed]
      simp only [Option.map_some, Option.some.injEq, Prod.mk.injEq, and_true]
      omega
    · rename_i hpos
      have hplus : ("+" ++ padded 4 y.natAbs).toList = '+' :: (padded 4 y.natAbs).toList := by simp
      rw [hplus, List.cons_append, year_plus, digits_signed]
      simp only [Option.map_some, Option.some.injEq, Prod.mk.injEq, and_true]
      omega

/-- Decimal places count as parts of a second. -/
theorem nanoseconds_padded {width n : Nat} (hwidth : 0 < width) (hnine : width ≤ 9)
    (h : n < 10 ^ width) {rest : List Char} (hrest : rest.head?.bind Text.digit? = none) :
    nanoseconds ('.' :: ((padded width n).toList ++ rest)) =
      some (n * 10 ^ (9 - width), rest) := by
  have hlength : (values (padded width n).toList).length = width := by
    rw [values, List.length_map, length_padded hwidth h]
  have htake : (values (padded width n).toList).take 9 = values (padded width n).toList :=
    List.take_of_length_le (by omega)
  rw [nanoseconds, Text.spanDigits_append (fun c hc => isDigit_of_mem_padded hc) hrest]
  split
  · rename_i heq
    rw [(Prod.mk.inj heq).1] at hlength
    exact absurd hlength (Nat.ne_of_lt hwidth)
  · rename_i heq
    obtain ⟨rfl, rfl⟩ := Prod.mk.inj heq
    simp only [htake, hlength, ofDigits_padded]

/-- What is written for the decimal places is nothing, or a point and a number. -/
theorem decimalPlaces_cases {n : Nat} (h : n < 10 ^ 9) :
    (n = 0 ∧ (decimalPlaces n).toList = []) ∨
      ∃ width places, 0 < width ∧ width ≤ 9 ∧ places < 10 ^ width ∧ places * 10 ^ (9 - width) = n ∧
        (decimalPlaces n).toList = '.' :: (padded width places).toList := by
  unfold decimalPlaces
  split
  · rename_i hzero
    exact Or.inl ⟨hzero, String.toList_empty⟩
  · refine Or.inr ?_
    split
    · refine ⟨3, n / 1000000, by decide, by decide, by omega, ?_, by simp⟩
      omega
    · split
      · refine ⟨6, n / 1000, by decide, by decide, by omega, ?_, by simp⟩
        omega
      · exact ⟨9, n, by decide, by decide, h, Nat.mul_one n, by simp⟩

/-- The nanoseconds of a second are read back from as many places as are written. -/
theorem nanoseconds_decimalPlaces {n : Nat} (h : n < 10 ^ 9) :
    nanoseconds ((decimalPlaces n).toList ++ ['Z']) = some (n, ['Z']) := by
  rcases decimalPlaces_cases h with ⟨hzero, htext⟩ | ⟨width, places, hpos, hnine, hfits, hn, htext⟩
  · rw [htext, hzero]
    rfl
  · rw [htext, List.cons_append, nanoseconds_padded hpos hnine hfits rfl, hn]

/-- Clocks without an offset show the time itself. -/
@[simp]
theorem ofLocal?_self (t : Timestamp) :
    ofLocal? t.day t.hour t.minute t.second t.nanosecond 0 = some t := by
  obtain ⟨hhour, hminute, -, -⟩ := t.time_range
  have hnow : ((t.hour : Int) * 60 + t.minute - 0) % 1440 = ((t.hour * 60 + t.minute : Nat) : Int) := by
    omega
  have hday : ¬((t.hour : Int) * 60 + t.minute - 0 < 0) := by omega
  have hnext : ¬(1440 ≤ (t.hour : Int) * 60 + t.minute - 0) := by omega
  have hhours : (t.hour * 60 + t.minute) / 60 = t.hour := by omega
  have hminutes : (t.hour * 60 + t.minute) % 60 = t.minute := by omega
  simp only [ofLocal?, hnow, if_neg hday, if_neg hnext, Int.toNat_natCast, hhours, hminutes]
  rw [if_pos ⟨t.day_valid, t.year_range.1, t.year_range.2, hhour, hminute, by decide, by decide⟩,
    ofParts?, dif_pos ⟨t.day_valid, t.year_range, t.time_range⟩]

/-! ## The whole text -/

theorem toList_text (t : Timestamp) :
    t.text.toList = (yearText t.day.year).toList ++ '-' :: ((padded 2 t.day.month).toList ++
      '-' :: ((padded 2 t.day.day).toList ++ 'T' :: ((padded 2 t.hour).toList ++
      ':' :: ((padded 2 t.minute).toList ++ ':' :: ((padded 2 t.second).toList ++
      ((decimalPlaces t.nanosecond).toList ++ ['Z'])))))) := by
  simp [text]

/-- Behind a full second there is no digit, whether decimal places follow or not. -/
theorem decimalPlaces_not_digit {n : Nat} (h : n < 10 ^ 9) :
    ((decimalPlaces n).toList ++ ['Z']).head?.bind Text.digit? = none := by
  rcases decimalPlaces_cases h with ⟨-, htext⟩ | ⟨width, places, -, -, -, -, htext⟩ <;>
    rw [htext] <;> rfl

theorem mark_cons {c : Char} {rest : List Char} (hc : Text.isBlank c = false) :
    mark c (c :: rest) = some rest := by
  simp [mark, Text.trimStart, hc]

/-- A number of two digits is read up to the mark that follows it. -/
theorem number_mark {n : Nat} (h : n < 100) {c : Char} (hc : Text.digit? c = none)
    (rest : List Char) :
    number 2 ((padded 2 n).toList ++ c :: rest) = some (n, c :: rest) :=
  number_padded h hc

/-- A moment is read back from its text. -/
@[simp]
theorem ofText?_text (t : Timestamp) : ofText? t.text = some t := by
  obtain ⟨hhour, hminute, hsecond, hnano⟩ := t.time_range
  obtain ⟨-, hmonth, -, hday⟩ := t.day_valid
  have hdays := (Day.daysInMonth_bounds t.day.year t.day.month).2
  have hdash : Text.isBlank '-' = false := by decide
  have hcolon : Text.isBlank ':' = false := by decide
  have hmonth' : t.day.month < 100 := by omega
  have hday' : t.day.day < 100 := by omega
  have hhour' : t.hour < 100 := by omega
  have hminute' : t.minute < 100 := by omega
  have hsecond' : t.second < 100 := by omega
  have hseconds := number_padded hsecond' (decimalPlaces_not_digit hnano)
  have hdivider : isDivider 'T' = true := by decide
  rw [ofText?, toList_text]
  refine Option.bind_eq_some_iff.2 ⟨_, year_yearText _ _, ?_⟩
  refine Option.bind_eq_some_iff.2 ⟨_, mark_cons hdash, ?_⟩
  refine Option.bind_eq_some_iff.2 ⟨_, number_mark hmonth' (by decide) _, ?_⟩
  refine Option.bind_eq_some_iff.2 ⟨_, mark_cons hdash, ?_⟩
  refine Option.bind_eq_some_iff.2 ⟨_, number_mark hday' (by decide) _, ?_⟩
  refine Option.bind_eq_some_iff.2 ⟨_, rfl, ?_⟩
  refine Option.bind_eq_some_iff.2 ⟨(), if_pos hdivider, ?_⟩
  refine Option.bind_eq_some_iff.2 ⟨_, number_mark hhour' (by decide) _, ?_⟩
  refine Option.bind_eq_some_iff.2 ⟨_, mark_cons hcolon, ?_⟩
  refine Option.bind_eq_some_iff.2 ⟨_, number_mark hminute' (by decide) _, ?_⟩
  refine Option.bind_eq_some_iff.2 ⟨_, mark_cons hcolon, ?_⟩
  refine Option.bind_eq_some_iff.2 ⟨_, hseconds, ?_⟩
  refine Option.bind_eq_some_iff.2 ⟨_, nanoseconds_decimalPlaces hnano, ?_⟩
  exact ofLocal?_self t

end Timestamp
end RunnerFleet
