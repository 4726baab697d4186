import RunnerFleet.Proofs.Binary64.Shortest
import RunnerFleet.Proofs.Toml.Strings
import RunnerFleet.Toml.Printer
import RunnerFleet.Toml.Reader

/-!
# Scalars that were written

What is written for a scalar is read back at the end of a line.  The reader tries strings first,
then dates and times, and numbers last; a number is told from a date by the character behind its
first digits.

Main results:

- `datetime_eq_none`: a row of digits in front of another character is no date and no time.
- `decimal_whole`, `decimal_spelled`: numbers are read back from their digits.
- `Legible`, `value_inline`: a legible value is read back.
- `name_quoteName`: a name is read back.
-/

namespace RunnerFleet
namespace Toml

open Text (values)

/-! ## Rows of digits -/

variable {ds : List Char} {c : Char} (rest : List Char)

/-- Digits are read up to a character that is no digit and parts none. -/
theorem moreDigits_append (hds : ∀ d ∈ ds, d.isDigit = true) (hc : Text.digit? c = none)
    (hunder : c ≠ '_') :
    moreDigits Text.digit? (ds ++ c :: rest) = some (values ds, c :: rest) := by
  induction ds with
  | nil =>
      rw [List.nil_append, moreDigits.eq_def]
      simp only [hc, hunder, if_false]
      rfl
  | cons d ds ih =>
      obtain ⟨hd, hds⟩ := List.forall_mem_cons.1 hds
      have hrest := ih hds
      rw [List.cons_append, moreDigits.eq_def]
      simp only [Text.digit?_of_isDigit hd, hrest]
      rfl

theorem someDigits_append (hds : ∀ d ∈ ds, d.isDigit = true) (hne : ds ≠ [])
    (hc : Text.digit? c = none) (hunder : c ≠ '_') :
    someDigits Text.digit? (ds ++ c :: rest) = some (values ds, c :: rest) := by
  obtain ⟨d, more, rfl⟩ := List.exists_cons_of_ne_nil hne
  obtain ⟨hd, hmore⟩ := List.forall_mem_cons.1 hds
  simp [someDigits, Text.digit?_of_isDigit hd, moreDigits_append rest hmore hc hunder, values]

/-- Without a needless zero in front, the digits are those of one number. -/
theorem wholeDigits_append (hds : ∀ d ∈ ds, d.isDigit = true) (hne : ds ≠ [])
    (hleading : ds = ['0'] ∨ ds.head? ≠ some '0') (hc : Text.digit? c = none) (hunder : c ≠ '_') :
    wholeDigits (ds ++ c :: rest) = some (values ds, c :: rest) := by
  rcases hleading with rfl | hhead
  · rfl
  · have hsome := someDigits_append rest hds hne hc hunder
    unfold wholeDigits
    split
    · rename_i heq
      obtain ⟨d, more, rfl⟩ := List.exists_cons_of_ne_nil hne
      obtain ⟨rfl, -⟩ := List.cons.inj heq
      exact absurd rfl hhead
    · exact hsome

/-! ## Dates and times -/

/-- Two digits are read of a row that has two. -/
theorem twoDigits_append (hds : ∀ d ∈ ds, d.isDigit = true) (hc : Text.digit? c = none) :
    twoDigits (ds ++ c :: rest) = none ∨
      ∃ n more, twoDigits (ds ++ c :: rest) = some (n, more ++ c :: rest) ∧
        ∀ d ∈ more, d.isDigit = true := by
  match ds, hds with
  | [], _ =>
      left
      cases rest <;> simp [twoDigits, hc]
  | [a], hds =>
      have ha := hds a List.mem_cons_self
      simp [twoDigits, Text.digit?_of_isDigit ha, hc]
  | a :: b :: more, hds =>
      obtain ⟨ha, hothers⟩ := List.forall_mem_cons.1 hds
      obtain ⟨hb, hmore⟩ := List.forall_mem_cons.1 hothers
      refine Or.inr ⟨10 * (a.toNat - '0'.toNat) + (b.toNat - '0'.toNat), more, ?_, hmore⟩
      simp only [List.cons_append, twoDigits, Text.digit?_of_isDigit ha,
        Text.digit?_of_isDigit hb]
      rfl

theorem ne_of_isDigit {d other : Char} (hd : d.isDigit = true) (hother : other.isDigit = false) :
    d ≠ other := by
  rintro rfl
  rw [hd] at hother
  contradiction

/-- A mark is not found in front of digits or of another character. -/
theorem expect_append {mark : Char} (hds : ∀ d ∈ ds, d.isDigit = true)
    (hmark : mark.isDigit = false) (hc : c ≠ mark) : expect mark (ds ++ c :: rest) = none := by
  cases ds with
  | nil => simp [expect, hc]
  | cons d ds =>
      simp [expect, ne_of_isDigit (hds d List.mem_cons_self) hmark]

/-- A row of digits in front of another character is no date and no time. -/
theorem datetime_eq_none (hds : ∀ d ∈ ds, d.isDigit = true) (hc : Text.digit? c = none)
    (hhyphen : c ≠ '-') (hcolon : c ≠ ':') : datetime (ds ++ c :: rest) = none := by
  have hdate : date (ds ++ c :: rest) = none := by
    unfold date
    rcases twoDigits_append rest hds hc with hnone | ⟨n, more, hsome, hmore⟩
    · rw [hnone]
      rfl
    · rcases twoDigits_append rest hmore hc with hnone | ⟨m, others, hsecond, hothers⟩
      · simp [hsome, hnone]
      · simp [hsome, hsecond, expect_append rest hothers (by decide) hhyphen]
  have htime : time (ds ++ c :: rest) = none := by
    unfold time
    rcases twoDigits_append rest hds hc with hnone | ⟨n, more, hsome, hmore⟩
    · rw [hnone]
      rfl
    · simp [hsome, expect_append rest hmore (by decide) hcolon]
  rw [datetime, hdate, htime]
  rfl

/-! ## Numbers -/

/-- A number in base ten by its parts. -/
theorem decimal_eq {negative : Bool} {cs behindWhole behindPlaces behind : List Char}
    {whole : List Nat} {places : Option (List Nat)} {e : Option Int}
    (hwhole : wholeDigits cs = some (whole, behindWhole))
    (hplaces : fraction behindWhole = some (places, behindPlaces))
    (he : exponent behindPlaces = some (e, behind)) :
    decimal negative cs =
      if places.isSome || e.isSome then
        (floatOf negative whole (places.getD []) (e.getD 0)).map fun v => (v, behind)
      else
        (integer64 (if negative then -(Text.ofDigits 10 whole : Int)
          else Text.ofDigits 10 whole)).map fun v => (v, behind) := by
  simp only [decimal, hwhole, hplaces, he, Option.bind_eq_bind, Option.bind_some]
  split
  · cases floatOf negative whole (places.getD []) (e.getD 0) <;> rfl
  · generalize integer64 _ = read
    cases read <;> rfl

@[simp]
theorem fraction_newline (rest : List Char) :
    fraction ('\n' :: rest) = some (none, '\n' :: rest) :=
  rfl

@[simp]
theorem exponent_newline (rest : List Char) :
    exponent ('\n' :: rest) = some (none, '\n' :: rest) :=
  rfl

/-- A natural number of 63 bits is read back from its digits. -/
theorem decimal_whole {n : Nat} (hfits : n < 2 ^ 63) (rest : List Char) :
    decimal false (Nat.toDigits 10 n ++ '\n' :: rest) = some (.integer n, '\n' :: rest) := by
  have hdigits : ∀ d ∈ Nat.toDigits 10 n, d.isDigit = true :=
    fun d hd => Text.isDigit_of_mem_toDigits hd
  have hleading : Nat.toDigits 10 n = ['0'] ∨ (Nat.toDigits 10 n).head? ≠ some '0' := by
    rcases Nat.eq_zero_or_pos n with rfl | hpos
    · exact Or.inl rfl
    · exact Or.inr (Binary64.head?_toDigits_ne hpos)
  have hwhole := wholeDigits_append rest hdigits (by simp) hleading
    (show Text.digit? '\n' = none from rfl) (by decide)
  have hinteger : integer64 n = some (.integer n) :=
    integer64_eq_some_iff.2 ⟨⟨by omega, by omega⟩, rfl⟩
  rw [decimal_eq hwhole (fraction_newline rest) (exponent_newline rest), if_neg (by decide),
    if_neg (by decide), Text.ofDigits_toDigits, hinteger, Option.map_some]

/-- A positive finite number is read back from its digits before and behind the point. -/
theorem decimal_spelled {rank : Fin Binary64.rankCount} {whole places : List Char}
    (hrank : 0 < rank.val) (h : Binary64.Spelled rank whole places) (rest : List Char) :
    decimal false (whole ++ '.' :: (places ++ '\n' :: rest)) =
      some (.float (.finite false rank), '\n' :: rest) := by
  have hwhole := wholeDigits_append (places ++ '\n' :: rest) h.whole_digits h.whole_ne
    h.leading (show Text.digit? '.' = none from rfl) (by decide)
  have hplaces := someDigits_append rest h.places_digits h.places_ne
    (show Text.digit? '\n' = none from rfl) (by decide)
  have hfraction : fraction ('.' :: (places ++ '\n' :: rest)) =
      some (some (values places), '\n' :: rest) := by
    rw [fraction, hplaces]
    rfl
  have hfloat : floatOf false (values whole) (values places) 0 =
      some (.float (.finite false rank)) := by
    have hlength : (values places).length = places.length := by simp [values]
    have hvalues : values whole ++ values places = values (whole ++ places) := by simp [values]
    rw [floatOf, hlength, hvalues, zero_sub, Binary64.ofDecimal_eq hrank h.near]
  rw [decimal_eq hwhole hfraction (exponent_newline rest), if_pos (by rfl), Option.getD_some,
    Option.getD_none, hfloat, Option.map_some]

/-- Digits in front of another character are a number in base ten without a sign. -/
theorem number_digits (hds : ∀ d ∈ ds, d.isDigit = true) (hne : ds ≠ []) (hx : c ≠ 'x')
    (ho : c ≠ 'o') (hb : c ≠ 'b') :
    number (ds ++ c :: rest) = decimal false (ds ++ c :: rest) := by
  obtain ⟨d, more, rfl⟩ := List.exists_cons_of_ne_nil hne
  obtain ⟨hd, hmore⟩ := List.forall_mem_cons.1 hds
  have hsecond {letter : Char} {tail : List Char} (hletter : letter.isDigit = false)
      (hc : c ≠ letter) : d :: (more ++ c :: rest) ≠ '0' :: letter :: tail := by
    intro heq
    obtain ⟨-, heq⟩ := List.cons.inj heq
    cases more with
    | nil => exact hc (List.cons.inj heq).1
    | cons e more =>
        exact ne_of_isDigit (hmore e List.mem_cons_self) hletter (List.cons.inj heq).1
  have hfirst {letter : Char} {tail : List Char} (hletter : letter.isDigit = false) :
      d :: (more ++ c :: rest) ≠ letter :: tail :=
    fun heq => ne_of_isDigit hd hletter (List.cons.inj heq).1
  rw [List.cons_append]
  unfold number
  split
  · rename_i heq
    exact absurd heq (hsecond (by decide) hx)
  · rename_i heq
    exact absurd heq (hsecond (by decide) ho)
  · rename_i heq
    exact absurd heq (hsecond (by decide) hb)
  · rename_i heq
    exact absurd heq (hfirst (by decide))
  · rename_i heq
    exact absurd heq (hfirst (by decide))
  · unfold signed
    split
    · rename_i heq
      exact absurd heq (hfirst (by decide))
    · rename_i heq
      exact absurd heq (hfirst (by decide))
    · rfl

/-! ## Values -/

/-- The values that the reader gives back as they were written. -/
inductive Legible : Value → Prop where
  | string (s : String) : Legible (.string s)
  | integer {n : Nat} (hfits : n < 2 ^ 63) : Legible (.integer n)
  | infinite : Legible (.float (.infinite false))
  | finite {rank : Fin Binary64.rankCount} (hpos : 0 < rank.val) :
      Legible (.float (.finite false rank))

/-- A value that is neither an array nor a table, and neither true nor false, may be a string. -/
theorem value_eq {depth : Nat} {first : Char} {cs : List Char} (hbracket : first ≠ '[')
    (hbrace : first ≠ '\x7b') (htrue : first ≠ 't') (hfalse : first ≠ 'f') :
    value (depth + 1) (first :: cs) =
      match anyString (first :: cs) with
      | some (text, rest) => some (.string text, rest)
      | none => (datetime (first :: cs)).or (number (first :: cs)) := by
  unfold value
  split
  · rename_i heq
    exact absurd (List.cons.inj heq).1 hbracket
  · rename_i heq
    exact absurd (List.cons.inj heq).1 hbrace
  · unfold scalar
    split
    · rename_i heq
      exact absurd (List.cons.inj heq).1 htrue
    · rename_i heq
      exact absurd (List.cons.inj heq).1 hfalse
    · rfl

/-- Text that starts with neither kind of mark is no string. -/
theorem anyString_eq_none {first : Char} (hquote : first ≠ '"') (happostrophe : first ≠ '\'')
    (cs : List Char) : anyString (first :: cs) = none := by
  simp only [anyString]
  split
  · rename_i heq
    exact absurd (List.cons.inj heq).1 hquote
  · rename_i heq
    exact absurd (List.cons.inj heq).1 happostrophe
  · unfold lineString
    split
    · rename_i heq
      exact absurd (List.cons.inj heq).1 hquote
    · rename_i heq
      exact absurd (List.cons.inj heq).1 happostrophe
    · rfl

/-- A row of digits in front of another character is a number in base ten. -/
theorem value_digits {depth : Nat} (hds : ∀ d ∈ ds, d.isDigit = true) (hne : ds ≠ [])
    (hc : c = '.' ∨ c = '\n') :
    value (depth + 1) (ds ++ c :: rest) = decimal false (ds ++ c :: rest) := by
  have hstop : Text.digit? c = none ∧ c ≠ '-' ∧ c ≠ ':' ∧ c ≠ 'x' ∧ c ≠ 'o' ∧ c ≠ 'b' := by
    rcases hc with rfl | rfl <;> decide
  obtain ⟨hdigit, hhyphen, hcolon, hx, ho, hb⟩ := hstop
  have hdate := datetime_eq_none rest hds hdigit hhyphen hcolon
  have hnumber := number_digits rest hds hne hx ho hb
  obtain ⟨d, more, rfl⟩ := List.exists_cons_of_ne_nil hne
  have hd {letter : Char} (hletter : letter.isDigit = false) : d ≠ letter :=
    ne_of_isDigit (hds d List.mem_cons_self) hletter
  rw [List.cons_append] at hdate hnumber ⊢
  rw [value_eq (hd (by decide)) (hd (by decide)) (hd (by decide)) (hd (by decide)),
    anyString_eq_none (hd (by decide)) (hd (by decide)), ← hnumber]
  simp only [hdate, Option.none_or]

/-- A quotation starts with one of the two kinds of marks. -/
theorem styled_eq_cons (style : Style) (text : List Char) :
    ∃ mark cs, styled style text = mark :: cs ∧ (mark = '"' ∨ mark = '\'') :=
  match style with
  | .basic false => ⟨_, _, rfl, Or.inl rfl⟩
  | .basic true => ⟨_, _, rfl, Or.inl rfl⟩
  | .literal false => ⟨_, _, rfl, Or.inr rfl⟩
  | .literal true => ⟨_, _, rfl, Or.inr rfl⟩

@[simp]
theorem inline_natural (n : Nat) : (Value.integer n).inline = Nat.toDigits 10 n := by
  rw [Value.inline]
  exact Nat.toList_repr

@[simp]
theorem inline_infinite : (Value.float (.infinite false)).inline = ['i', 'n', 'f'] := by
  rw [Value.inline]
  rfl

/-- A legible value is read back at the end of a line. -/
theorem value_inline {v : Value} (h : Legible v) {depth : Nat} (rest : List Char) :
    value (depth + 1) (v.inline ++ '\n' :: rest) = some (v, '\n' :: rest) := by
  cases h with
  | string s =>
      have hread := anyString_quote s ('\n' :: rest) (by simp) (by simp)
      obtain ⟨mark, cs, hcons, hmark⟩ := styled_eq_cons (styleOf s.toList) s.toList
      have hfirst : mark ≠ '[' ∧ mark ≠ '\x7b' ∧ mark ≠ 't' ∧ mark ≠ 'f' := by
        rcases hmark with rfl | rfl <;> decide
      rw [quote, hcons, List.cons_append] at hread
      rw [Value.inline, quote, hcons, List.cons_append,
        value_eq hfirst.1 hfirst.2.1 hfirst.2.2.1 hfirst.2.2.2, hread]
  | @integer n hfits =>
      rw [inline_natural, value_digits _ (fun d hd => Text.isDigit_of_mem_toDigits hd) (by simp)
        (Or.inr rfl), decimal_whole hfits]
  | infinite =>
      have hdate : datetime ('i' :: 'n' :: 'f' :: '\n' :: rest) = none :=
        datetime_eq_none _ (show ∀ d ∈ ([] : List Char), d.isDigit = true by simp) rfl
          (by decide) (by decide)
      rw [inline_infinite, List.cons_append,
        value_eq (by decide) (by decide) (by decide) (by decide),
        anyString_eq_none (by decide) (by decide)]
      simp only [List.cons_append, List.nil_append, hdate, Option.none_or]
      rfl
  | @finite rank hpos =>
      obtain ⟨whole, places, htext, hspelled⟩ := Binary64.exists_spelled hpos
      rw [Value.inline, floatText, htext, List.append_assoc, List.cons_append,
        value_digits _ hspelled.whole_digits hspelled.whole_ne (Or.inl rfl),
        decimal_spelled hpos hspelled]
      simp

/-! ## Names -/

/-- Names without marks have only bare characters, and at least one. -/
theorem isBareName_iff {s : String} :
    isBareName s = true ↔ s.toList ≠ [] ∧ ∀ c ∈ s.toList, isBare c = true := by
  simp only [isBareName, isBare, Bool.and_eq_true, List.all_eq_true, decide_eq_true_eq, ne_eq,
    String.toList_eq_nil_iff]

/-- A name starts with a bare character or with one of the two kinds of marks. -/
theorem quoteName_eq_cons (s : String) :
    ∃ first cs, quoteName s = first :: cs ∧ (isBare first = true ∨ first = '"' ∨ first = '\'') := by
  unfold quoteName
  split
  · rename_i hbare
    obtain ⟨hne, hall⟩ := isBareName_iff.1 hbare
    obtain ⟨first, cs, hcons⟩ := List.exists_cons_of_ne_nil hne
    exact ⟨first, cs, hcons, Or.inl (hall first (hcons ▸ List.mem_cons_self))⟩
  · obtain ⟨mark, cs, hcons, hmark⟩ := styled_eq_cons (nameStyleOf s.toList) s.toList
    exact ⟨mark, cs, hcons, Or.inr hmark⟩

/-- A name is no longer read where no bare character stands. -/
theorem bare_of_head {rest : List Char} (hrest : ∀ c ∈ rest.head?, isBare c = false) :
    rest.takeWhile isBare = [] ∧ rest.dropWhile isBare = rest := by
  cases rest with
  | nil => exact ⟨rfl, rfl⟩
  | cons c rest =>
      have hc := hrest c rfl
      simp [hc]

/-- Text that does not start with a blank is not shortened. -/
theorem skipSpaces_cons {first : Char} (cs : List Char) (hfirst : isSpace first = false) :
    skipSpaces (first :: cs) = first :: cs := by
  simp [skipSpaces, hfirst]

theorem not_isSpace_of_isDigit {c : Char} (h : c.isDigit = true) : isSpace c = false := by
  simp [isSpace, ne_of_isDigit h (show ' '.isDigit = false from rfl),
    ne_of_isDigit h (show '\t'.isDigit = false from rfl)]

theorem not_isSpace_of_isBare {c : Char} (h : isBare c = true) : isSpace c = false := by
  rw [← Bool.not_eq_true]
  intro hspace
  simp only [isSpace, Bool.or_eq_true, beq_iff_eq] at hspace
  rcases hspace with rfl | rfl <;> exact absurd h (by decide)

/-- A name is read back, with the blanks behind it. -/
theorem name_quoteName (s : String) {rest : List Char}
    (hrest : ∀ c ∈ rest.head?, isBare c = false) :
    name (quoteName s ++ rest) = some (s, skipSpaces rest) := by
  obtain ⟨htake, hdrop⟩ := bare_of_head hrest
  by_cases hbare : isBareName s = true
  · -- the name is a row of bare characters
    obtain ⟨hne, hall⟩ := isBareName_iff.1 hbare
    obtain ⟨first, cs, hcons⟩ := List.exists_cons_of_ne_nil hne
    have hspace := not_isSpace_of_isBare (hall first (hcons ▸ List.mem_cons_self))
    have hskip : skipSpaces (s.toList ++ rest) = s.toList ++ rest := by
      rw [hcons, List.cons_append, skipSpaces_cons _ hspace]
    rw [quoteName, if_pos hbare, name, hskip, List.takeWhile_append_of_pos hall,
      List.dropWhile_append_of_pos hall, htake, hdrop, List.append_nil]
    split
    · rename_i heq
      exact absurd heq hne
    · rw [String.ofList_toList]
      rfl
  · -- the name stands between marks
    have hread : lineString (styled (nameStyleOf s.toList) s.toList ++ rest) = some (s, rest) := by
      rcases nameStyleOf_cases s.toList with hstyle | ⟨hstyle, hsuits⟩
      · rw [hstyle, lineString_basic, String.ofList_toList]
      · rw [hstyle, lineString_literal hsuits, String.ofList_toList]
    obtain ⟨mark, cs, hcons, hmark⟩ := styled_eq_cons (nameStyleOf s.toList) s.toList
    have hfirst : isSpace mark = false ∧ isBare mark = false := by
      rcases hmark with rfl | rfl <;> decide
    rw [hcons, List.cons_append] at hread
    rw [quoteName, if_neg hbare, hcons, List.cons_append, name, skipSpaces_cons _ hfirst.1,
      List.takeWhile_cons_of_neg (by simp [hfirst.2])]
    simp only [hread]
    rfl

end Toml
end RunnerFleet
