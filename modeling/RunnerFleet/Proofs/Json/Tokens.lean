import RunnerFleet.Json.Token
import RunnerFleet.Json.Value
import RunnerFleet.Proofs.Text.Decimal

/-!
# Tokens that were written

The text of a scalar is read as one token, whatever stands behind it.  A string comes back from its
quotation, whichever characters it has.  A whole number comes back from its digits if it fits into 64
bits and nothing follows that would go on with it.

Main results:

- `readPieces_escape`, `readString_quote`: a string is read back from its quotation.
- `read_digits`, `toNode_digits`: a number is read back from its digits.
- `all_quote`, `all_integer`, `all_null`, `all_bool`: the tokens of scalars.
-/

namespace RunnerFleet
namespace Json

open Document (Node)

/-! ## Strings -/

/-- The hexadecimal digits of a control stand for it. -/
theorem ofHexDigits?_control {n : Nat} (h : n < 32) :
    Text.ofHexDigits? ['0', '0', Nat.digitChar (n / 16), Nat.digitChar (n % 16)] = some n := by
  have hall : ∀ n < 32,
      Text.ofHexDigits? ['0', '0', Nat.digitChar (n / 16), Nat.digitChar (n % 16)] = some n := by
    decide
  exact hall n h

/-- A unit below the surrogates is a character. -/
theorem ofUnit_control {n : Nat} (h : n < 32) : Piece.ofUnit n = .char (Char.ofNat n) := by
  have hfirst : isFirstHalf n = false := by
    simp [isFirstHalf]
    omega
  have hsecond : isSecondHalf n = false := by
    simp [isSecondHalf]
    omega
  simp [Piece.ofUnit, hfirst, hsecond]

/-- A letter behind a backslash is read as the character it stands for. -/
theorem readPieces_letter {letter c : Char} (rest : List Char) (hletter : letter ≠ 'u')
    (h : unescape? letter = some c) :
    readPieces ('\\' :: letter :: rest) =
      (readPieces rest).map fun read => (.char c :: read.1, read.2) := by
  rw [readPieces.eq_def]
  split
  · contradiction
  · rename_i heq
    exact absurd (List.cons.inj heq).1 (by decide)
  · rename_i heq
    obtain ⟨-, htail⟩ := List.cons.inj heq
    exact absurd (List.cons.inj htail).1 hletter
  · rename_i heq
    obtain ⟨-, htail⟩ := List.cons.inj heq
    obtain ⟨rfl, rfl⟩ := List.cons.inj htail
    rw [h]
    cases readPieces rest <;> rfl
  · rename_i hother heq
    obtain ⟨rfl, rfl⟩ := List.cons.inj heq
    exact absurd rfl (hother letter rest rfl)

/-- A character is read back from what is written for it. -/
theorem readPieces_escape (c : Char) (rest : List Char) :
    readPieces (escape c ++ rest) =
      (readPieces rest).map fun read => (.char c :: read.1, read.2) := by
  unfold escape
  split
  case h_8 c hquote hslash _ _ _ _ _ =>
    split
    · -- a control without a letter of its own
      rename_i hcontrol
      have hunit := ofUnit_control hcontrol
      rw [Char.ofNat_toNat] at hunit
      simp only [List.cons_append, List.nil_append, readPieces, ofHexDigits?_control hcontrol]
      cases readPieces rest <;> simp [hunit]
    · rename_i hplain
      rw [List.singleton_append, readPieces.eq_def]
      split
      · contradiction
      · rename_i heq
        exact absurd (List.cons.inj heq).1 hquote
      · rename_i heq
        exact absurd (List.cons.inj heq).1 hslash
      · rename_i heq
        exact absurd (List.cons.inj heq).1 hslash
      · rename_i heq
        obtain ⟨rfl, rfl⟩ := List.cons.inj heq
        rw [if_neg hplain]
        cases readPieces rest <;> rfl
  all_goals exact readPieces_letter rest (by decide) rfl

theorem readPieces_flatMap_escape (cs rest : List Char) :
    readPieces (cs.flatMap escape ++ '"' :: rest) = some (cs.map .char, rest) := by
  induction cs with
  | nil => simp [readPieces]
  | cons c cs ih =>
      rw [List.flatMap_cons, List.append_assoc, readPieces_escape, ih]
      rfl

/-- Characters that stand for themselves are a text. -/
@[simp]
theorem joinPieces_map_char (cs : List Char) : joinPieces (cs.map .char) = some cs := by
  induction cs with
  | nil => simp [joinPieces]
  | cons c cs ih => simp [ih]

/-- A string is read back from its quotation. -/
theorem readString_quote (s : String) (rest : List Char) :
    readString (s.toList.flatMap escape ++ '"' :: rest) = some (some s, rest) := by
  simp [readString, readPieces_flatMap_escape]

/-! ## Numbers -/

/-- What may stand behind a value: nothing, or a mark that parts values or closes what is open. -/
def Ends (rest : List Char) : Prop :=
  rest = [] ∨ ∃ c tail, rest = c :: tail ∧ (c = ',' ∨ c = ']' ∨ c = '\x7d')

theorem Ends.head_not_digit {rest : List Char} (h : Ends rest) :
    rest.head?.bind Text.digit? = none := by
  rcases h with rfl | ⟨c, tail, rfl, rfl | rfl | rfl⟩ <;> rfl

/-- A number ends where its digits end. -/
theorem readFraction_of_ends {rest : List Char} (h : Ends rest) :
    Number.readFraction rest = some (none, rest) ∧ Number.readExponent rest = some (none, rest) := by
  rcases h with rfl | ⟨c, tail, rfl, rfl | rfl | rfl⟩ <;> exact ⟨rfl, rfl⟩

/-- The digits of a number are its whole part. -/
theorem readMagnitude_digits (negative : Bool) (n : Nat) {rest : List Char} (h : Ends rest) :
    Number.readMagnitude negative (Nat.toDigits 10 n ++ rest) =
      some (⟨negative, Text.values (Nat.toDigits 10 n), none, none⟩, rest) := by
  have hspan := Text.spanDigits_append
    (fun c (hc : c ∈ Nat.toDigits 10 n) => Text.isDigit_of_mem_toDigits hc) h.head_not_digit
  have hwhole : Number.readWhole (Nat.toDigits 10 n ++ rest) =
      some (Text.values (Nat.toDigits 10 n), rest) := by
    rw [Number.readWhole, hspan]
    rcases Text.values_toDigits_cases n with ⟨-, hvalues⟩ | ⟨-, d, ds, hvalues, hd⟩
    · rw [hvalues]
      rfl
    · rw [hvalues]
      cases d with
      | zero => exact absurd rfl hd
      | succ d => rfl
  obtain ⟨hfraction, hexponent⟩ := readFraction_of_ends h
  simp [Number.readMagnitude, hwhole, hfraction, hexponent]

/-- A whole number of 64 bits is what its digits say. -/
theorem toNode_digits {n : Nat} (h : n < 2 ^ 64) :
    Number.toNode ⟨false, Text.values (Nat.toDigits 10 n), none, none⟩ = .integer n := by
  have hfits : n ≤ Number.significandLimit := Nat.le_pred_of_lt h
  simp [Number.toNode, hfits]

theorem toNode_negative_digits {n : Nat} (hpos : 0 < n) (h : n ≤ 2 ^ 63) :
    Number.toNode ⟨true, Text.values (Nat.toDigits 10 n), none, none⟩ = .integer (-n) := by
  have hfits : 0 < n ∧ n ≤ 2 ^ 63 := ⟨hpos, h⟩
  simp only [Number.toNode, Text.ofDigits_toDigits, if_true, if_pos hfits]

/-- The whole numbers that are read as such. -/
def IsWord (n : Int) : Prop :=
  -2 ^ 63 ≤ n ∧ n < 2 ^ 64

theorem Number.read_of_ne_minus {cs : List Char} (h : cs.head? ≠ some '-') :
    Number.read cs = Number.readMagnitude false cs := by
  unfold Number.read
  split
  · exact absurd rfl h
  · rfl

/-- A whole number is read back from its digits, up to what may stand behind it. -/
theorem read_integer {n : Int} (h : IsWord n) {rest : List Char} (hrest : Ends rest) :
    ∃ number, Number.read ((integer n).render ++ rest) = some (number, rest) ∧
      number.toNode = .integer n := by
  obtain ⟨hlow, hhigh⟩ := h
  rw [render]
  rcases Text.toList_toString_cases n with ⟨m, rfl, htext⟩ | ⟨m, hpos, rfl, htext⟩
  · have hsign : (Nat.toDigits 10 m ++ rest).head? ≠ some '-' := by
      obtain ⟨c, cs, hcons, hdigit⟩ := Text.toDigits_eq_cons m
      rw [hcons, List.cons_append, List.head?_cons]
      rintro ⟨⟩
      exact absurd hdigit (by decide)
    rw [htext, Number.read_of_ne_minus hsign]
    exact ⟨_, readMagnitude_digits false m hrest, toNode_digits (by omega)⟩
  · rw [htext]
    exact ⟨_, readMagnitude_digits true m hrest, toNode_negative_digits hpos (by omega)⟩

/-- The text of a whole number starts with a sign or a digit. -/
theorem render_integer_cons (n : Int) :
    ∃ c cs, (integer n).render = c :: cs ∧ (c = '-' ∨ c.isDigit = true) := by
  rw [render]
  rcases Text.toList_toString_cases n with ⟨m, -, htext⟩ | ⟨m, -, -, htext⟩
  · obtain ⟨c, cs, hcons, hdigit⟩ := Text.toDigits_eq_cons m
    exact ⟨c, cs, htext.trans hcons, Or.inr hdigit⟩
  · exact ⟨'-', Nat.toDigits 10 m, htext, Or.inl rfl⟩

/-! ## Tokens -/

/-- A token at the beginning of a text is followed by the tokens behind it. -/
theorem all_of_next {cs rest : List Char} {token : Token} (hspace : cs.dropWhile Token.isSpace = cs)
    (h : Token.next cs = some (token, rest)) : Token.all cs = token :: Token.all rest := by
  rw [Token.all, hspace, h]

@[simp]
theorem all_nil : Token.all [] = [] := by
  rw [Token.all, List.dropWhile_nil, Token.next]

@[simp]
theorem all_openArray (rest : List Char) : Token.all ('[' :: rest) = .openArray :: Token.all rest :=
  all_of_next rfl rfl

@[simp]
theorem all_closeArray (rest : List Char) :
    Token.all (']' :: rest) = .closeArray :: Token.all rest :=
  all_of_next rfl rfl

@[simp]
theorem all_openObject (rest : List Char) :
    Token.all ('\x7b' :: rest) = .openObject :: Token.all rest :=
  all_of_next rfl rfl

@[simp]
theorem all_closeObject (rest : List Char) :
    Token.all ('\x7d' :: rest) = .closeObject :: Token.all rest :=
  all_of_next rfl rfl

@[simp]
theorem all_comma (rest : List Char) : Token.all (',' :: rest) = .comma :: Token.all rest :=
  all_of_next rfl rfl

@[simp]
theorem all_colon (rest : List Char) : Token.all (':' :: rest) = .colon :: Token.all rest :=
  all_of_next rfl rfl

@[simp]
theorem all_null (rest : List Char) :
    Token.all (null.render ++ rest) = .scalar .null :: Token.all rest :=
  all_of_next rfl rfl

@[simp]
theorem all_bool (value : Bool) (rest : List Char) :
    Token.all ((bool value).render ++ rest) = .scalar (.bool value) :: Token.all rest := by
  cases value <;> exact all_of_next rfl rfl

@[simp]
theorem all_quote (s : String) (rest : List Char) :
    Token.all (quote s ++ rest) = .string (some s) :: Token.all rest := by
  have hread := readString_quote s rest
  refine all_of_next rfl ?_
  simp only [quote, List.cons_append, List.append_assoc, List.nil_append, Token.next, hread]

/-- What starts with a sign or a digit is read as a number. -/
theorem next_of_number {c : Char} {cs rest : List Char} {number : Number}
    (hc : c = '-' ∨ c.isDigit = true) (h : Number.read (c :: cs) = some (number, rest)) :
    Token.next (c :: cs) = some (.scalar number.toNode, rest) := by
  unfold Token.next
  split
  case h_12 heq =>
    obtain ⟨rfl, rfl⟩ := List.cons.inj heq
    rw [h]
  all_goals
    rename_i heq
    first
      | contradiction
      | obtain ⟨rfl, -⟩ := List.cons.inj heq
        exact absurd hc (by decide)

theorem all_integer {n : Int} (h : IsWord n) {rest : List Char} (hrest : Ends rest) :
    Token.all ((integer n).render ++ rest) = .scalar (.integer n) :: Token.all rest := by
  obtain ⟨number, hread, hnode⟩ := read_integer h hrest
  obtain ⟨c, cs, hrender, hc⟩ := render_integer_cons n
  have hspace : Token.isSpace c = false := by
    rcases hc with rfl | hdigit
    · rfl
    · refine Bool.eq_false_iff.2 fun hblank => ?_
      simp only [Token.isSpace, Bool.or_eq_true, beq_iff_eq] at hblank
      rcases hblank with ((rfl | rfl) | rfl) | rfl <;> exact absurd hdigit (by decide)
  rw [← hnode]
  rw [hrender, List.cons_append] at hread ⊢
  exact all_of_next (by simp [hspace]) (next_of_number hc hread)

end Json
end RunnerFleet
