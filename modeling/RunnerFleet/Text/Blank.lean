/-!
# Blank characters

The characters with the Unicode property `White_Space`, and the removal of such characters from
the ends of a text.

Main results:

- `isBlank_of_isWhitespace`: every ASCII white space character is blank.
- `trimStart_eq_nil_iff`: trimming leaves nothing exactly of a text that is blank throughout.
-/

namespace RunnerFleet
namespace Text

/-- The twenty-five characters with the property `White_Space`. -/
def isBlank (c : Char) : Bool :=
  let n := c.toNat
  (0x09 ≤ n && n ≤ 0x0D) || n == 0x20 || n == 0x85 || n == 0xA0 || n == 0x1680 ||
    (0x2000 ≤ n && n ≤ 0x200A) || n == 0x2028 || n == 0x2029 || n == 0x202F || n == 0x205F ||
    n == 0x3000

/-- What is left of `cs` after the blanks in front of it. -/
def trimStart (cs : List Char) : List Char :=
  cs.dropWhile isBlank

/-- What is left of `cs` without the blanks at its end. -/
def trimEnd (cs : List Char) : List Char :=
  (cs.reverse.dropWhile isBlank).reverse

/-- What is left of `cs` without the blanks at either end. -/
def trimBlanks (cs : List Char) : List Char :=
  trimEnd (trimStart cs)

/-- The text `s` without the blanks at either end. -/
def trim (s : String) : String :=
  String.ofList (trimBlanks s.toList)

/-- A text of blanks alone, the empty text among them. -/
def isBlankText (s : String) : Bool :=
  s.toList.all isBlank

/-- White space is blank. -/
theorem isBlank_of_isWhitespace {c : Char} (h : c.isWhitespace = true) : isBlank c = true := by
  have hc : c = ' ' ∨ c = '\t' ∨ c = '\r' ∨ c = '\n' := by
    simpa [Char.isWhitespace, or_assoc] using h
  rcases hc with rfl | rfl | rfl | rfl <;> decide

/-- Trimming leaves nothing exactly of a text that is blank throughout. -/
theorem trimStart_eq_nil_iff {cs : List Char} :
    trimStart cs = [] ↔ ∀ c ∈ cs, isBlank c = true := by
  induction cs with
  | nil => simp [trimStart]
  | cons c rest ih =>
      unfold trimStart at ih ⊢
      cases hc : isBlank c <;> simp [hc, ih]

end Text
end RunnerFleet
