import RunnerFleet.Text.Printable

/-!
# Quoted text in messages

A message shows a text between double quotes. Quotes and backslashes are escaped, and so is every
character that does not show on its own: the common ones by a letter, the others by their code
point.

Main results:

- `escape_of_isPrintable`: a printable character other than the quote and the backslash stands for
  itself.
-/

namespace RunnerFleet
namespace Text

/-- The hexadecimal digits of `n` in lower case. -/
def hexDigits (n : Nat) : List Char :=
  Nat.toDigits 16 n

/-- How a character is written between double quotes. -/
def escape (c : Char) : List Char :=
  match c with
  | '"' => ['\\', '"']
  | '\\' => ['\\', '\\']
  | '\n' => ['\\', 'n']
  | '\r' => ['\\', 'r']
  | '\t' => ['\\', 't']
  | '\x00' => ['\\', '0']
  | c => if isPrintable c then [c] else '\\' :: 'u' :: '\x7b' :: hexDigits c.toNat ++ ['\x7d']

/-- The text between double quotes, with escapes. -/
def quoted (s : String) : String :=
  String.ofList ('"' :: s.toList.flatMap escape ++ ['"'])

/-- A printable character other than the quote and the backslash is not escaped. -/
theorem escape_of_isPrintable {c : Char} (h : isPrintable c = true) (hq : c ≠ '"')
    (hb : c ≠ '\\') : escape c = [c] := by
  unfold escape
  split <;> first | contradiction | simp_all

end Text
end RunnerFleet
