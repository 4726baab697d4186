import RunnerFleet.Text.Digits

/-!
# Strings in JSON texts

A string stands between double quotes. Quotes, backslashes and controls are written as escapes. A
reader takes every escape of the format; characters beyond the sixteen-bit ones come as themselves
or as two escapes, one for each half of a surrogate pair. A half that stands alone leaves a string
of correct form that is no text.

Main results:

- `readPieces_length_lt`: reading a string consumes the text.
- `joinPieces_char`: a character that stands for itself is kept.
-/

namespace RunnerFleet
namespace Json

/-! ## Writing -/

/-- How a character is written inside a string. -/
def escape (c : Char) : List Char :=
  match c with
  | '"' => ['\\', '"']
  | '\\' => ['\\', '\\']
  | '\n' => ['\\', 'n']
  | '\r' => ['\\', 'r']
  | '\t' => ['\\', 't']
  | '\x08' => ['\\', 'b']
  | '\x0c' => ['\\', 'f']
  | c =>
      if c.toNat < 0x20 then
        ['\\', 'u', '0', '0', Nat.digitChar (c.toNat / 16), Nat.digitChar (c.toNat % 16)]
      else [c]

/-- The text between double quotes. -/
def quote (s : String) : List Char :=
  '"' :: s.toList.flatMap escape ++ ['"']

/-! ## Reading -/

/-- A part of a string: a character, or half of a surrogate pair. -/
inductive Piece where
  | char (c : Char)
  | half (unit : Nat)
deriving DecidableEq, Repr

/-- Whether the unit is the first half of a pair. -/
def isFirstHalf (unit : Nat) : Bool :=
  0xD800 ≤ unit && unit < 0xDC00

/-- Whether the unit is the second half of a pair. -/
def isSecondHalf (unit : Nat) : Bool :=
  0xDC00 ≤ unit && unit < 0xE000

/-- The part of a string that a sixteen-bit unit stands for. -/
def Piece.ofUnit (unit : Nat) : Piece :=
  if isFirstHalf unit || isSecondHalf unit then .half unit else .char (Char.ofNat unit)

/-- The character that a letter after a backslash stands for. -/
def unescape? (c : Char) : Option Char :=
  match c with
  | '"' => some '"'
  | '\\' => some '\\'
  | '/' => some '/'
  | 'b' => some '\x08'
  | 'f' => some '\x0c'
  | 'n' => some '\n'
  | 'r' => some '\r'
  | 't' => some '\t'
  | _ => none

/-- The parts of a string up to its closing quote, and the text behind that. -/
def readPieces : List Char → Option (List Piece × List Char)
  | [] => none
  | '"' :: rest => some ([], rest)
  | '\\' :: 'u' :: a :: b :: c :: d :: rest => do
      let unit ← Text.ofHexDigits? [a, b, c, d]
      let (pieces, rest) ← readPieces rest
      return (.ofUnit unit :: pieces, rest)
  | '\\' :: letter :: rest => do
      let c ← unescape? letter
      let (pieces, rest) ← readPieces rest
      return (.char c :: pieces, rest)
  | c :: rest =>
      if c.toNat < 0x20 then none
      else do
        let (pieces, rest) ← readPieces rest
        return (.char c :: pieces, rest)

/-- The characters of a string, if every half stands in a pair. -/
def joinPieces : List Piece → Option (List Char)
  | [] => some []
  | .char c :: rest => (joinPieces rest).map (c :: ·)
  | .half first :: .half second :: rest =>
      if isFirstHalf first && isSecondHalf second then
        (joinPieces rest).map
          (Char.ofNat (0x10000 + (first - 0xD800) * 0x400 + (second - 0xDC00)) :: ·)
      else none
  | .half _ :: _ => none

/--
The string up to its closing quote, and the text behind that. The string is `none` if it is no
text.
-/
def readString (cs : List Char) : Option (Option String × List Char) :=
  (readPieces cs).map fun (pieces, rest) => ((joinPieces pieces).map String.ofList, rest)

/-- A quoted text takes at least its closing quote. -/
theorem readPieces_length_lt {cs rest : List Char} {pieces : List Piece}
    (h : readPieces cs = some (pieces, rest)) : rest.length < cs.length := by
  fun_induction readPieces cs generalizing pieces rest with
  | case1 => contradiction
  | case2 tail =>
      injection h with h
      injection h with _ h
      simp [h]
  | case3 a b c d tail ih =>
      simp only [Option.bind_eq_bind, Option.bind_eq_some_iff, Prod.exists] at h
      obtain ⟨_, _, ps, r, hr, h⟩ := h
      injection h with h
      injection h with _ h
      have := ih hr
      subst h
      simp only [List.length_cons]
      omega
  | case4 letter tail _ ih =>
      simp only [Option.bind_eq_bind, Option.bind_eq_some_iff, Prod.exists] at h
      obtain ⟨_, _, ps, r, hr, h⟩ := h
      injection h with h
      injection h with _ h
      have := ih hr
      subst h
      simp only [List.length_cons]
      omega
  | case5 => contradiction
  | case6 c tail _ _ _ _ ih =>
      simp only [Option.bind_eq_bind, Option.bind_eq_some_iff, Prod.exists] at h
      obtain ⟨ps, r, hr, h⟩ := h
      injection h with h
      injection h with _ h
      have := ih hr
      subst h
      simp only [List.length_cons]
      omega

/-- A string takes at least one character. -/
theorem readString_length_lt {cs rest : List Char} {s : Option String}
    (h : readString cs = some (s, rest)) : rest.length < cs.length := by
  simp only [readString, Option.map_eq_some_iff, Prod.exists, Prod.mk.injEq] at h
  obtain ⟨_, _, h, _, rfl⟩ := h
  exact readPieces_length_lt h

/-- A plain character stands before whatever the later pieces join to. -/
@[simp]
theorem joinPieces_char (c : Char) (rest : List Piece) :
    joinPieces (.char c :: rest) = (joinPieces rest).map (c :: ·) := by
  simp [joinPieces]

end Json
end RunnerFleet
