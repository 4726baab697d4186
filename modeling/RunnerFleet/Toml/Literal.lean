import RunnerFleet.Text.Digits

/-!
# Strings in TOML texts

A string stands between quotation marks or apostrophes, one of them or three on each side. Only
between quotation marks does a backslash start an escape, and only between three marks may the
string go over several lines. A line break right behind the opening marks is dropped, and a
backslash at the end of a line takes the blanks and breaks behind it along.

Main results:

- `lineBreak_length_lt`: a line break is not nothing.
-/

namespace RunnerFleet
namespace Toml

/-- Blanks inside a line. -/
def isSpace (c : Char) : Bool :=
  c == ' ' || c == '\t'

/-- Characters that may stand in strings and comments as they are. -/
def isPlain (c : Char) : Bool :=
  c == '\t' || (0x20 ≤ c.toNat && c.toNat != 0x7F)

/-- The text behind the line break that it starts with. -/
def lineBreak : List Char → Option (List Char)
  | '\n' :: rest => some rest
  | '\r' :: '\n' :: rest => some rest
  | _ => none

/-- A line break takes at least one character. -/
theorem lineBreak_length_lt {cs rest : List Char} (h : lineBreak cs = some rest) :
    rest.length < cs.length := by
  unfold lineBreak at h
  split at h
  · injection h with h
    simp [h]
  · injection h with h
    simp only [List.length_cons, h]
    omega
  · contradiction

/-- The text behind the blanks and line breaks in front of it. -/
def skipBlank (cs : List Char) : List Char :=
  match cs with
  | [] => []
  | c :: rest =>
      if isSpace c then skipBlank rest
      else
        match _hbreak : lineBreak (c :: rest) with
        | some rest => skipBlank rest
        | none => c :: rest
termination_by cs.length
decreasing_by
  · simp
  · exact lineBreak_length_lt _hbreak

/-! ## Escapes -/

/-- The character with this number, if there is one. -/
def scalar? (n : Nat) : Option Char :=
  if n.isValidChar then some (Char.ofNat n) else none

/-- The character that the text behind a backslash stands for, and the rest of the text. -/
def escape : List Char → Option (Char × List Char)
  | 'b' :: rest => some ('\x08', rest)
  | 't' :: rest => some ('\t', rest)
  | 'n' :: rest => some ('\n', rest)
  | 'f' :: rest => some ('\x0c', rest)
  | 'r' :: rest => some ('\r', rest)
  | '"' :: rest => some ('"', rest)
  | '\\' :: rest => some ('\\', rest)
  | 'u' :: a :: b :: c :: d :: rest => do
      let n ← Text.ofHexDigits? [a, b, c, d]
      return (← scalar? n, rest)
  | 'U' :: a :: b :: c :: d :: e :: f :: g :: h :: rest => do
      let n ← Text.ofHexDigits? [a, b, c, d, e, f, g, h]
      return (← scalar? n, rest)
  | _ => none

/-! ## Bodies of strings -/

/-- The characters of a string up to the closing mark. -/
def lineBody (mark : Char) (escapes : Bool) : Nat → List Char → Option (List Char × List Char)
  | 0, _ => none
  | _ + 1, [] => none
  | fuel + 1, c :: rest =>
      if c = mark then some ([], rest)
      else if escapes && c == '\\' then do
        let (c, rest) ← escape rest
        let (body, rest) ← lineBody mark escapes fuel rest
        return (c :: body, rest)
      else if isPlain c then do
        let (body, rest) ← lineBody mark escapes fuel rest
        return (c :: body, rest)
      else none

/--
The characters of a string of several lines up to the closing three marks. Up to two more marks may
stand right before these.
-/
def blockBody (mark : Char) (escapes : Bool) : Nat → List Char → Option (List Char × List Char)
  | 0, _ => none
  | _ + 1, [] => none
  | fuel + 1, c :: rest =>
      let more (front : List Char) (rest : List Char) : Option (List Char × List Char) := do
        let (body, rest) ← blockBody mark escapes fuel rest
        return (front ++ body, rest)
      if c = mark then
        let marks := ((c :: rest).takeWhile (· == mark)).length
        let behind := (c :: rest).drop marks
        if marks < 3 then more (List.replicate marks mark) behind
        else if marks ≤ 5 then some (List.replicate (marks - 3) mark, behind)
        else none
      else if escapes && c == '\\' then
        match lineBreak (rest.dropWhile isSpace) with
        | some rest => more [] (skipBlank rest)
        | none =>
            match escape rest with
            | some (c, rest) => more [c] rest
            | none => none
      else
        match lineBreak (c :: rest) with
        | some rest => more ['\n'] rest
        | none => if isPlain c then more [c] rest else none

/-- The text behind the line break that it may start with. -/
def dropBreak (cs : List Char) : List Char :=
  (lineBreak cs).getD cs

/-- A string on one line, in front of a text. -/
def lineString (cs : List Char) : Option (String × List Char) :=
  let found :=
    match cs with
    | '"' :: rest => lineBody '"' true (rest.length + 1) rest
    | '\'' :: rest => lineBody '\'' false (rest.length + 1) rest
    | _ => none
  found.map fun (body, rest) => (String.ofList body, rest)

/-- A string of either kind in front of a text. -/
def anyString (cs : List Char) : Option (String × List Char) :=
  let block (mark : Char) (escapes : Bool) (rest : List Char) : Option (String × List Char) :=
    (blockBody mark escapes (rest.length + 1) (dropBreak rest)).map fun (body, rest) =>
      (String.ofList body, rest)
  match cs with
  | '"' :: '"' :: '"' :: rest => block '"' true rest
  | '\'' :: '\'' :: '\'' :: rest => block '\'' false rest
  | _ => lineString cs

end Toml
end RunnerFleet
