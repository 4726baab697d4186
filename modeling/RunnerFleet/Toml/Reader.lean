import RunnerFleet.Toml.Document
import RunnerFleet.Toml.Literal
import RunnerFleet.Toml.Number

/-!
# Reading TOML texts

A text is read line by line into statements. Arrays and tables may be nested in each other, and
names joined into paths, less than eighty times.
-/

namespace RunnerFleet
namespace Toml

/-- How deep values may be nested, and how long paths may be. -/
def depthLimit : Nat := 79

/-! ## Between statements -/

/-- The text behind the blanks of a line. -/
def skipSpaces (cs : List Char) : List Char :=
  cs.dropWhile isSpace

/-- The text behind a comment, if there is one. -/
def skipComment (cs : List Char) : List Char :=
  match cs with
  | '#' :: rest => rest.dropWhile isPlain
  | _ => cs

/-- The text behind the end of a line, which may have a comment in front of it. -/
def endLine (cs : List Char) : Option (List Char) :=
  match skipComment (skipSpaces cs) with
  | [] => some []
  | rest => lineBreak rest

/-- The text behind blanks, line breaks and comments. -/
def skipFiller (cs : List Char) : List Char :=
  go (cs.length + 1) cs
where
  /-- Skip as long as there is anything to skip. -/
  go : Nat → List Char → List Char
    | 0, cs => cs
    | fuel + 1, cs =>
        match skipBlank cs with
        | '#' :: rest => go fuel (rest.dropWhile isPlain)
        | rest => rest

/-! ## Names -/

/-- Characters of names without quotation marks. -/
def isBare (c : Char) : Bool :=
  c.isAlphanum || c == '_' || c == '-'

/-- One name, quoted or not, with blanks around it. -/
def name : Scan String := fun cs =>
  let cs := skipSpaces cs
  let found :=
    match cs.takeWhile isBare with
    | [] => lineString cs
    | bare => some (String.ofList bare, cs.dropWhile isBare)
  found.map fun (name, rest) => (name, skipSpaces rest)

/-- The names behind a first one, each with a point in front of it. -/
def moreNames : Nat → Scan (List String)
  | 0, _ => none
  | fuel + 1, '.' :: rest => do
      let (first, rest) ← name rest
      let (names, rest) ← moreNames fuel rest
      return (first :: names, rest)
  | _ + 1, cs => some ([], cs)

/-- Names with points between them: a path, and the name at its end. -/
def names (cs : List Char) : Option ((List String × String) × List Char) := do
  let (first, rest) ← name cs
  let (others, rest) ← moreNames depthLimit rest
  let all := first :: others
  return ((all.dropLast, all.getLast (by simp [all])), rest)

/-! ## Values -/

/-- Values with commas between them, up to the closing bracket. -/
def arrayItems (item : Scan Value) : Nat → Scan (List Value)
  | 0, _ => none
  | fuel + 1, cs =>
      match skipFiller cs with
      | ']' :: rest => some ([], rest)
      | cs => do
          let (first, rest) ← item cs
          match skipFiller rest with
          | ',' :: rest =>
              let (items, rest) ← arrayItems item fuel rest
              return (first :: items, rest)
          | ']' :: rest => return ([first], rest)
          | _ => none

/-- An entry: a path and a name, and a value behind an equals sign. -/
def entry (item : Scan Value) : Scan (List String × String × Value) := fun cs => do
  let ((path, name), rest) ← names cs
  let rest ← expect '=' rest
  let (value, rest) ← item (skipSpaces rest)
  return ((path, name, value), rest)

/-- Entries with commas between them, at least one, up to the closing brace. -/
def tableEntries (item : Scan Value) : Nat → Scan (List (List String × String × Value))
  | 0, _ => none
  | fuel + 1, cs => do
      let (first, rest) ← entry item cs
      match skipSpaces rest with
      | ',' :: rest =>
          let (entries, rest) ← tableEntries item fuel rest
          return (first :: entries, rest)
      | '\x7d' :: rest => return ([first], rest)
      | _ => none

/-- A table between braces, behind the opening one. -/
def braces (item : Scan Value) : Scan Value := fun cs =>
  match skipSpaces cs with
  | '\x7d' :: rest => some (.table [], rest)
  | cs => do
      let (entries, rest) ← tableEntries item (cs.length + 1) cs
      return (← inlineTable entries, rest)

/-- A value that is not made up of others. -/
def scalar : Scan Value := fun cs =>
  match cs with
  | 't' :: 'r' :: 'u' :: 'e' :: rest => some (.boolean true, rest)
  | 'f' :: 'a' :: 'l' :: 's' :: 'e' :: rest => some (.boolean false, rest)
  | _ =>
      match anyString cs with
      | some (text, rest) => some (.string text, rest)
      | none => (datetime cs).or (number cs)

/-- A value in which others are nested up to `depth` times. -/
def value : (depth : Nat) → Scan Value
  | 0, cs => if cs.head? = some '[' ∨ cs.head? = some '\x7b' then none else scalar cs
  | depth + 1, cs =>
      match cs with
      | '[' :: rest =>
          (arrayItems (value depth) (rest.length + 1) rest).map fun (items, rest) =>
            (.array items, rest)
      | '\x7b' :: rest => braces (value depth) rest
      | _ => scalar cs

/-! ## Statements -/

/-- A header, behind its opening brackets, with its closing ones. -/
def header (brackets : Nat) (cs : List Char) :
    Option ((List String × String) × List Char) := do
  let (path, rest) ← names cs
  if rest.take brackets = List.replicate brackets ']' then
    return (path, ← endLine (rest.drop brackets))
  else none

/-- A statement, up to the end of its line. -/
def statement : Scan Statement := fun cs =>
  match cs with
  | '[' :: '[' :: rest =>
      (header 2 rest).map fun ((path, name), rest) => (.element path name, rest)
  | '[' :: rest =>
      (header 1 rest).map fun ((path, name), rest) => (.table path name, rest)
  | _ => do
      let ((path, name, value), rest) ← entry (value depthLimit) cs
      return (.entry path name value, ← endLine rest)

/-- All statements of a text. -/
def statements : Nat → List Char → Option (List Statement)
  | 0, _ => none
  | fuel + 1, cs =>
      match skipSpaces cs with
      | [] => some []
      | cs =>
          match if cs.head? = some '#' then endLine cs else lineBreak cs with
          | some rest => statements fuel rest
          | none => do
              let (first, rest) ← statement cs
              return first :: (← statements fuel rest)

/-- The text behind a byte order mark, if it starts with one. -/
def dropMark (cs : List Char) : List Char :=
  match cs with
  | '\ufeff' :: rest => rest
  | _ => cs

/-- The value of a text. -/
def read (text : String) : Option Value := do
  let cs := dropMark text.toList
  ofStatements (← statements (cs.length + 1) cs)

end Toml
end RunnerFleet
