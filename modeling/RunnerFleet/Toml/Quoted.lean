import RunnerFleet.Toml.Literal

/-!
# Writing TOML strings and names

A string is written between quotation marks if that needs no escapes, else between apostrophes, else
between three marks of either kind, and only if none of these will do with escapes. Three marks are
followed by a line break if the text has one. Names are written without marks where they can be.
-/

namespace RunnerFleet
namespace Toml

/-- The ways to write a string. -/
inductive Style where
  /-- Between quotation marks, one or three on each side. -/
  | basic (block : Bool)
  /-- Between apostrophes, one or three on each side. -/
  | literal (block : Bool)
deriving DecidableEq, Repr

/-- Whether the character cannot be written without an escape. -/
def isControl (c : Char) : Bool :=
  (c.toNat < 0x20 && c != '\t' && c != '\n') || c.toNat == 0x7F

/-- The length of the longest run of `c`, where `run` of them were just before. -/
def longestRun (c : Char) (run : Nat) : List Char → Nat
  | [] => run
  | d :: rest => if d = c then longestRun c (run + 1) rest else max run (longestRun c 0 rest)

/-- How a text is written as a value. -/
def styleOf (cs : List Char) : Style :=
  let control := cs.any isControl
  let breaks := cs.contains '\n'
  let backslash := cs.contains '\\'
  if !control && !backslash && !cs.contains '"' && !breaks then .basic false
  else if !control && !cs.contains '\'' && !breaks then .literal false
  else if !control && !backslash && longestRun '"' 0 cs ≤ 2 then .basic true
  else if !control && longestRun '\'' 0 cs ≤ 2 then .literal true
  else .basic breaks

/-- How a text is written as a name that needs marks. -/
def nameStyleOf (cs : List Char) : Style :=
  let control := cs.any fun c => isControl c || c == '\n'
  if !control && !cs.contains '\\' && !cs.contains '"' then .basic false
  else if !control && !cs.contains '\'' then .literal false
  else .basic false

/-- The upper-case digit of base sixteen. -/
def upperHex (n : Nat) : Char :=
  (Nat.digitChar n).toUpper

/-- How a character is written between quotation marks. -/
def escapeChar (c : Char) : List Char :=
  match c with
  | '\x08' => ['\\', 'b']
  | '\t' => ['\\', 't']
  | '\n' => ['\\', 'n']
  | '\x0c' => ['\\', 'f']
  | '\r' => ['\\', 'r']
  | '"' => ['\\', '"']
  | '\\' => ['\\', '\\']
  | c =>
      if isControl c then
        ['\\', 'u', '0', '0', upperHex (c.toNat / 16), upperHex (c.toNat % 16)]
      else [c]

/-- The body between three quotation marks, with `run` of them just before. -/
def blockEscape (run : Nat) : List Char → List Char
  | [] => []
  | c :: rest =>
      if c = '\n' then '\n' :: blockEscape 0 rest
      else if c = '"' then
        if run < 2 then '"' :: blockEscape (run + 1) rest
        else '\\' :: '"' :: blockEscape 0 rest
      else escapeChar c ++ blockEscape 0 rest

/-- A text in one of the styles. -/
def styled (style : Style) (cs : List Char) : List Char :=
  let opening := if cs.contains '\n' then ['\n'] else []
  match style with
  | .basic false => '"' :: cs.flatMap escapeChar ++ ['"']
  | .literal false => '\'' :: cs ++ ['\'']
  | .basic true => List.replicate 3 '"' ++ opening ++ blockEscape 0 cs ++ List.replicate 3 '"'
  | .literal true => List.replicate 3 '\'' ++ opening ++ cs ++ List.replicate 3 '\''

/-- A text as a value. -/
def quote (s : String) : List Char :=
  styled (styleOf s.toList) s.toList

/-- Whether a name can be written without marks. -/
def isBareName (s : String) : Bool :=
  s ≠ "" && s.toList.all fun c => c.isAlphanum || c == '_' || c == '-'

/-- A text as a name. -/
def quoteName (s : String) : List Char :=
  if isBareName s then s.toList else styled (nameStyleOf s.toList) s.toList

end Toml
end RunnerFleet
