import RunnerFleet.Binary64.Shortest
import RunnerFleet.Toml.Quoted
import RunnerFleet.Toml.Value

/-!
# Writing TOML texts

A table is written with its own entries first, one on each line, and then the tables in it, each
under a header and with an empty line in front of it. A table that holds nothing but tables needs no
header.
-/

namespace RunnerFleet
namespace Toml

/-- A floating-point number. -/
def floatText (x : Binary64) : String :=
  match x with
  | .nan => "nan"
  | x => x.decimalText

namespace Value

mutual

/-- A value on one line. -/
def inline : Value → List Char
  | string value => quote value
  | integer value => (toString value).toList
  | float value => (floatText value).toList
  | boolean value => if value then "true".toList else "false".toList
  | datetime text => text.toList
  | array items => '[' :: inlineItems items ++ [']']
  | table entries => '\x7b' :: ' ' :: inlineEntries entries ++ [' ', '\x7d']

/-- Values with commas between them. -/
def inlineItems : List Value → List Char
  | [] => []
  | [item] => inline item
  | item :: rest => inline item ++ ',' :: ' ' :: inlineItems rest

/-- Entries with commas between them. -/
def inlineEntries : List (String × Value) → List Char
  | [] => []
  | [(name, value)] => quoteName name ++ [' ', '=', ' '] ++ inline value
  | (name, value) :: rest =>
      quoteName name ++ [' ', '=', ' '] ++ inline value ++ ',' :: ' ' :: inlineEntries rest

end

/-- Whether the value is a table. -/
def isTable : Value → Bool
  | table _ => true
  | _ => false

/-- The lines of those entries that are no tables. -/
def plainLines (entries : List (String × Value)) : List Char :=
  entries.flatMap fun (name, value) =>
    if value.isTable then [] else quoteName name ++ [' ', '=', ' '] ++ value.inline ++ ['\n']

/-- The header of a table. -/
def headerLine (path : List String) : List Char :=
  '[' :: ['.'].intercalate (path.map quoteName) ++ [']', '\n']

/-- Whether a table needs a header. -/
def needsHeader (entries : List (String × Value)) : Bool :=
  entries.isEmpty || entries.any fun entry => !entry.2.isTable

mutual

/-- A table under its header, behind what was written before, with the tables in it. -/
def withTable (before : List Char) (path : List String) : Value → List Char
  | table entries =>
      let own :=
        if needsHeader entries then
          (if before.isEmpty then [] else ['\n']) ++ headerLine path ++ plainLines entries
        else []
      withTables (before ++ own) path entries
  | _ => before

/-- The tables among these entries, behind what was written before. -/
def withTables (before : List Char) (path : List String) : List (String × Value) → List Char
  | [] => before
  | (name, value) :: rest => withTables (withTable before (path ++ [name]) value) path rest

end

/-- The text of a table. -/
def text : Value → String
  | table entries => String.ofList (withTables (plainLines entries) [] entries)
  | _ => ""

end Value
end Toml
end RunnerFleet
