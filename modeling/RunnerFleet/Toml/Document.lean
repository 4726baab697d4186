import RunnerFleet.Toml.Value

/-!
# Tables under construction

A TOML text is a row of statements: headers, which say where the entries behind them go, and
entries. Tables come up in three ways, which decide what may still be added to them: by a header of
their own, as a part of the path of a header, or as a part of the path of an entry.
-/

namespace RunnerFleet
namespace Toml

/-- How a table came up. -/
inductive Origin where
  /-- By a header of its own, or as the table of the whole text. -/
  | header
  /-- On the path of a header. -/
  | headerPath
  /-- On the path of an entry. -/
  | entryPath
deriving DecidableEq, Repr

/-- What a name stands for in a table. -/
inductive Item where
  | value (value : Value)
  | table (origin : Origin) (items : List (String × Item))
  /-- An array of tables, each with a header of its own. -/
  | tables (elements : List (List (String × Item)))

/-- A table: how it came up, and what is in it. -/
abbrev Table := Origin × List (String × Item)

/-- A statement. -/
inductive Statement where
  | entry (path : List String) (name : String) (value : Value)
  | table (path : List String) (name : String)
  | element (path : List String) (name : String)

namespace Item

/-- Put an item in the place of the one with this name. -/
def replace (name : String) (item : Item) (items : List (String × Item)) : List (String × Item) :=
  items.map fun entry => if entry.1 = name then (name, item) else entry

/--
Change the table at the end of a path. Tables on the path that are missing come up with `origin`.
The path of an entry does not lead through tables with a header of their own; every path leads to
the last element of an array of tables.
-/
def descend (origin : Origin) (change : Table → Option Table) : List String → Table → Option Table
  | [], t => change t
  | name :: path, (own, items) =>
      match items.lookup name with
      | none => do
          let (o, inner) ← descend origin change path (origin, [])
          return (own, items ++ [(name, table o inner)])
      | some (value _) => none
      | some (table o inner) =>
          if origin = .entryPath ∧ o = .header then none
          else do
            let (o, inner) ← descend origin change path (o, inner)
            return (own, replace name (table o inner) items)
      | some (tables elements) =>
          match elements.getLast? with
          | none => none
          | some last => do
              let (_, last) ← descend origin change path (.header, last)
              return (own, replace name (tables (elements.dropLast ++ [last])) items)

/-- Add an entry to a table that was reached over a path, or over none. -/
def addEntry (overPath : Bool) (name : String) (v : Value) (t : Table) : Option Table :=
  if (t.1 = .entryPath) ≠ overPath then none
  else
    match t.2.lookup name with
    | some _ => none
    | none => some (t.1, t.2 ++ [(name, value v)])

/-- Give a table a header of its own. -/
def addTable (name : String) (t : Table) : Option Table :=
  match t.2.lookup name with
  | none => some (t.1, t.2 ++ [(name, table .header [])])
  | some (table .headerPath inner) => some (t.1, replace name (table .header inner) t.2)
  | some _ => none

/-- Add an element to an array of tables. -/
def addElement (name : String) (t : Table) : Option Table :=
  match t.2.lookup name with
  | none => some (t.1, t.2 ++ [(name, tables [[]])])
  | some (tables elements) => some (t.1, replace name (tables (elements ++ [[]])) t.2)
  | some _ => none

/-! ## Finished tables -/

mutual

/-- The value of an item. -/
def toValue : Item → Value
  | value v => v
  | table _ items => .table (toEntries items)
  | tables elements => .array (toTables elements)

/-- The entries of a table. -/
def toEntries : List (String × Item) → List (String × Value)
  | [] => []
  | (name, item) :: rest => (name, toValue item) :: toEntries rest

/-- The elements of an array of tables. -/
def toTables : List (List (String × Item)) → List Value
  | [] => []
  | items :: rest => .table (toEntries items) :: toTables rest

end

end Item

/-! ## Statements in order -/

/-- A text under construction: its table, and where entries go. -/
structure Draft where
  root : Table := (.header, [])
  current : List String := []

/-- Add an entry to a table, at the end of a path that starts there. -/
def enter (path : List String) (name : String) (v : Value) (t : Table) : Option Table :=
  Item.descend .entryPath (Item.addEntry (!path.isEmpty) name v) path t

/-- Take the next statement. -/
def Draft.step (d : Draft) : Statement → Option Draft
  | .entry path name v => do
      return { d with root := ← Item.descend .headerPath (enter path name v) d.current d.root }
  | .table path name => do
      return ⟨← Item.descend .headerPath (Item.addTable name) path d.root, path ++ [name]⟩
  | .element path name => do
      return ⟨← Item.descend .headerPath (Item.addElement name) path d.root, path ++ [name]⟩

/-- The value of a row of statements. -/
def ofStatements (statements : List Statement) : Option Value :=
  (statements.foldlM Draft.step {}).map fun d => .table (Item.toEntries d.root.2)

/-- Add entries to a table, each at the end of its path. -/
def enterAll (t : Table) : List (List String × String × Value) → Option Table
  | [] => some t
  | (path, name, v) :: rest => do
      enterAll (← enter path name v t) rest

/-- The value of a table on one line, which has its entries between braces. -/
def inlineTable (entries : List (List String × String × Value)) : Option Value :=
  (enterAll (.header, []) entries).map fun t => .table (Item.toEntries t.2)

end Toml
end RunnerFleet
