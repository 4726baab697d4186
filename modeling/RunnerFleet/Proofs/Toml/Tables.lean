import RunnerFleet.Proofs.Toml.Lines

/-!
# Tables that were written

The text of a table has its own entries first and the tables in it afterwards, each under a header.
The reader puts every entry into the table of the last header.  While it reads what was written,
that table is always the last entry of the table around it, and so on up to the table of the whole
text: the tables around it are kept in frames here, and what a statement does is said about the
innermost table alone.

Main results:

- `descend_plug`: a change at the end of a path is a change of the innermost table.
- `Orderly.lines_tables`: the lines of a table make up a table with the same entries.
- `read_text`: an orderly table is read back from its text.
-/

namespace RunnerFleet
namespace Toml

open Item (descend addEntry addTable toEntries)

/-! ## The tables around a table -/

/-- A table around another one, which is its last entry. -/
structure Frame where
  own : Origin
  before : List (String × Item)
  name : String
  fresh : before.lookup name = none

/-- A table inside others. -/
def plug : List Frame → Table → Table
  | [], t => t
  | frame :: frames, t =>
      (frame.own, frame.before ++
        [(frame.name, .table (plug frames t).1 (plug frames t).2)])

/-- One more table around a table, inside the others. -/
@[simp]
theorem plug_append (frames : List Frame) (frame : Frame) (t : Table) :
    plug (frames ++ [frame]) t =
      plug frames (frame.own, frame.before ++ [(frame.name, .table t.1 t.2)]) := by
  induction frames with
  | nil => rfl
  | cons first frames ih => rw [List.cons_append, plug, plug, ih]

theorem lookup_append_singleton {items : List (String × Item)} {name : String} {item : Item}
    (hfresh : items.lookup name = none) : (items ++ [(name, item)]).lookup name = some item := by
  rw [List.lookup_append, hfresh]
  simp

/-- What has another name stays when an item is replaced. -/
theorem replace_append_singleton {items : List (String × Item)} {name : String} {item other : Item}
    (hfresh : items.lookup name = none) :
    Item.replace name other (items ++ [(name, item)]) = items ++ [(name, other)] := by
  have hsame :
      items.map (fun entry => if entry.1 = name then (name, other) else entry) = items := by
    refine (List.map_congr_left fun entry hentry => ?_).trans (List.map_id items)
    have hne := List.lookup_eq_none_iff.1 hfresh entry hentry
    rw [if_neg fun heq => (bne_iff_ne.1 hne) heq.symm]
    rfl
  rw [Item.replace, List.map_append, hsame, List.map_singleton, if_pos rfl]

/-- A change at the end of a path is a change of the innermost table. -/
theorem descend_plug (change : Table → Option Table) (frames : List Frame) (t : Table) :
    descend .headerPath change (frames.map Frame.name) (plug frames t) =
      (change t).map (plug frames) := by
  induction frames with
  | nil =>
      have hself : plug [] = id := rfl
      rw [List.map_nil, descend, hself, Option.map_id]
      rfl
  | cons frame frames ih =>
      rw [List.map_cons, plug]
      simp only [descend, lookup_append_singleton frame.fresh, reduceCtorEq, false_and, if_false,
        ih, replace_append_singleton frame.fresh]
      cases change t <;> rfl

/-! ## Statements -/

/-- An entry is put into the innermost table. -/
theorem step_entry {frames : List Frame} {own : Origin} {items : List (String × Item)}
    {s : String} (v : Value) (hown : own ≠ .entryPath) (hfresh : items.lookup s = none) :
    Draft.step ⟨plug frames (own, items), frames.map Frame.name⟩ (.entry [] s v) =
      some ⟨plug frames (own, items ++ [(s, .value v)]), frames.map Frame.name⟩ := by
  have hadd : enter [] s v (own, items) = some (own, items ++ [(s, .value v)]) := by
    simp [enter, descend, addEntry, hown, hfresh]
  simp [Draft.step, descend_plug, hadd]

/-- A header opens a table behind what is in the innermost table. -/
theorem step_table {frames : List Frame} {own : Origin} {items : List (String × Item)}
    {s : String} {current : List String} (hfresh : items.lookup s = none) :
    Draft.step ⟨plug frames (own, items), current⟩ (.table (frames.map Frame.name) s) =
      some ⟨plug (frames ++ [Frame.mk own items s hfresh]) (.header, []),
        (frames ++ [Frame.mk own items s hfresh]).map Frame.name⟩ := by
  have hadd : addTable s (own, items) = some (own, items ++ [(s, .table .header [])]) := by
    simp [addTable, hfresh]
  rw [plug_append, List.map_append]
  simp [Draft.step, descend_plug, hadd]

/-- Entries as they are read, before any table. -/
def plainItems (entries : List (String × Value)) : List (String × Item) :=
  entries.map fun entry => (entry.1, .value entry.2)

@[simp]
theorem toEntries_plainItems (entries : List (String × Value)) :
    toEntries (plainItems entries) = entries := by
  induction entries with
  | nil => rfl
  | cons e entries ih =>
      rw [plainItems, List.map_cons, ← plainItems, toEntries, ih]
      rfl

@[simp]
theorem toEntries_append_singleton (items : List (String × Item)) (name : String) (item : Item) :
    toEntries (items ++ [(name, item)]) = toEntries items ++ [(name, item.toValue)] := by
  induction items with
  | nil => rfl
  | cons e items ih => rw [List.cons_append, toEntries, ih, toEntries, List.cons_append]

/-- A table has the names of its items. -/
@[simp]
theorem names_toEntries (items : List (String × Item)) :
    (toEntries items).map Prod.fst = items.map Prod.fst := by
  induction items with
  | nil => rfl
  | cons e items ih => rw [toEntries, List.map_cons, List.map_cons, ih]

theorem lookup_eq_none_of_names {items : List (String × Item)} {name : String}
    (h : name ∉ items.map Prod.fst) : items.lookup name = none := by
  rw [List.lookup_eq_none_iff]
  intro e he
  exact bne_iff_ne.2 fun heq => h (heq ▸ List.mem_map_of_mem he)

/-- The entries of a table are put into it in their order. -/
theorem foldlM_step_entries (frames : List Frame) {own : Origin} (hown : own ≠ .entryPath)
    {entries : List (String × Value)} (items : List (String × Item))
    (hnames : (items.map Prod.fst ++ entries.map Prod.fst).Nodup) :
    (entries.map fun entry => Statement.entry [] entry.1 entry.2).foldlM Draft.step
        ⟨plug frames (own, items), frames.map Frame.name⟩ =
      some ⟨plug frames (own, items ++ plainItems entries), frames.map Frame.name⟩ := by
  induction entries generalizing items with
  | nil => simp [plainItems]
  | cons e entries ih =>
      have hfresh : items.lookup e.1 = none := by
        refine lookup_eq_none_of_names fun hmem => ?_
        exact List.disjoint_of_nodup_append hnames hmem (List.mem_map_of_mem List.mem_cons_self)
      have hrest := ih (items ++ [(e.1, .value e.2)]) (by simpa using hnames)
      rw [List.map_cons, List.foldlM_cons, step_entry e.2 hown hfresh, Option.bind_eq_bind,
        Option.bind_some, hrest]
      simp [plainItems]

/-! ## Orderly tables -/

/--
Tables that are read back as they were written: the entries of a table that are no tables are
legible and come first, and every table in it has a header.  Names are different, and tables are
nested at most as deep as `depth`.
-/
inductive Orderly : (depth : Nat) → List (String × Value) → Prop where
  | plain {depth : Nat} {entries : List (String × Value)}
      (hlegible : ∀ entry ∈ entries, entry.2.isTable = false ∧ Legible entry.2)
      (hnames : (entries.map Prod.fst).Nodup) : Orderly depth entries
  | table {depth : Nat} {entries inner : List (String × Value)} (name : String)
      (h : Orderly (depth + 1) entries) (hfresh : name ∉ entries.map Prod.fst)
      (hinner : Orderly depth inner) (hheader : Value.needsHeader inner = true) :
      Orderly (depth + 1) (entries ++ [(name, .table inner)])

theorem plainEntries_of_plain {entries : List (String × Value)}
    (h : ∀ entry ∈ entries, entry.2.isTable = false) : plainEntries entries = entries := by
  rw [plainEntries, List.filter_eq_self]
  intro entry hentry
  rw [h entry hentry]
  rfl

@[simp]
theorem plainEntries_append_table (entries inner : List (String × Value)) (name : String) :
    plainEntries (entries ++ [(name, .table inner)]) = plainEntries entries := by
  simp [plainEntries, Value.isTable]

/-- The entries that are no tables are legible and have different names. -/
theorem Orderly.plainEntries {depth : Nat} {entries : List (String × Value)}
    (h : Orderly depth entries) :
    (∀ entry ∈ plainEntries entries, Legible entry.2) ∧
      ((Toml.plainEntries entries).map Prod.fst).Nodup := by
  induction h with
  | @plain _ entries hlegible hnames =>
      rw [plainEntries_of_plain fun entry hentry => (hlegible entry hentry).1]
      exact ⟨fun entry hentry => (hlegible entry hentry).2, hnames⟩
  | @table _ entries inner name h hfresh hinner hheader ih _ =>
      rw [plainEntries_append_table]
      exact ih

/-- Tables are written one after the other. -/
theorem withTables_append (entries more : List (String × Value)) (before : List Char)
    (path : List String) :
    Value.withTables before path (entries ++ more) =
      Value.withTables (Value.withTables before path entries) path more := by
  induction entries generalizing before with
  | nil => rw [List.nil_append, Value.withTables]
  | cons e entries ih =>
      obtain ⟨name, v⟩ := e
      rw [List.cons_append, Value.withTables, Value.withTables, ih]

/-- Entries that are no tables have no lines among the tables. -/
theorem withTables_plain {entries : List (String × Value)}
    (h : ∀ entry ∈ entries, entry.2.isTable = false) (before : List Char) (path : List String) :
    Value.withTables before path entries = before := by
  induction entries with
  | nil => rw [Value.withTables]
  | cons e entries ih =>
      obtain ⟨hfirst, hentries⟩ := List.forall_mem_cons.1 h
      obtain ⟨name, v⟩ := e
      have hskip : Value.withTable before (path ++ [name]) v = before := by
        cases v with
        | table inner => contradiction
        | _ => rw [Value.withTable]; intro entries heq; contradiction
      rw [Value.withTables, hskip, ih hentries]

/-- The lines of a table: perhaps an empty line, its header, and those entries that are no tables. -/
theorem lines_table {depth : Nat} {entries : List (String × Value)} (h : Orderly depth entries)
    (before : List Char) (path : List String) (name : String) (hlength : path.length < depthLimit) :
    Lines ((if before.isEmpty then [] else ['\n']) ++ Value.headerLine (path ++ [name]) ++
        Value.plainLines entries)
      (.table path name ::
        (plainEntries entries).map fun entry => .entry [] entry.1 entry.2) := by
  have hgap : Lines (if before.isEmpty then [] else ['\n']) [] := by
    split
    · exact Lines.nil
    · exact Lines.blank
  exact (hgap.append (lines_header hlength)).append (lines_plainLines h.plainEntries.1)

/--
The statements make up a table of these entries, once those that are no tables are in it, whichever
tables are around it.
-/
def Completes (path : List String) (read : List Statement) (entries : List (String × Value)) :
    Prop :=
  ∀ (frames : List Frame) (own : Origin) (current : List String), frames.map Frame.name = path →
    ∃ items last, toEntries items = entries ∧
      read.foldlM Draft.step ⟨plug frames (own, plainItems (plainEntries entries)), current⟩ =
        some ⟨plug frames (own, items), last⟩

/-- Nothing is missing in a table without tables. -/
theorem Completes.plain {path : List String} {entries : List (String × Value)}
    (h : ∀ entry ∈ entries, entry.2.isTable = false) : Completes path [] entries := by
  intro frames own current _
  rw [plainEntries_of_plain h]
  exact ⟨_, _, toEntries_plainItems entries, rfl⟩

/-- A header, the entries under it and what completes their table complete one more table. -/
theorem Completes.table {path : List String} {read others : List Statement}
    {entries inner : List (String × Value)} {name : String} (h : Completes path read entries)
    (hfresh : name ∉ entries.map Prod.fst) (hnames : ((plainEntries inner).map Prod.fst).Nodup)
    (hinner : Completes (path ++ [name]) others inner) :
    Completes path (read ++ (.table path name ::
        (plainEntries inner).map fun entry => .entry [] entry.1 entry.2) ++ others)
      (entries ++ [(name, .table inner)]) := by
  rintro frames own current rfl
  obtain ⟨items, last, hentries, hitems⟩ := h frames own current rfl
  have hname : items.lookup name = none := by
    refine lookup_eq_none_of_names ?_
    rwa [← names_toEntries, hentries]
  -- behind the header the new table is the innermost one
  obtain ⟨innerItems, lastInner, hinnerEntries, hinnerItems⟩ :=
    hinner (frames ++ [Frame.mk own items name hname]) .header
      ((frames ++ [Frame.mk own items name hname]).map Frame.name) (by simp)
  have hplain := foldlM_step_entries (frames ++ [Frame.mk own items name hname])
    (show Origin.header ≠ .entryPath by decide) [] hnames
  refine ⟨items ++ [(name, .table .header innerItems)], lastInner, ?_, ?_⟩
  · rw [toEntries_append_singleton, hentries, Item.toValue, hinnerEntries]
  · rw [List.nil_append] at hplain
    rw [plainEntries_append_table, List.foldlM_append, List.foldlM_append, hitems,
      Option.bind_eq_bind, Option.bind_some, List.foldlM_cons, step_table hname,
      Option.bind_eq_bind, Option.bind_some, hplain, Option.bind_some, hinnerItems, plug_append]

/--
The lines of the tables in a table make up, behind its other entries, a table with all its entries.
-/
theorem Orderly.lines_tables {depth : Nat} {entries : List (String × Value)}
    (h : Orderly depth entries) (before : List Char) (path : List String)
    (hdepth : path.length + depth ≤ depthLimit) :
    ∃ body read, Value.withTables before path entries = before ++ body ∧ Lines body read ∧
      Completes path read entries := by
  induction h generalizing before path with
  | @plain _ entries hlegible hnames =>
      have hplain : ∀ entry ∈ entries, entry.2.isTable = false :=
        fun entry hentry => (hlegible entry hentry).1
      exact ⟨[], [], by rw [withTables_plain hplain, List.append_nil], Lines.nil,
        Completes.plain hplain⟩
  | @table depth entries inner name h hfresh hinner hheader ih ihInner =>
      obtain ⟨body, read, hbody, hlines, hread⟩ := ih before path hdepth
      have hown := lines_table hinner (before ++ body) path name (by omega)
      generalize hownText : (if (before ++ body).isEmpty then [] else ['\n']) ++
        Value.headerLine (path ++ [name]) ++ Value.plainLines inner = ownText at hown
      obtain ⟨behind, others, hbehind, hlinesInner, hreadInner⟩ :=
        ihInner (before ++ body ++ ownText) (path ++ [name])
          (by rw [List.length_append, List.length_singleton]; omega)
      refine ⟨body ++ ownText ++ behind, _, ?_, (hlines.append hown).append hlinesInner,
        hread.table hfresh hinner.plainEntries.2 hreadInner⟩
      rw [withTables_append, hbody, Value.withTables, Value.withTables, Value.withTable]
      simp only [hheader, if_true, hownText, hbehind]
      simp only [List.append_assoc]

/-- An orderly table is read back from its text. -/
theorem read_text {depth : Nat} {entries : List (String × Value)} (h : Orderly depth entries)
    (hdepth : depth ≤ depthLimit) :
    Toml.read (Value.table entries).text = some (.table entries) := by
  obtain ⟨body, read, hbody, hlines, hread⟩ :=
    h.lines_tables (Value.plainLines entries) [] (by simpa using hdepth)
  have hplain := foldlM_step_entries [] (show Origin.header ≠ .entryPath by decide) []
    h.plainEntries.2
  obtain ⟨items, last, hentries, hitems⟩ := hread [] .header [] rfl
  have hall := (lines_plainLines h.plainEntries.1).append hlines
  have hmark : dropMark (Value.plainLines entries ++ body) = Value.plainLines entries ++ body := by
    have hfirst := hall.unmarked
    unfold dropMark
    split
    · rename_i heq
      rw [heq] at hfirst
      exact absurd rfl hfirst
    · rfl
  have hdraft : ofStatements ((plainEntries entries).map
      (fun entry => .entry [] entry.1 entry.2) ++ read) = some (.table entries) := by
    have hstart : ({} : Draft) = ⟨plug [] (.header, []), [].map Frame.name⟩ := rfl
    rw [List.nil_append] at hplain
    rw [ofStatements, hstart, List.foldlM_append, hplain, Option.bind_eq_bind, Option.bind_some]
    rw [List.map_nil, hitems, Option.map_some, plug, hentries]
  rw [Value.text, hbody, Toml.read, String.toList_ofList, hmark]
  simp only [hall.isText _ (Nat.lt_succ_self _), hdraft, Option.bind_eq_bind, Option.bind_some]

end Toml
end RunnerFleet
