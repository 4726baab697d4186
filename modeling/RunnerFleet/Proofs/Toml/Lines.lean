import RunnerFleet.Proofs.Toml.Scalars

/-!
# Lines that were written

An entry is written on one line and read as one statement, and so is the header of a table.  A text
is read statement by statement, so what is read of a text can be put together from what is read of
its lines; empty lines are read as nothing.

Main results:

- `statement_entry`, `statement_header`: the statements of single lines.
- `Lines`, `Lines.append`: texts that are read as rows of statements, whatever stands behind them.
- `lines_plainLines`: the entries of a table.
-/

namespace RunnerFleet
namespace Toml

/-! ## Paths -/

/-- A character that ends a path. -/
structure EndsPath (c : Char) : Prop where
  ne_point : c ≠ '.'
  not_bare : isBare c = false
  not_space : isSpace c = false

/-- The names of a path behind its first one. -/
def pathTail (others : List String) : List Char :=
  others.flatMap fun name => '.' :: quoteName name

/-- Behind a name of a path stands a point or the end of the path. -/
theorem pathTail_head (others : List String) {c : Char} (hc : EndsPath c) (rest : List Char) :
    ∃ first cs, pathTail others ++ c :: rest = first :: cs ∧ isBare first = false ∧
      isSpace first = false := by
  cases others with
  | nil => exact ⟨c, rest, rfl, hc.not_bare, hc.not_space⟩
  | cons name others => exact ⟨_, _, rfl, by decide, by decide⟩

/-- A name on a path is read back. -/
theorem name_pathTail (s : String) (others : List String) {c : Char} (hc : EndsPath c)
    (rest : List Char) :
    name (quoteName s ++ (pathTail others ++ c :: rest)) =
      some (s, pathTail others ++ c :: rest) := by
  obtain ⟨first, cs, hcons, hbare, hspace⟩ := pathTail_head others hc rest
  rw [hcons, name_quoteName s (by simpa using hbare), skipSpaces_cons _ hspace]

/-- The names of a path are read back, if they are not too many. -/
theorem moreNames_pathTail (others : List String) {fuel : Nat} (hfuel : others.length < fuel)
    {c : Char} (hc : EndsPath c) (rest : List Char) :
    moreNames fuel (pathTail others ++ c :: rest) = some (others, c :: rest) := by
  induction others generalizing fuel with
  | nil =>
      obtain ⟨fuel, rfl⟩ : ∃ n, fuel = n + 1 := ⟨fuel - 1, by omega⟩
      rw [pathTail, List.flatMap_nil, List.nil_append]
      unfold moreNames
      split
      · contradiction
      · rename_i heq
        exact absurd (List.cons.inj heq).1 hc.ne_point
      · rfl
  | cons s others ih =>
      obtain ⟨fuel, rfl⟩ : ∃ n, fuel = n + 1 := ⟨fuel - 1, by omega⟩
      have hrest := ih (show others.length < fuel by simpa using hfuel)
      have hname := name_pathTail s others hc rest
      have hcons : pathTail (s :: others) ++ c :: rest =
          '.' :: (quoteName s ++ (pathTail others ++ c :: rest)) := by
        simp [pathTail]
      simp [hcons, moreNames, hname, hrest]

/-- A path in front of a character that ends it is read back. -/
theorem names_path (first : String) {others : List String} (hlength : others.length < depthLimit)
    {c : Char} (hc : EndsPath c) (rest : List Char) :
    names (quoteName first ++ (pathTail others ++ c :: rest)) =
      some (((first :: others).dropLast, (first :: others).getLast (by simp)), c :: rest) := by
  have hname := name_pathTail first others hc rest
  have hmore := moreNames_pathTail others hlength hc rest
  simp [names, hname, hmore]

/-! ## Single lines -/

/-- What a line with a statement may start with. -/
structure StartsLine (first : Char) : Prop where
  not_space : isSpace first = false
  ne_comment : first ≠ '#'
  ne_newline : first ≠ '\n'
  ne_return : first ≠ '\r'
  ne_mark : first ≠ '\ufeff'

/-- A legible value does not start with a blank. -/
theorem Legible.skipSpaces_inline {v : Value} (h : Legible v) (rest : List Char) :
    skipSpaces (v.inline ++ rest) = v.inline ++ rest := by
  obtain ⟨first, cs, hcons, hspace⟩ :
      ∃ first cs, v.inline = first :: cs ∧ isSpace first = false := by
    cases h with
    | string s =>
        obtain ⟨mark, cs, hcons, hmark⟩ := styled_eq_cons (styleOf s.toList) s.toList
        refine ⟨mark, cs, by rw [Value.inline, quote, hcons], ?_⟩
        rcases hmark with rfl | rfl <;> decide
    | @integer n _ =>
        obtain ⟨c, cs, hcons, hdigit⟩ := Text.toDigits_eq_cons n
        exact ⟨c, cs, by rw [inline_natural, hcons], not_isSpace_of_isDigit hdigit⟩
    | infinite =>
        exact ⟨'i', ['n', 'f'], inline_infinite, by decide⟩
    | @finite rank hpos =>
        obtain ⟨whole, places, htext, hspelled⟩ := Binary64.exists_spelled hpos
        obtain ⟨c, cs, hcons⟩ := List.exists_cons_of_ne_nil hspelled.whole_ne
        refine ⟨c, cs ++ '.' :: places, ?_, ?_⟩
        · rw [Value.inline, floatText, htext, hcons, List.cons_append]
          simp
        · exact not_isSpace_of_isDigit (hspelled.whole_digits c (hcons ▸ List.mem_cons_self))
  rw [hcons, List.cons_append, skipSpaces_cons _ hspace]

/-- A name does not start with a bracket, nor with what is passed over between lines. -/
theorem quoteName_starts (s : String) :
    ∃ first cs, quoteName s = first :: cs ∧ first ≠ '[' ∧ StartsLine first := by
  obtain ⟨first, cs, hcons, hfirst⟩ := quoteName_eq_cons s
  refine ⟨first, cs, hcons, ?_⟩
  rcases hfirst with hbare | rfl | rfl
  · have hne {other : Char} (hother : isBare other = false) : first ≠ other := by
      rintro rfl
      rw [hbare] at hother
      contradiction
    exact ⟨hne (by decide), not_isSpace_of_isBare hbare, hne (by decide), hne (by decide),
      hne (by decide), hne (by decide)⟩
  · exact ⟨by decide, by decide, by decide, by decide, by decide, by decide⟩
  · exact ⟨by decide, by decide, by decide, by decide, by decide, by decide⟩

/-- A line that starts with a name is an entry. -/
theorem statement_of_name (s : String) (cs : List Char) :
    statement (quoteName s ++ cs) = do
      let ((path, name, value), rest) ← entry (value depthLimit) (quoteName s ++ cs)
      return (.entry path name value, ← endLine rest) := by
  obtain ⟨first, tail, hcons, hbracket, -⟩ := quoteName_starts s
  rw [hcons, List.cons_append]
  unfold statement
  split
  · rename_i heq
    exact absurd (List.cons.inj heq).1 hbracket
  · rename_i heq
    exact absurd (List.cons.inj heq).1 hbracket
  · rfl

/-- An entry is read back from its line. -/
theorem statement_entry (s : String) {v : Value} (h : Legible v) (rest : List Char) :
    statement (quoteName s ++ [' ', '=', ' '] ++ v.inline ++ ['\n'] ++ rest) =
      some (.entry [] s v, rest) := by
  have hname : name (quoteName s ++ ' ' :: '=' :: ' ' :: (v.inline ++ '\n' :: rest)) =
      some (s, '=' :: ' ' :: (v.inline ++ '\n' :: rest)) := by
    rw [name_quoteName s (by simp; decide)]
    rfl
  have hmore : moreNames depthLimit ('=' :: ' ' :: (v.inline ++ '\n' :: rest)) =
      some ([], '=' :: ' ' :: (v.inline ++ '\n' :: rest)) :=
    moreNames_pathTail [] (by decide) ⟨by decide, by decide, by decide⟩ _
  have hskip : skipSpaces (' ' :: (v.inline ++ '\n' :: rest)) = v.inline ++ '\n' :: rest := by
    rw [skipSpaces, List.dropWhile_cons_of_pos (by decide), ← skipSpaces, h.skipSpaces_inline]
  have hvalue : value depthLimit (v.inline ++ '\n' :: rest) = some (v, '\n' :: rest) :=
    value_inline h rest
  have hentry : entry (value depthLimit)
      (quoteName s ++ ' ' :: '=' :: ' ' :: (v.inline ++ '\n' :: rest)) =
        some (([], s, v), '\n' :: rest) := by
    simp [entry, names, hname, hmore, expect, hskip, hvalue]
  have hend : endLine ('\n' :: rest) = some rest := rfl
  simp only [List.append_assoc, List.cons_append, List.nil_append]
  rw [statement_of_name, hentry]
  simp [hend]

/-- A path is written as its first name and the names behind it. -/
theorem intercalate_quoteName (first : String) (others : List String) :
    ['.'].intercalate ((first :: others).map quoteName) = quoteName first ++ pathTail others := by
  induction others generalizing first with
  | nil => simp [pathTail]
  | cons second others ih =>
      have hrest := ih second
      simp only [List.map_cons] at hrest ⊢
      rw [List.intercalate_cons_cons, hrest]
      simp [pathTail]

/-- A header is read back from its line. -/
theorem statement_header {path : List String} {s : String} (hlength : path.length < depthLimit)
    (rest : List Char) :
    statement (Value.headerLine (path ++ [s]) ++ rest) = some (.table path s, rest) := by
  obtain ⟨first, others, hcons⟩ := List.exists_cons_of_ne_nil
    (show path ++ [s] ≠ [] by simp)
  have hothers : others.length < depthLimit := by
    have hcount := congrArg List.length hcons
    simp only [List.length_append, List.length_cons, List.length_nil] at hcount
    omega
  have hnames := names_path first hothers (c := ']')
    ⟨by decide, by decide, by decide⟩ ('\n' :: rest)
  simp only [← hcons, List.dropLast_concat, List.getLast_concat] at hnames
  have hheader : header 1 (quoteName first ++ (pathTail others ++ ']' :: '\n' :: rest)) =
      some ((path, s), rest) := by
    have hend : endLine ('\n' :: rest) = some rest := rfl
    simp [header, hnames, hend]
  rw [Value.headerLine, hcons, intercalate_quoteName]
  simp only [List.cons_append, List.append_assoc, List.nil_append]
  obtain ⟨c, tail, hquote, hbracket, -⟩ := quoteName_starts first
  unfold statement
  split
  · rename_i heq
    rw [hquote] at heq
    exact absurd (List.cons.inj (List.cons.inj heq).2).1 hbracket
  · rename_i heq
    obtain ⟨-, rfl⟩ := List.cons.inj heq
    rw [hheader]
    rfl
  · rename_i hother
    exact absurd rfl (hother _)

/-! ## Texts of several lines -/

/-- `cs` is read as these statements. -/
def IsText (cs : List Char) (read : List Statement) : Prop :=
  ∀ fuel, cs.length < fuel → statements fuel cs = some read

/-- `cs` is read as these statements, and what stands behind it is read by itself. -/
structure Lines (cs : List Char) (read : List Statement) : Prop where
  isText_append : ∀ behind tail, IsText behind tail → IsText (cs ++ behind) (read ++ tail)
  /-- No byte order mark is dropped. -/
  unmarked : cs.head? ≠ some '\ufeff'

theorem isText_nil : IsText [] [] := by
  intro fuel hfuel
  obtain ⟨fuel, rfl⟩ : ∃ n, fuel = n + 1 := ⟨fuel - 1, by simp at hfuel; omega⟩
  rfl

theorem Lines.isText {cs : List Char} {read : List Statement} (h : Lines cs read) :
    IsText cs read := by
  have hall := h.isText_append [] [] isText_nil
  rwa [List.append_nil, List.append_nil] at hall

theorem Lines.nil : Lines [] [] where
  isText_append := fun _ _ h => h
  unmarked := by simp

theorem Lines.append {cs more : List Char} {read others : List Statement} (h : Lines cs read)
    (hmore : Lines more others) : Lines (cs ++ more) (read ++ others) where
  isText_append := by
    intro behind tail hbehind
    rw [List.append_assoc, List.append_assoc]
    exact h.isText_append _ _ (hmore.isText_append _ _ hbehind)
  unmarked := by
    have hfirst := h.unmarked
    cases cs with
    | nil => exact hmore.unmarked
    | cons c cs => exact hfirst

/-- An empty line is read as nothing. -/
theorem Lines.blank : Lines ['\n'] [] where
  isText_append := by
    intro behind tail hbehind fuel hfuel
    obtain ⟨fuel, rfl⟩ : ∃ n, fuel = n + 1 := ⟨fuel - 1, by omega⟩
    exact hbehind fuel (by simpa using hfuel)
  unmarked := by decide

/-- A line that is read as a statement, whatever stands behind it. -/
theorem Lines.single {first : Char} {cs : List Char} {read : Statement}
    (hfirst : StartsLine first)
    (hread : ∀ behind, statement (first :: cs ++ behind) = some (read, behind)) :
    Lines (first :: cs) [read] where
  isText_append := by
    intro behind tail hbehind fuel hfuel
    obtain ⟨fuel, rfl⟩ : ∃ n, fuel = n + 1 := ⟨fuel - 1, by omega⟩
    have hrest := hbehind fuel (by simp at hfuel; omega)
    have hstatement := hread behind
    rw [List.cons_append] at hstatement ⊢
    simp only [statements, skipSpaces_cons _ hfirst.not_space, List.head?_cons,
      Option.some.injEq, hfirst.ne_comment, if_false,
      lineBreak_eq_none _ hfirst.ne_newline hfirst.ne_return, hstatement]
    simp [hrest]
  unmarked := by simpa using hfirst.ne_mark

/-! ## The lines of tables -/

/-- The line of an entry. -/
theorem lines_entry (s : String) {v : Value} (h : Legible v) :
    Lines (quoteName s ++ [' ', '=', ' '] ++ v.inline ++ ['\n']) [.entry [] s v] := by
  obtain ⟨first, cs, hcons, -, hfirst⟩ := quoteName_starts s
  have hread := statement_entry s h
  rw [hcons] at hread ⊢
  exact Lines.single hfirst hread

/-- The line of a header. -/
theorem lines_header {path : List String} {s : String} (hlength : path.length < depthLimit) :
    Lines (Value.headerLine (path ++ [s])) [.table path s] := by
  have hread := statement_header (s := s) hlength
  rw [Value.headerLine, List.cons_append] at hread ⊢
  exact Lines.single ⟨by decide, by decide, by decide, by decide, by decide⟩ hread

/-- Those entries of a table that are no tables. -/
def plainEntries (entries : List (String × Value)) : List (String × Value) :=
  entries.filter fun entry => !entry.2.isTable

/-- The lines of those entries of a table that are no tables. -/
theorem lines_plainLines {entries : List (String × Value)}
    (h : ∀ e ∈ plainEntries entries, Legible e.2) :
    Lines (Value.plainLines entries)
      ((plainEntries entries).map fun entry => .entry [] entry.1 entry.2) := by
  induction entries with
  | nil => exact Lines.nil
  | cons e entries ih =>
      obtain ⟨s, v⟩ := e
      rw [Value.plainLines, List.flatMap_cons]
      cases htable : v.isTable with
      | true =>
          have hcons : plainEntries ((s, v) :: entries) = plainEntries entries := by
            simp [plainEntries, htable]
          rw [hcons] at h ⊢
          simp only [htable, if_true]
          exact ih h
      | false =>
          have hcons : plainEntries ((s, v) :: entries) = (s, v) :: plainEntries entries := by
            simp [plainEntries, htable]
          rw [hcons] at h ⊢
          obtain ⟨hfirst, hentries⟩ := List.forall_mem_cons.1 h
          simp only [htable, Bool.false_eq_true, if_false, List.map_cons]
          exact (lines_entry s hfirst).append (ih hentries)

end Toml
end RunnerFleet
