import RunnerFleet.Proofs.Toml.Tables
import RunnerFleet.Proofs.Document.Records
import RunnerFleet.Proofs.Config.Validity
import RunnerFleet.Config.Wire

/-!
# Configurations that were written

A valid configuration whose numbers fit is written as a table that is read back from its text, and
that table is read as the configuration.  An upper bound and a service that are not there are left
out of the text, and stand for themselves when it is read.

Main results:

- `orderly_tableEntries`: the table of a valid configuration is read back from its text.
- `ofValue_toValue`: the table of a configuration is read as the configuration.
- `load_toToml`: a valid configuration survives its file.
-/

namespace RunnerFleet
namespace Toml

open Document (named)

theorem toMembers_eq_named (entries : List (String × Value)) :
    Value.toMembers entries = named (entries.map fun entry => (entry.1, entry.2.toNode)) := by
  induction entries with
  | nil => rfl
  | cons entry entries ih =>
      rw [Value.toMembers, ih]
      rfl

end Toml

namespace Config

open Document Toml

/-! ## What is written is read back -/

/-- A map is written as a table that is read back. -/
theorem orderly_map (m : KeyMap String) (depth : Nat) :
    Orderly depth (m.entries.map fun entry => (entry.1, .string entry.2)) := by
  refine .plain (fun entry hentry => ?_) ?_
  · obtain ⟨e, -, rfl⟩ := List.mem_map.1 hentry
    exact ⟨rfl, .string e.2⟩
  · rw [List.map_map]
    refine List.pairwise_map.2 (m.sorted.imp fun {a b} hlt heq => ?_)
    have hsame : a.1 = b.1 := heq
    exact String.lt_irrefl _ (hsame ▸ hlt)

/-- The table of a map has a header, also if nothing is in it. -/
theorem needsHeader_map (m : KeyMap String) :
    Value.needsHeader (m.entries.map fun entry => (entry.1, .string entry.2)) = true := by
  cases hentries : m.entries with
  | nil => rfl
  | cons e entries => simp [Value.needsHeader, Value.isTable]

/-- The factor of a valid configuration is read back. -/
theorem legible_factor {x : Binary64} (h : Binary64.le Binary64.one x = true) :
    Legible (.float x) := by
  cases x with
  | nan => contradiction
  | infinite negative =>
      cases negative with
      | false => exact .infinite
      | true => contradiction
  | finite negative rank =>
      have hone : ((1023 * 2 ^ 52 : Nat) : Int) ≤ Binary64.position negative rank :=
        of_decide_eq_true h
      cases negative with
      | false =>
          rw [Binary64.position, if_neg Bool.false_ne_true] at hone
          exact .finite (by omega)
      | true =>
          rw [Binary64.position, if_pos rfl] at hone
          omega

theorem Group.orderly {g : Group} (hmin : g.minRunners < 2 ^ 63)
    (hmax : ∀ n ∈ g.maxRunners, n < 2 ^ 63) (hfactor : Legible (.float g.factor)) :
    Orderly 1 g.tableEntries := by
  obtain ⟨name, namespaceName, minRunners, maxRunners, factor⟩ := g
  refine .plain ?_ ?_
  · cases maxRunners with
    | none => simp [tableEntries, Value.isTable, Legible.string, Legible.integer hmin, hfactor]
    | some n =>
        have hn := hmax n rfl
        simp [tableEntries, Value.isTable, Legible.string, Legible.integer hmin,
          Legible.integer hn, hfactor]
  · cases maxRunners <;> simp [tableEntries]

theorem Template.orderly (t : Template) : Orderly 1 t.tableEntries := by
  have himage : Orderly 1 [("image", .string t.image)] :=
    .plain (by simp [Value.isTable, Legible.string]) (by simp)
  exact (himage.table "labels" (by simp) (orderly_map t.labels 0)
    (needsHeader_map t.labels)).table "env" (by simp) (orderly_map t.env 0)
      (needsHeader_map t.env)

theorem Passes.orderly {p : Passes} (hconcurrent : p.maxConcurrent < 2 ^ 63)
    (hbase : p.requeueBase < 2 ^ 63) (hmax : p.requeueMax < 2 ^ 63) : Orderly 1 p.tableEntries := by
  refine .plain ?_ ?_
  · simp [tableEntries, Value.isTable, Legible.integer hconcurrent, Legible.integer hbase,
      Legible.integer hmax]
  · simp [tableEntries]

theorem Service.orderly (s : Service) : Orderly 1 s.tableEntries := by
  refine .plain ?_ ?_
  · simp [tableEntries, Value.isTable, Legible.string]
  · simp [tableEntries]

/-- The numbers of a configuration, one by one. -/
structure Fits (c : Config) : Prop where
  minRunners : c.group.minRunners < 2 ^ 63
  maxRunners : ∀ n ∈ c.group.maxRunners, n < 2 ^ 63
  maxConcurrent : c.passes.maxConcurrent < 2 ^ 63
  requeueBase : c.passes.requeueBase < 2 ^ 63
  requeueMax : c.passes.requeueMax < 2 ^ 63

theorem Fits.of_numbers {c : Config} (h : ∀ n ∈ c.numbers, n < 2 ^ 63) : c.Fits where
  minRunners := h _ (by simp [numbers])
  maxRunners := fun n hn => h n (by simp [numbers, Option.mem_def.1 hn])
  maxConcurrent := h _ (by simp [numbers])
  requeueBase := h _ (by simp [numbers])
  requeueMax := h _ (by simp [numbers])

/-- The table of a valid configuration is read back from its text. -/
theorem orderly_tableEntries {c : Config} (hvalid : c.Valid) (hfits : c.Fits) :
    Orderly 2 c.tableEntries := by
  have hgroup := Group.orderly hfits.minRunners hfits.maxRunners (legible_factor hvalid.factor)
  have hpasses := Passes.orderly hfits.maxConcurrent hfits.requeueBase hfits.requeueMax
  have hnone : Orderly 2 [] := .plain (by simp) (by simp)
  have hparts := ((hnone.table "scale_set" (by simp) hgroup rfl).table
    "runner" (by simp) c.template.orderly rfl).table
      "controller" (by simp) hpasses rfl
  rw [tableEntries]
  cases c.service with
  | none => exact hparts
  | some s => exact hparts.table "actions" (by simp) s.orderly rfl

/-! ## The table of a configuration is read as the configuration -/

theorem natural_toNode {n bound : Nat} (h : n < bound) :
    Reader.natural bound (Toml.Value.integer n).toNode = .ok n := by
  rw [Value.toNode, Reader.natural_ok_iff]
  exact ⟨rfl, h⟩

/-- A number that may be left out, and is not, is read back. -/
theorem optional_natural_toNode {n bound : Nat} (h : n < bound) :
    Reader.optional (Reader.natural bound) (Toml.Value.integer n).toNode = .ok (some n) := by
  have hread := natural_toNode h
  rw [Value.toNode] at hread ⊢
  rw [Reader.optional, hread]
  · rfl
  · simp

theorem toNode_table_eq_named (entries : List (String × Toml.Value)) :
    (Toml.Value.table entries).toNode =
      .object (named (entries.map fun entry => (entry.1, entry.2.toNode))) := by
  rw [Value.toNode_table, toMembers_eq_named]

theorem string_toNode (s : String) : Reader.string (Toml.Value.string s).toNode = .ok s := by
  rw [Value.toNode, Reader.string]

theorem float_toNode (x : Binary64) : Reader.float (Toml.Value.float x).toNode = .ok x := by
  rw [Value.toNode, Reader.float]

theorem Group.reader_tableEntries {g : Group} (hmin : g.minRunners < 2 ^ 32)
    (hmax : ∀ n ∈ g.maxRunners, n < 2 ^ 32) (spare : Bool) :
    Group.reader spare (Toml.Value.table g.tableEntries).toNode = .ok g := by
  obtain ⟨name, namespaceName, minRunners, maxRunners, factor⟩ := g
  rw [toNode_table_eq_named]
  refine Fields.Given.reader ?_ rfl
  cases maxRunners with
  | none =>
      exact Fields.Given.build Group.mk
        |>.named (string_toNode name)
        |>.named (string_toNode namespaceName)
        |>.named (natural_toNode hmin)
        |>.unnamed rfl
        |>.named (float_toNode factor)
  | some n =>
      exact Fields.Given.build Group.mk
        |>.named (string_toNode name)
        |>.named (string_toNode namespaceName)
        |>.named (natural_toNode hmin)
        |>.named (optional_natural_toNode (hmax n rfl))
        |>.named (float_toNode factor)

theorem map_toNode (m : KeyMap String) : KeyMap.textReader (mapValue m).toNode = .ok m := by
  rw [mapValue, toNode_table_eq_named, List.map_map]
  exact map_entries (fun value => (Toml.Value.string value).toNode)
    fun e _ => string_toNode e.2

theorem Template.reader_tableEntries (t : Template) (spare : Bool) :
    Template.reader spare (Toml.Value.table t.tableEntries).toNode = .ok t := by
  rw [toNode_table_eq_named]
  refine Fields.Given.reader ?_ rfl
  exact Fields.Given.build Template.mk
    |>.named (string_toNode t.image)
    |>.named (map_toNode t.labels)
    |>.named (map_toNode t.env)

theorem Passes.reader_tableEntries {p : Passes} (hconcurrent : p.maxConcurrent < 2 ^ 64)
    (hbase : p.requeueBase < 2 ^ 64) (hmax : p.requeueMax < 2 ^ 64) (spare : Bool) :
    Passes.reader spare (Toml.Value.table p.tableEntries).toNode = .ok p := by
  rw [toNode_table_eq_named]
  refine Fields.Given.reader ?_ rfl
  exact Fields.Given.build Passes.mk
    |>.named (natural_toNode hconcurrent)
    |>.named (natural_toNode hbase)
    |>.named (natural_toNode hmax)

theorem Service.reader_tableEntries (s : Service) (spare : Bool) :
    Service.reader spare (Toml.Value.table s.tableEntries).toNode = .ok s := by
  rw [toNode_table_eq_named]
  refine Fields.Given.reader ?_ rfl
  exact Fields.Given.build Service.mk
    |>.named (string_toNode s.baseUrl)
    |>.named (string_toNode s.tokenVariable)

/-- A table that may be left out, and is not, is read back. -/
theorem optional_toNode {α : Type} {reader : Reader α} {entries : List (String × Toml.Value)}
    {value : α} (h : reader (Toml.Value.table entries).toNode = .ok value) :
    Reader.optional reader (Toml.Value.table entries).toNode = .ok (some value) := by
  rw [Value.toNode_table] at h ⊢
  rw [Reader.optional, h]
  · rfl
  · simp

/-- The table of a configuration is read as the configuration. -/
theorem ofValue_toValue {c : Config} (hmin : c.group.minRunners < 2 ^ 32)
    (hmax : ∀ n ∈ c.group.maxRunners, n < 2 ^ 32) (hfits : c.Fits) :
    ofValue c.toValue = .ok c := by
  have hconcurrent := hfits.maxConcurrent
  have hbase := hfits.requeueBase
  have hrequeue := hfits.requeueMax
  have hgroup := Group.reader_tableEntries hmin hmax true
  have hpasses := Passes.reader_tableEntries (p := c.passes) (by omega) (by omega) (by omega) true
  rw [toValue, ofValue, toNode_table_eq_named]
  refine Fields.Given.reader ?_ rfl
  obtain ⟨group, template, passes, service⟩ := c
  cases service with
  | none =>
      exact Fields.Given.build Config.mk
        |>.named hgroup
        |>.named (template.reader_tableEntries true)
        |>.named hpasses
        |>.unnamed rfl
  | some s =>
      exact Fields.Given.build Config.mk
        |>.named hgroup
        |>.named (template.reader_tableEntries true)
        |>.named hpasses
        |>.named (optional_toNode (s.reader_tableEntries true))

/-! ## Files -/

/-- A valid configuration is read back from its text. -/
theorem ofToml_text {c : Config} (hvalid : c.Valid) (hmax : ∀ n ∈ c.group.maxRunners, n < 2 ^ 32)
    (hfits : c.Fits) : ofToml c.toValue.text = .ok c := by
  have hmin : c.group.minRunners < 2 ^ 32 := by
    have hbounds := hvalid.bounds
    unfold maxRunners at hbounds
    cases hupper : c.group.maxRunners with
    | none =>
        rw [hupper, Option.getD_none, Scaling.countLimit] at hbounds
        omega
    | some n =>
        have hn := hmax n hupper
        rw [hupper, Option.getD_some] at hbounds
        omega
  have hread : read c.toValue.text = some c.toValue :=
    read_text (orderly_tableEntries hvalid hfits) (show 2 ≤ depthLimit by decide)
  rw [ofToml, hread]
  exact ofValue_toValue hmin hmax hfits

/--
A valid configuration survives its file, if its upper bound has 32 bits and its numbers fit into
signed 64 bits: it can be written, and what is loaded from its text is the configuration itself.
-/
theorem load_toToml {c : Config} (hvalid : c.validate = .ok ())
    (hmax : ∀ n ∈ c.group.maxRunners, n < 2 ^ 32) (hfits : ∀ n ∈ c.numbers, n < 2 ^ 63) :
    ∃ text, c.toToml = some text ∧ load text = .ok c := by
  have hread := ofToml_text (validate_eq_ok_iff.1 hvalid) hmax (.of_numbers hfits)
  refine ⟨c.toValue.text, ?_, ?_⟩
  · rw [toToml, if_pos (by simpa using hfits)]
  · rw [load, hread]
    simp only [hvalid]

/-- A configuration with an unbounded factor, and with texts that need quotations of every style. -/
def manyStyles : Config where
  group := {
    name := "builders"
    namespaceName := "ci"
    minRunners := 3
    factor := .infinite false }
  template := {
    image := "C:\\images\\runner"
    labels := .ofList [("", "plain"), ("arch", "a\nb"), ("it's \"new\"", "say \"hi\"")]
    env := .ofList [("BELL", "\x07"), ("MARKS", "'''\n\"\"\"\\"),
      ("PATHS", "C:\\bin\nC:\\tools")] }
  service := some { baseUrl := "http://localhost:8080" }

theorem load_toToml_manyStyles :
    manyStyles.validate = .ok () ∧ (∀ n ∈ manyStyles.group.maxRunners, n < 2 ^ 32) ∧
      (∀ n ∈ manyStyles.numbers, n < 2 ^ 63) ∧
      ∃ text, manyStyles.toToml = some text ∧ load text = .ok manyStyles := by
  have hvalid : manyStyles.validate = .ok () := by decide
  have hmax : ∀ n ∈ manyStyles.group.maxRunners, n < 2 ^ 32 := by simp [manyStyles]
  have hfits : ∀ n ∈ manyStyles.numbers, n < 2 ^ 63 := by decide
  exact ⟨hvalid, hmax, hfits, load_toToml hvalid hmax hfits⟩

end Config
end RunnerFleet
