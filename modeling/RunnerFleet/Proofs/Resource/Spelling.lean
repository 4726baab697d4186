import RunnerFleet.Proofs.Document.Spelling
import RunnerFleet.Proofs.Timestamp.Text
import RunnerFleet.Scaling.Decision
import RunnerFleet.Store.Event

/-!
# Resources that were written

Everything that is stored or sent is read back from its text.  The numbers of a resource are kept in
words of a fixed size; a resource whose numbers fit into these words is written completely, whatever
its names, labels and times are.

Main results:

- `Metadata.spells`, `RunnerSet.spells`, `Runner.spells`: resources are read back from what is
  written for them.
- `JobBatch.spells`, `ScalePatch.spells`, `WatchEvent.spells`: so are reports, decisions and events.
-/

namespace RunnerFleet

open Document

/-! ## Numbers of a fixed size -/

/-- The number fits into a signed word of 64 bits. -/
def IsInt64 (n : Int) : Prop :=
  -2 ^ 63 ≤ n ∧ n < 2 ^ 63

instance (n : Int) : Decidable (IsInt64 n) :=
  inferInstanceAs (Decidable (_ ∧ _))

/-- The number fits into a word of 32 bits. -/
def IsWord32 (n : Nat) : Prop :=
  n < 2 ^ 32

instance (n : Nat) : Decidable (IsWord32 n) :=
  inferInstanceAs (Decidable (n < 2 ^ 32))

theorem spells_natural32 {n : Nat} (h : IsWord32 n) : Spells Reader.natural32 (.integer n) n :=
  spells_natural h (by decide)

/-- The version of a resource fits into a word of 64 bits. -/
def Metadata.Fits (m : Metadata) : Prop :=
  m.resourceVersion < 2 ^ 64

instance (m : Metadata) : Decidable m.Fits :=
  inferInstanceAs (Decidable (m.resourceVersion < 2 ^ 64))

/-- The numbers that are asked for fit into their words. -/
structure RunnerSetSpec.Fits (s : RunnerSetSpec) : Prop where
  replicas : IsWord32 s.replicas
  patchId : IsInt64 s.patchId

/-- The counts fit into words of 32 bits. -/
structure RunnerSetStatus.Fits (s : RunnerSetStatus) : Prop where
  current : IsWord32 s.current
  pending : IsWord32 s.pending
  running : IsWord32 s.running
  failed : IsWord32 s.failed

/-- All numbers of a runner set fit into their words. -/
structure RunnerSet.Fits (s : RunnerSet) : Prop where
  metadata : s.metadata.Fits
  spec : s.spec.Fits
  status : s.status.Fits

/-- The numbers that are known of a runner fit into their words. -/
structure RunnerStatus.Fits (s : RunnerStatus) : Prop where
  runnerId : IsInt64 s.runnerId
  jobRequestId : IsInt64 s.jobRequestId

/-- All numbers of a runner fit into their words. -/
structure Runner.Fits (r : Runner) : Prop where
  metadata : r.metadata.Fits
  status : r.status.Fits

/-- The counts of jobs fit into words of 32 bits. -/
structure JobBatch.Fits (b : JobBatch) : Prop where
  acquired : IsWord32 b.acquired
  completed : IsWord32 b.completed

/-- The numbers of a decision fit into their words. -/
structure ScalePatch.Fits (p : ScalePatch) : Prop where
  replicas : IsWord32 p.replicas
  patchId : IsInt64 p.patchId

/-! ## Shared parts -/

theorem Timestamp.spells (t : Timestamp) : Spells Timestamp.reader t.toJson t := by
  refine ⟨trivial, ?_⟩
  rw [Timestamp.toJson, Json.node, Timestamp.reader, ofText?_text]

/-- What may be missing is spelled by what spells it, or by `null`. -/
theorem spells_ofOption {α : Type} {reader : Reader α} {toJson : α → Json}
    (h : ∀ v, Spells reader (toJson v) v) (hnull : ∀ v, toJson v ≠ .null) (value : Option α) :
    Spells (Reader.optional reader) (.ofOption toJson value) value := by
  cases value with
  | none => exact spells_null reader
  | some v => exact (h v).optional (hnull v)

theorem KeyMap.spells (m : KeyMap String) : Spells KeyMap.textReader m.toJson m :=
  Spells.map fun e _ => spells_string e.2

/-! ## Metadata -/

theorem OwnerReference.spells (r : OwnerReference) : Spells OwnerReference.reader r.toJson r := by
  refine Fields.Gives.spells ?_ rfl
  exact Fields.Gives.build OwnerReference.mk
    |>.named (spells_string r.kind)
    |>.named (spells_string r.name)
    |>.named (spells_string r.uid)

theorem Metadata.spells {m : Metadata} (h : m.Fits) : Spells Metadata.reader m.toJson m := by
  have howner := spells_ofOption OwnerReference.spells (by simp [OwnerReference.toJson]) m.owner
  have htime := spells_ofOption Timestamp.spells (by simp [Timestamp.toJson])
  refine Fields.Gives.spells ?_ rfl
  exact Fields.Gives.build Metadata.mk
    |>.named (spells_string m.name)
    |>.named (spells_string m.namespaceName)
    |>.named (spells_string m.uid)
    |>.named m.labels.spells
    |>.named m.annotations.spells
    |>.named (Spells.list fun finalizer _ => spells_string finalizer)
    |>.named howner
    |>.named (htime m.creation)
    |>.named (htime m.deletion)
    |>.named (spells_natural h (by decide))

/-! ## Runner sets -/

theorem RunnerTemplate.spells (t : RunnerTemplate) : Spells RunnerTemplate.reader t.toJson t := by
  refine Fields.Gives.spells ?_ rfl
  exact Fields.Gives.build RunnerTemplate.mk
    |>.named (spells_string t.image)
    |>.named t.labels.spells
    |>.named t.env.spells

theorem RunnerSetSpec.spells {s : RunnerSetSpec} (h : s.Fits) :
    Spells RunnerSetSpec.reader s.toJson s := by
  refine Fields.Gives.spells ?_ rfl
  exact Fields.Gives.build RunnerSetSpec.mk
    |>.named (spells_natural32 h.replicas)
    |>.named (spells_integer64 h.patchId)
    |>.named s.template.spells

theorem RunnerSetStatus.spells {s : RunnerSetStatus} (h : s.Fits) :
    Spells RunnerSetStatus.reader s.toJson s := by
  refine Fields.Gives.spells ?_ rfl
  exact Fields.Gives.build RunnerSetStatus.mk
    |>.named (spells_natural32 h.current)
    |>.named (spells_natural32 h.pending)
    |>.named (spells_natural32 h.running)
    |>.named (spells_natural32 h.failed)

theorem RunnerSet.spells {s : RunnerSet} (h : s.Fits) : Spells RunnerSet.reader s.toJson s := by
  refine Fields.Gives.spells ?_ rfl
  exact Fields.Gives.build RunnerSet.mk
    |>.named (Metadata.spells h.metadata)
    |>.named (RunnerSetSpec.spells h.spec)
    |>.named (RunnerSetStatus.spells h.status)

/-! ## Runners -/

/-- A message that is not there is left out, and read back as missing. -/
theorem RunnerStatus.spells {s : RunnerStatus} (h : s.Fits) :
    Spells RunnerStatus.reader s.toJson s := by
  obtain ⟨phase, runnerId, jobRequestId, message⟩ := s
  have hphase : Spells RunnerPhase.reader (.string phase.label) phase :=
    spells_name (RunnerPhase.find_label phase)
  cases message with
  | none =>
      refine Fields.Gives.spells ?_ rfl
      exact Fields.Gives.build RunnerStatus.mk
        |>.named hphase
        |>.named (spells_integer64 h.runnerId)
        |>.named (spells_integer64 h.jobRequestId)
        |>.unnamed rfl
  | some message =>
      refine Fields.Gives.spells ?_ rfl
      exact Fields.Gives.build RunnerStatus.mk
        |>.named hphase
        |>.named (spells_integer64 h.runnerId)
        |>.named (spells_integer64 h.jobRequestId)
        |>.named ((spells_string message).optional (by simp))

theorem Runner.spells {r : Runner} (h : r.Fits) : Spells Runner.reader r.toJson r := by
  have hspec : Spells Runner.specReader (.object [("template", r.template.toJson)]) r.template :=
    Fields.Gives.spells ((Fields.Gives.build id).named r.template.spells) rfl
  refine Fields.Gives.spells ?_ rfl
  exact Fields.Gives.build Runner.mk
    |>.named (Metadata.spells h.metadata)
    |>.named hspec
    |>.named (RunnerStatus.spells h.status)

/-! ## Reports, decisions and events -/

theorem JobBatch.spells {b : JobBatch} (h : b.Fits) : Spells JobBatch.reader b.toJson b := by
  refine Fields.Gives.spells ?_ rfl
  exact Fields.Gives.build JobBatch.mk
    |>.named (spells_natural32 h.acquired)
    |>.named (spells_natural32 h.completed)

theorem ScalePatch.spells {p : ScalePatch} (h : p.Fits) : Spells ScalePatch.reader p.toJson p := by
  refine Fields.Gives.spells ?_ rfl
  exact Fields.Gives.build ScalePatch.mk
    |>.named (spells_natural32 h.replicas)
    |>.named (spells_integer64 h.patchId)

theorem ResourceKind.spells (kind : ResourceKind) :
    Spells ResourceKind.reader (.string kind.label) kind := by
  refine spells_name ?_
  cases kind <;> decide

theorem WatchAction.spells (action : WatchAction) :
    Spells WatchAction.reader (.string action.label) action := by
  refine spells_name ?_
  cases action <;> decide

theorem WatchEvent.spells (e : WatchEvent) : Spells WatchEvent.reader e.toJson e := by
  have howner := spells_ofOption spells_string (by simp) e.owner
  refine Fields.Gives.spells ?_ rfl
  exact Fields.Gives.build WatchEvent.mk
    |>.named e.kind.spells
    |>.named e.action.spells
    |>.named (spells_string e.key)
    |>.named howner

end RunnerFleet
