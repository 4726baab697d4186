import RunnerFleet.Scaling.Decision

/-!
# Listeners

A listener turns reports about jobs into decisions, one after the other, and writes each of them to
its runner set. It does not write a decision again that it wrote last, and goes on after a write
that failed.

Main results:

- `process_of_applied`: a decision equal to the last one written is not written again.
- `process_run`: what comes of a report, by what comes of the write.
-/

namespace RunnerFleet
namespace Scaling

/-- A listener between two reports. -/
structure Listener where
  bounds : Bounds
  /-- The last decision. -/
  decision : Option ScalePatch := none
  /-- The last decision that was written. -/
  applied : Option ScalePatch := none

namespace Listener

/-- The decision that a report leads to. -/
def decisionFor (l : Listener) (batch : JobBatch) : ScalePatch :=
  next l.bounds l.decision batch

variable {m : Type → Type} [Monad m] {ε : Type}

/-- Take a report: decide, and write the decision unless it is the last one written. -/
def process (write : ScalePatch → m (Except ε Unit)) (l : Listener) (batch : JobBatch) :
    m (Except ε ScalePatch × Listener) := do
  let patch := l.decisionFor batch
  let l := { l with decision := some patch }
  if l.applied = some patch then
    return (.ok patch, l)
  else
    match ← write patch with
    | .ok () => return (.ok patch, { l with applied := some patch })
    | .error e => return (.error e, l)

/-- A decision equal to the last one applied is not written again. -/
theorem process_of_applied (write : ScalePatch → m (Except ε Unit)) {l : Listener}
    {batch : JobBatch} (h : l.applied = some (l.decisionFor batch)) :
    process write l batch =
      pure (.ok (l.decisionFor batch), { l with decision := some (l.decisionFor batch) }) := by
  simp [process, h]

/-- A listener that takes a report in a state: what it answers, and what it leaves. -/
theorem process_run {σ : Type} (write : ScalePatch → StateM σ (Except ε Unit)) (l : Listener)
    (batch : JobBatch) (state : σ) :
    (process write l batch).run state =
      if l.applied = some (l.decisionFor batch) then
        ((.ok (l.decisionFor batch), { l with decision := some (l.decisionFor batch) }), state)
      else
        match (write (l.decisionFor batch)).run state with
        | (.ok (), after) =>
            ((.ok (l.decisionFor batch),
              { l with
                decision := some (l.decisionFor batch)
                applied := some (l.decisionFor batch) }), after)
        | (.error e, after) =>
            ((.error e, { l with decision := some (l.decisionFor batch) }), after) := by
  rw [process]
  split
  · rfl
  · rw [StateT.run_bind]
    rcases (write (l.decisionFor batch)).run state with ⟨⟨⟩ | ⟨⟩, after⟩ <;> rfl

/-- What a running listener is sent. -/
inductive Signal where
  | batch (batch : JobBatch)
  | shutdown

/--
Run a listener until it is shut down. The answer says for each report that was sent whether it was
accepted; those that come after the shutdown are not.
-/
def run (write : ScalePatch → m (Except ε Unit)) (l : Listener) : List Signal → m (List Bool)
  | [] => return []
  | .batch batch :: rest => do
      let (_, l) ← process write l batch
      return true :: (← run write l rest)
  | .shutdown :: rest =>
      return rest.filterMap fun
        | .batch _ => some false
        | .shutdown => none

end Listener
end Scaling
end RunnerFleet
