import RunnerFleet.Store.Table

/-!
# The store and its operations

The store holds runner sets under their keys, and runners under the key of their owner followed by
their name. An operation answers or fails, may change one object, and then announces the write.

The database under the store may fail as well: a transaction cannot begin or be committed, a table
cannot be opened, a text cannot be read or written.  Then an operation fails with an error of its
kind before it has changed or announced anything.  These exits are no part of `perform`; they are
the faults that the calls of a pass and the writes of a listener may meet (`Reconcile.Call.failWith`,
`Reconcile.FaultPlan`).

Main results:

- `perform_of_isRead`: an operation that only looks changes nothing and announces nothing.
-/

namespace RunnerFleet

/-- Everything that is stored. -/
structure Store where
  sets : KeyMap RunnerSet := .empty
  runners : KeyMap Runner := .empty
deriving DecidableEq

namespace Store

instance : Inhabited Store := ⟨{}⟩

/-- The key of a runner in its table. -/
def runnerKey (ownerKey name : String) : String :=
  ownerKey ++ ":" ++ name

/-- What may be asked of the store. -/
inductive Operation where
  | createSet (set : RunnerSet)
  | getSet (key : String)
  | listSets
  /-- Write a scaling decision to a set. -/
  | patchSpec (key : String) (replicas : Nat) (patchId : Int)
  | updateSetStatus (key : String) (status : RunnerSetStatus)
  | setSetFinalizers (key : String) (finalizers : List String)
  | deleteSet (key : String)
  | createRunner (runner : Runner)
  | getRunner (ownerKey name : String)
  | listRunners (ownerKey : String)
  | updateRunnerStatus (ownerKey name : String) (status : RunnerStatus)
  | setRunnerFinalizers (ownerKey name : String) (finalizers : List String)
  | deleteRunner (ownerKey name : String)

/--
What an operation answers. An operation that may remove an object answers `none` if it did so; one
that looks up an object answers `none` if there is none.
-/
abbrev Operation.Answer : Operation → Type
  | createSet _ => RunnerSet
  | getSet _ => Option RunnerSet
  | listSets => List RunnerSet
  | patchSpec _ _ _ => RunnerSet
  | updateSetStatus _ _ => RunnerSet
  | setSetFinalizers _ _ => Option RunnerSet
  | deleteSet _ => Option RunnerSet
  | createRunner _ => Runner
  | getRunner _ _ => Option Runner
  | listRunners _ => List Runner
  | updateRunnerStatus _ _ _ => Runner
  | setRunnerFinalizers _ _ _ => Option Runner
  | deleteRunner _ _ => Option Runner

/-- The outcome of an operation: its result, the store after it, and the events it announced. -/
structure Outcome (α : Type) where
  result : Except Error α
  store : Store
  events : List WatchEvent

/-! ## Operations on each table -/

/-- A change of the runner sets as the outcome of an operation. -/
def settleSets {β : Type} (s : Store) : Except Error (Change RunnerSet β) → Outcome β
  | .ok change => ⟨.ok change.answer, { s with sets := change.table }, change.event.toList⟩
  | .error e => ⟨.error e, s, []⟩

/-- A change of the runners as the outcome of an operation. -/
def settleRunners {β : Type} (s : Store) : Except Error (Change Runner β) → Outcome β
  | .ok change => ⟨.ok change.answer, { s with runners := change.table }, change.event.toList⟩
  | .error e => ⟨.error e, s, []⟩

/-- For an operation that answers with the object, its removal counts as its absence. -/
def Outcome.present {β : Type} (key : String) (o : Outcome (Option β)) : Outcome β where
  result :=
    match o.result with
    | .ok (some answer) => .ok answer
    | .ok none => .error (.notFound key)
    | .error e => .error e
  store := o.store
  events := o.events

/-- The answer of an operation that only looks. -/
def answer {β : Type} (s : Store) (answer : β) : Outcome β :=
  ⟨.ok answer, s, []⟩

/-- The runner set under `key`. -/
def getSet (s : Store) (key : String) : Option RunnerSet :=
  s.sets.get? key

/-- Whether a key of the table of runners starts like those of this owner. -/
def keyBelongsTo (ownerKey key : String) : Bool :=
  (runnerKey ownerKey "").toList.isPrefixOf key.toList

/-- The runners that the runner set with this key owns, in the order of their keys. -/
def runnersOf (s : Store) (ownerKey : String) : List Runner :=
  (s.runners.entries.filter fun entry => keyBelongsTo ownerKey entry.1).map Prod.snd
    |>.filter fun runner => runner.ownerKey = some ownerKey

/-- Store a runner under its owner and its name. -/
def createRunner (s : Store) (runner : Runner) (stamp : Stamp) : Outcome Runner :=
  match runner.ownerKey with
  | some owner => s.settleRunners (insertNew s.runners (runnerKey owner runner.name) runner stamp)
  | none => ⟨.error (.noOwner runner.name), s, []⟩

/-! ## All operations -/

/-- Carry out an operation. -/
def perform (s : Store) (stamp : Stamp) : (op : Operation) → Outcome op.Answer
  | .createSet set => s.settleSets (insertNew s.sets set.key set stamp)
  | .getSet key => s.answer (s.getSet key)
  | .listSets => s.answer s.sets.values
  | .patchSpec key replicas patchId =>
      Outcome.present key <| s.settleSets <| modify s.sets key fun set =>
        { set with spec := { set.spec with replicas, patchId } }
  | .updateSetStatus key status =>
      Outcome.present key <| s.settleSets <| modify s.sets key fun set => { set with status }
  | .setSetFinalizers key finalizers =>
      s.settleSets <| modify s.sets key fun set =>
        { set with metadata := { set.metadata with finalizers } }
  | .deleteSet key => s.settleSets (remove s.sets key stamp.now)
  | .createRunner runner => s.createRunner runner stamp
  | .getRunner owner name => s.answer (s.runners.get? (runnerKey owner name))
  | .listRunners owner => s.answer (s.runnersOf owner)
  | .updateRunnerStatus owner name status =>
      Outcome.present (runnerKey owner name) <| s.settleRunners <|
        modify s.runners (runnerKey owner name) fun runner => { runner with status }
  | .setRunnerFinalizers owner name finalizers =>
      s.settleRunners <| modify s.runners (runnerKey owner name) fun runner =>
        { runner with metadata := { runner.metadata with finalizers } }
  | .deleteRunner owner name => s.settleRunners (remove s.runners (runnerKey owner name) stamp.now)

/-- Whether an operation only looks. -/
def Operation.isRead : Operation → Bool
  | getSet _ => true
  | listSets => true
  | getRunner _ _ => true
  | listRunners _ => true
  | _ => false

/-- Reads leave the store as it is and announce nothing. -/
theorem perform_of_isRead {s : Store} {stamp : Stamp} {op : Operation} (h : op.isRead = true) :
    (s.perform stamp op).store = s ∧ (s.perform stamp op).events = [] := by
  cases op <;> first | exact ⟨rfl, rfl⟩ | exact absurd h (by simp [Operation.isRead])

end Store
end RunnerFleet
