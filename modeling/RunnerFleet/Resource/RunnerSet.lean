import RunnerFleet.Resource.Metadata

/-!
# Runner sets

A runner set asks for a number of runners made from one template. Every scaling decision that
changes the number bears a patch id.

Numbers of runners are kept in 32 bits and patch ids in 64 bits with a sign.  Numbers from outside
are read within these limits (`RunnerSetSpec.reader`, `RunnerSetStatus.reader`), and scaling
decisions keep to them (`Scaling.Bounds.target`).  Counts of stored runners are taken to be below
the limit, as their lists have to fit into memory.
-/

namespace RunnerFleet

/-- What a runner is made from. -/
structure RunnerTemplate where
  image : String
  labels : KeyMap String := .empty
  env : KeyMap String := .empty
deriving DecidableEq

/-- What is asked of a runner set. -/
structure RunnerSetSpec where
  /-- How many runners there shall be. -/
  replicas : Nat
  /-- Which scaling decision asked for that number. -/
  patchId : Int := 0
  template : RunnerTemplate
deriving DecidableEq

/-- How many runners of each state were counted. -/
structure RunnerSetStatus where
  /-- Pending, running and failed runners together. -/
  current : Nat := 0
  pending : Nat := 0
  running : Nat := 0
  failed : Nat := 0
deriving DecidableEq

/-- A group of runners that is scaled as a whole. -/
structure RunnerSet where
  metadata : Metadata
  spec : RunnerSetSpec
  status : RunnerSetStatus := {}
deriving DecidableEq

namespace RunnerSet

/-- The kind by which runners refer to the set that owns them. -/
def kind : String := "RunnerSet"

/-- The finalizer that a runner set holds while it may own runners. -/
def finalizer : String := "actions.github.com/runnerset-finalizer"

/-- A runner set that asks for no runners yet. -/
def create (namespaceName name : String) (template : RunnerTemplate) : RunnerSet where
  metadata := { name, namespaceName }
  spec := { replicas := 0, template }

/-- The key of the set. -/
def key (s : RunnerSet) : String :=
  s.metadata.key

/-- How the runners of the set refer to it. -/
def ownerReference (s : RunnerSet) : OwnerReference where
  kind := kind
  name := s.metadata.name
  uid := s.metadata.uid

/-- Whether the set holds the finalizer for its runners. -/
def hasFinalizer (s : RunnerSet) : Bool :=
  s.metadata.hasFinalizer finalizer

end RunnerSet
end RunnerFleet
