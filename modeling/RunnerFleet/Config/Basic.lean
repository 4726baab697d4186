import RunnerFleet.Controller.Backoff
import RunnerFleet.Resource.RunnerSet
import RunnerFleet.Scaling.Decision
import RunnerFleet.Text.Quoted

/-!
# Configurations

A configuration describes the runner set of one daemon: its name and its bounds, what its runners
are made from, how the controller runs its passes, and where the Actions service is. A valid
configuration has names that can be parts of keys, bounds in order, and numbers that make sense.

Main results:

- `validate_scaffold`: a scaffold with valid names is valid.
-/

namespace RunnerFleet

namespace Config

/-- The runner set and its bounds. -/
structure Group where
  name : String
  namespaceName : String
  minRunners : Nat := 0
  /-- There is no upper bound if this is left out. -/
  maxRunners : Option Nat := none
  factor : Binary64 := Binary64.one
deriving DecidableEq

/-- The image that runners are made from if none is named. -/
def defaultImage : String := "ghcr.io/actions/actions-runner:latest"

/-- What runners are made from. -/
structure Template where
  image : String := defaultImage
  labels : KeyMap String := .empty
  env : KeyMap String := .empty
deriving DecidableEq

/-- How the controller runs its passes; times are in milliseconds. -/
structure Passes where
  maxConcurrent : Nat := 2
  requeueBase : Nat := 500
  requeueMax : Nat := 60000
deriving DecidableEq

/-- The variable of the environment that holds the token if none is named. -/
def defaultTokenVariable : String := "GITHUB_TOKEN"

/-- Where the Actions service is, and which variable of the environment holds its token. -/
structure Service where
  baseUrl : String
  tokenVariable : String := defaultTokenVariable
deriving DecidableEq

/-- What may be wrong with a configuration. -/
inductive Problem where
  | empty (field : String)
  | invalidName (field value : String)
  | minAboveMax (min max : Nat)
  | factorBelowOne (factor : Binary64)
  | noConcurrency
  | baseAboveMax (base max : Nat)
deriving DecidableEq

/-- The text of a problem. -/
def Problem.message : Problem → String
  | empty field => "scale_set." ++ field ++ " must not be empty"
  | invalidName field value =>
      "scale_set." ++ field ++ " " ++ Text.quoted value ++ " must not contain '/' or ':'"
  | minAboveMax min max =>
      "min_runners (" ++ toString min ++ ") exceeds max_runners (" ++ toString max ++ ")"
  | factorBelowOne factor => "scale_up_factor must be >= 1.0, got " ++ factor.text
  | noConcurrency => "controller.max_concurrent_reconciles must be at least 1"
  | baseAboveMax base max =>
      "controller.requeue_base_ms (" ++ toString base ++ ") exceeds requeue_max_ms (" ++
        toString max ++ ")"

end Config

/-- A configuration. -/
structure Config where
  group : Config.Group
  template : Config.Template := {}
  passes : Config.Passes := {}
  service : Option Config.Service := none
deriving DecidableEq

namespace Config

/-- The upper bound, which is the largest number there is if none is named. -/
def maxRunners (c : Config) : Nat :=
  c.group.maxRunners.getD Scaling.countLimit

/-- The first problem of these that there is. -/
def firstProblem : List (Bool × Problem) → Except Problem Unit
  | [] => .ok ()
  | (true, problem) :: _ => .error problem
  | (false, _) :: rest => firstProblem rest

/-- Check a configuration; the first problem is reported. -/
def validate (c : Config) : Except Problem Unit :=
  let s := c.group
  let p := c.passes
  firstProblem
    [(Text.isBlankText s.name, .empty "name"),
      (Text.isBlankText s.namespaceName, .empty "namespace"),
      (!isValidName s.name, .invalidName "name" s.name),
      (!isValidName s.namespaceName, .invalidName "namespace" s.namespaceName),
      (decide (c.maxRunners < s.minRunners), .minAboveMax s.minRunners c.maxRunners),
      (!Binary64.le Binary64.one s.factor, .factorBelowOne s.factor),
      (p.maxConcurrent == 0, .noConcurrency),
      (decide (p.requeueMax < p.requeueBase), .baseAboveMax p.requeueBase p.requeueMax)]

/-- The bounds of the runner set. -/
def bounds (c : Config) : Scaling.Bounds where
  min := c.group.minRunners
  max := c.maxRunners
  factor := c.group.factor

/-- How the controller runs its passes: at least one at a time. -/
def settings (c : Config) : Controller.Settings where
  maxConcurrent := Nat.max c.passes.maxConcurrent 1
  requeueBase := .ofMillis c.passes.requeueBase
  requeueMax := .ofMillis c.passes.requeueMax

/-- The runner set that the configuration describes. -/
def runnerSet (c : Config) : RunnerSet :=
  RunnerSet.create c.group.namespaceName c.group.name
    { image := c.template.image, labels := c.template.labels, env := c.template.env }

/-- A configuration to start from. -/
def scaffold (namespaceName name : String) : Config where
  group := { name, namespaceName, maxRunners := some 10 }

/-- A valid name is never blank. -/
theorem isBlankText_of_isValidName {name : String} (h : isValidName name = true) :
    Text.isBlankText name = false := by
  simp only [isValidName, Bool.and_eq_true, Bool.not_eq_true'] at h
  exact h.1

/-- The configuration written for a newcomer is valid whenever its two names are. -/
theorem validate_scaffold {namespaceName name : String} (hs : isValidName namespaceName = true)
    (hn : isValidName name = true) : (scaffold namespaceName name).validate = .ok () := by
  simp only [validate, scaffold, isBlankText_of_isValidName hs, isBlankText_of_isValidName hn,
    hs, hn, firstProblem, Bool.not_true]
  rfl

end Config
end RunnerFleet
