import RunnerFleet.Actions.Endpoint
import RunnerFleet.CommandLine.Help
import RunnerFleet.Config.Wire
import RunnerFleet.Store.Error
import RunnerFleet.Store.Operation

/-!
# Starting up

The program reads its configuration, makes its data folder, opens its store there and chooses the
Actions service, in this order. The first step that fails ends it with one error, and perhaps the
cause of it. All that the program sees of its surroundings comes from a host.

Main results:

- `checkConfig_code`: checking a configuration succeeds exactly if it loads.
-/

namespace RunnerFleet
namespace CommandLine

/-! ## Surroundings -/

/-- Why a file or a folder is not there as it should be. -/
inductive FileFault where
  | missing
  | inTheWay
  | noFolder
  | isFolder
  | notText
deriving DecidableEq, Repr

/-- The text of a fault. -/
def FileFault.message : FileFault → String
  | missing => "No such file or directory (os error 2)"
  | inTheWay => "File exists (os error 17)"
  | noFolder => "Not a directory (os error 20)"
  | isFolder => "Is a directory (os error 21)"
  | notText => "stream did not contain valid UTF-8"

/-- What the program can do with its surroundings. -/
structure Host (m : Type → Type) where
  readFile : String → m (Except FileFault String)
  /-- Make a folder, unless it is there, and the folders around it. -/
  makeFolder : String → m (Except FileFault Unit)
  /-- Open the store in a folder. -/
  openStore : String → m (Except Store.Error Store)
  /-- The value of a variable of the environment. -/
  lookUp : String → m (Option String)

/-! ## Endings -/

/-- How the program ends. -/
structure Exit where
  code : Nat
  output : String := ""
  errors : String := ""
deriving DecidableEq, Repr

namespace Exit

/-- End with a text on the output. -/
def success (output : String) : Exit where
  code := 0
  output := output

/-- End with an error, and with what caused it. -/
def failure (error : String) (cause : Option String) : Exit where
  code := 1
  errors :=
    "Error: " ++ error ++ "\n" ++
      match cause with
      | some cause => "\nCaused by:\n    " ++ cause ++ "\n"
      | none => ""

/-- The end of a program that was called for nothing it does. -/
def ofStop : Stop → Exit
  | .help topic => success (help topic)
  | .misuse => { code := 2, errors := help none }

end Exit

/-! ## Configurations -/

variable {m : Type → Type} [Monad m]

/-- The text of what keeps a configuration from being loaded. -/
def loadErrorMessage : Config.LoadError → String
  | .unreadable => "TOML parse error"
  | .invalid problem => problem.message

/-- Load the configuration in a file; an error is given by its text. -/
def loadConfig (host : Host m) (path : String) : m (Except String Config) := do
  match ← host.readFile path with
  | .error fault => return .error fault.message
  | .ok text =>
      match Config.load text with
      | .error e => return .error (loadErrorMessage e)
      | .ok config => return .ok config

/-- One line about a configuration. -/
def summary (path : String) (c : Config) : String :=
  let max :=
    match c.group.maxRunners with
    | some n => toString n
    | none => "unbounded"
  path ++ ": runner set " ++ c.group.namespaceName ++ "/" ++ c.group.name ++
    " (min " ++ toString c.group.minRunners ++ ", max " ++ max ++
    ", scale-up factor " ++ c.group.factor.text ++ ")\n"

/-- Check the configuration in a file. -/
def checkConfig (host : Host m) (path : String) : m Exit := do
  match ← loadConfig host path with
  | .ok config => return .success (summary path config)
  | .error cause => return .failure ("invalid configuration " ++ path) (some cause)

/-! ## Daemons -/

/-- What a daemon starts from. -/
structure Startup where
  config : Config
  store : Store
  endpoint : Actions.Endpoint

/-- Get ready to run a daemon. -/
def startUp (host : Host m) (configPath dataFolder : String) : m (Except Exit Startup) := do
  match ← loadConfig host configPath with
  | .error cause => return .error (.failure ("failed to load " ++ configPath) (some cause))
  | .ok config =>
      match ← host.makeFolder dataFolder with
      | .error fault => return .error (.failure fault.message none)
      | .ok () =>
          match ← host.openStore dataFolder with
          | .error e => return .error (.failure e.message none)
          | .ok store =>
              match ← Actions.Endpoint.ofConfig host.lookUp config with
              | .error e =>
                  return .error (.failure e.message (some Actions.MissingVariable.cause))
              | .ok endpoint => return .ok ⟨config, store, endpoint⟩

/-- The check exits with zero exactly when the configuration loads. -/
theorem checkConfig_code {host : Host Id} {path : String} :
    (checkConfig host path).run.code = 0 ↔ ∃ c, (loadConfig host path).run = .ok c := by
  unfold checkConfig
  cases h : (loadConfig host path).run with
  | ok c =>
      have h : loadConfig host path = .ok c := h
      simp [h, bind, pure, Exit.success, Id.run]
  | error cause =>
      have h : loadConfig host path = .error cause := h
      simp [h, bind, pure, Exit.failure, Id.run]

end CommandLine
end RunnerFleet
