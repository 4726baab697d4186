import RunnerFleet.CommandLine.Folder
import RunnerFleet.CommandLine.Startup

/-!
# The program

The program starts up in the file system and the environment of its process. It checks a
configuration, or gets a daemon ready to run and ends; requests come to a daemon from whatever holds
its `Daemon.Machine`.
-/

namespace RunnerFleet
namespace CommandLine

/-- The fault that an error of the file system stands for. -/
def FileFault.ofError : IO.Error → FileFault
  | .noFileOrDirectory _ _ _ => .missing
  | .noSuchThing _ _ _ => .missing
  | .alreadyExists _ _ _ => .inTheWay
  | .inappropriateType _ code _ => if code = 21 then .isFolder else .noFolder
  | _ => .notText

/-- Turn an error of the file system into the fault that it stands for. -/
def attempt {α : Type} (action : IO α) : IO (Except FileFault α) := do
  match ← action.toBaseIO with
  | .ok a => return .ok a
  | .error e => return .error (.ofError e)

/-- Open the store in a folder; without a file there it is fresh. -/
def openStoreIn (folder : String) : IO (Except Store.Error Store) := do
  match ← attempt (IO.FS.readFile (folder ++ "/" ++ Folder.storeName)) with
  | .ok text => return Store.ofText text
  | .error .missing => return .ok {}
  | .error fault => return .error (Store.cannotOpen fault.message)

/-- The surroundings of the process. -/
def processHost : Host IO where
  readFile path := attempt (IO.FS.readFile path)
  makeFolder path := attempt (IO.FS.createDirAll path)
  openStore := openStoreIn
  lookUp name := IO.getEnv name

/-- Carry out what the program is called for. -/
def execute : Invocation → IO Exit
  | .checkConfig path => checkConfig processHost path
  | .run config _ dataFolder => do
      match ← startUp processHost config dataFolder with
      | .error exit => return exit
      | .ok _ => return .success ""

end CommandLine
end RunnerFleet

open RunnerFleet.CommandLine in
/-- Run the program with these arguments. -/
def main (args : List String) : IO UInt32 := do
  let exit ←
    match parse args with
    | .error stop => pure (Exit.ofStop stop)
    | .ok invocation => execute invocation
  IO.print exit.output
  IO.eprint exit.errors
  return exit.code.toUInt32
