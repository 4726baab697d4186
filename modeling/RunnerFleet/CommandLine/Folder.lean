import RunnerFleet.CommandLine.Startup
import RunnerFleet.KeySet
import RunnerFleet.Store.File
import RunnerFleet.Text.Split

/-!
# Folders kept in memory

A folder with files in it, in which the program can start up without a file system. A path is
followed name by name from the folder. Outside of the folder nothing is known; folders may be made
there, and are not remembered.

Main results:

- `makeFolder_here`: the folder itself is always there.
-/

namespace RunnerFleet
namespace CommandLine

/-- Files and folders by their paths, which start in the folder that holds them all. -/
structure Folder where
  /-- The bytes of a file may be no text. -/
  files : KeyMap (Option String) := .empty
  folders : KeySet := .empty

namespace Folder

/-- A place that a path leads to. -/
inductive Place where
  /-- A folder, by the names on the way to it. -/
  | folder (names : List String)
  | file (content : Option String)
  /-- A folder around the one that is known. -/
  | outside
deriving DecidableEq, Repr

/-- The names of a path. -/
def names (path : String) : List String :=
  (Text.splitAt (· == '/') path.toList).map String.ofList

/-- The path with these names. -/
def pathOf (names : List String) : String :=
  String.intercalate "/" names

/-- The place with this name in a folder. -/
def child? (f : Folder) (parent : List String) (name : String) : Option Place :=
  let path := pathOf (parent ++ [name])
  match f.files.get? path with
  | some content => some (.file content)
  | none => if f.folders.contains path then some (.folder (parent ++ [name])) else none

/-- Go one name further. -/
def follow (f : Folder) (place : Place) (name : String) : Except FileFault Place :=
  match place with
  | .file _ => .error .noFolder
  | .outside => if name = "" || name = "." || name = ".." then .ok .outside else .error .missing
  | .folder parent =>
      if name = "" || name = "." then .ok place
      else if name = ".." then
        if parent.isEmpty then .ok .outside else .ok (.folder parent.dropLast)
      else
        match f.child? parent name with
        | some place => .ok place
        | none => .error .missing

/-- Where a path begins, and the names to follow from there. -/
def start (path : String) : Place × List String :=
  match names path with
  | "" :: rest => (.outside, rest)
  | names => (.folder [], names)

/-- The place that a path leads to. -/
def find (f : Folder) (path : String) : Except FileFault Place :=
  (start path).2.foldlM f.follow (start path).1

/-- The text of a file. -/
def readFile (f : Folder) (path : String) : Except FileFault String :=
  match f.find path with
  | .error fault => .error fault
  | .ok (.file (some text)) => .ok text
  | .ok (.file none) => .error .notText
  | .ok _ => .error .isFolder

/-- Follow names, and make the folders that are missing. -/
def makeAlong (f : Folder) (place : Place) : List String → Except FileFault Folder
  | [] =>
      match place with
      | .file _ => .error .inTheWay
      | _ => .ok f
  | name :: rest =>
      match f.follow place name with
      | .ok place => makeAlong f place rest
      | .error .missing =>
          match place with
          | .folder parent =>
              let f := { f with folders := f.folders.add (pathOf (parent ++ [name])) }
              makeAlong f (.folder (parent ++ [name])) rest
          | _ => .ok f
      | .error fault => .error fault

/-- Make a folder, unless it is there, and the folders around it. -/
def makeFolder (f : Folder) (path : String) : Except FileFault Folder :=
  f.makeAlong (start path).1 ((start path).2.filter (· != ""))

/-- The name of the file with the store. -/
def storeName : String := "scaleset.json"

/-- Open the store in the file with this path. -/
def openStoreAt (f : Folder) (path : String) : Except Store.Error Store :=
  match f.find path with
  | .ok (.file (some text)) => Store.ofText text
  | .ok (.file none) => .error (Store.cannotOpen "not a store")
  | .ok _ => .error (Store.cannotOpen FileFault.isFolder.message)
  | .error .missing =>
      let names := (start path).2
      match names.dropLast.foldlM f.follow (start path).1 with
      | .ok _ => .ok {}
      | .error fault => .error (Store.cannotOpen fault.message)
  | .error fault => .error (Store.cannotOpen fault.message)

/-- Open the store in a folder. -/
def openStore (f : Folder) (folder : String) : Except Store.Error Store :=
  f.openStoreAt (folder ++ "/" ++ storeName)

/-- The surroundings of a program that works in the folder, with these variables. -/
def host (environment : List (String × String)) : Host (StateM Folder) where
  readFile path := return (← get).readFile path
  makeFolder path := do
    match (← get).makeFolder path with
    | .ok f =>
        set f
        return .ok ()
    | .error fault => return .error fault
  openStore folder := return (← get).openStore folder
  lookUp name := return environment.lookup name

/-- Making the folder one stands in changes nothing. -/
theorem makeFolder_here (f : Folder) : f.makeFolder "." = .ok f := by
  have hs : (start ".").1 = .folder [] ∧ (start ".").2.filter (· != "") = ["."] := by
    decide +kernel
  simp [makeFolder, hs.1, hs.2, makeAlong, follow]

end Folder
end CommandLine
end RunnerFleet
