import RunnerFleet.CommandLine.Arguments

/-!
# Help

What the program says about itself: what a command does, how it is called, and its options in two
columns.

Main results:

- `padTo_length`: a text that is narrower than its column fills it.
-/

namespace RunnerFleet
namespace CommandLine

/-- The text, filled up with blanks to this width. -/
def padTo (width : Nat) (text : String) : String :=
  String.ofList (text.toList ++ List.replicate (width - text.toList.length) ' ')

/-- A text no wider than its column is padded to exactly the column's width. -/
theorem padTo_length {width : Nat} {text : String} (h : text.toList.length ≤ width) :
    (padTo width text).toList.length = width := by
  simp only [padTo, String.toList_ofList, List.length_append, List.length_replicate]
  omega

/-- The word that stands for the value of an option. -/
def Parameter.valueName : Parameter → String
  | logFormat => "LOG_FORMAT"
  | config => "CONFIG"
  | port => "PORT"
  | dataFolder => "DATA_DIR"

/-- What an option is for. -/
def Parameter.description : Parameter → String
  | logFormat => "Log output format"
  | config => "Path to scaleset.toml"
  | port => "Port to listen on"
  | dataFolder => "Data directory for persistent state"

/-- The values that an option takes, if they are few. -/
def Parameter.choices : Parameter → List String
  | logFormat => logFormats
  | _ => []

/-- What a command does. -/
def Command.description : Command → String
  | run => "Run the listener, controller and API for one runner set"
  | checkConfig => "Parse and validate a configuration file, then exit"

/-- A line of the list of options. -/
def optionLine (spelling description : String) : String :=
  "  " ++ padTo 31 spelling ++ description ++ "\n"

/-- The line for an option. -/
def Parameter.line (p : Parameter) : String :=
  let choices :=
    match p.choices with
    | [] => ""
    | choices => " [possible values: " ++ String.intercalate ", " choices ++ "]"
  optionLine ("    --" ++ p.name ++ " <" ++ p.valueName ++ ">")
    (p.description ++ " [default: " ++ p.default ++ "]" ++ choices)

/-- The list of the options of a command. -/
def optionLines (topic : Option Command) : String :=
  String.join ((Command.parameters topic).map Parameter.line) ++
    optionLine "-h, --help" "Print help"

/-- A line of the list of commands. -/
def commandLine (name description : String) : String :=
  "  " ++ padTo 14 name ++ description ++ "\n"

/-- What the program says about a command, or about all of them. -/
def help : Option Command → String
  | none =>
      "Runner scale-set daemon\n\n" ++
        "Usage: scalesetd [OPTIONS] <COMMAND>\n\n" ++
        "Commands:\n" ++
        String.join ([Command.run, .checkConfig].map fun c => commandLine c.name c.description) ++
        commandLine "help" "Print this message or the help of the given subcommand(s)" ++
        "\nOptions:\n" ++ optionLines none
  | some c =>
      c.description ++ "\n\n" ++
        "Usage: scalesetd " ++ c.name ++ " [OPTIONS]\n\n" ++
        "Options:\n" ++ optionLines (some c)

end CommandLine
end RunnerFleet
