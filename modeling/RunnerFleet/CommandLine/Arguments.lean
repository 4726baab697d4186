import RunnerFleet.Text.Decimal

/-!
# Arguments

The program is called with a command and with options that have values. The value of an option
follows it, or is attached to it by an equals sign. An option is given at most once at each level,
and two dashes alone end the options.

Main results:

- `accepts_default`: the value of an option that is not given is one that it takes.
- `give_of_given`: an option that was given is not given again.
-/

namespace RunnerFleet
namespace CommandLine

/-! ## Options -/

/-- An option of the program. -/
inductive Parameter where
  | logFormat
  | config
  | port
  | dataFolder
deriving DecidableEq, Repr

namespace Parameter

/-- The name behind the two dashes. -/
def name : Parameter → String
  | logFormat => "log-format"
  | config => "config"
  | port => "port"
  | dataFolder => "data-dir"

/-- The value of an option that is not given. -/
def default : Parameter → String
  | logFormat => "text"
  | config => "scaleset.toml"
  | port => "8080"
  | dataFolder => "/var/lib/scaleset"

/-- The formats of the log. -/
def logFormats : List String := ["text", "json"]

/-- Whether the text is the number of a port. -/
def isPort (value : String) : Bool :=
  match Text.toInt64? value.toList with
  | some n => 0 ≤ n && n < 2 ^ 16
  | none => false

/-- Whether an option takes this value. -/
def accepts : Parameter → String → Bool
  | logFormat, value => logFormats.contains value
  | config, value => value != ""
  | port, value => isPort value
  | dataFolder, value => value != ""

/-- Each parameter takes its own default. -/
theorem accepts_default (p : Parameter) : p.accepts p.default = true := by
  cases p <;> decide +kernel

end Parameter

/-! ## Commands -/

/-- A command of the program. -/
inductive Command where
  | run
  | checkConfig
deriving DecidableEq, Repr

namespace Command

/-- The name of a command. -/
def name : Command → String
  | run => "run"
  | checkConfig => "check-config"

/-- The command with this name. -/
def ofName? (name : String) : Option Command :=
  [run, checkConfig].find? fun c => c.name = name

/-- The options that may follow a command; without one, those in front of it. -/
def parameters : Option Command → List Parameter
  | none => [.logFormat]
  | some run => [.config, .logFormat, .port, .dataFolder]
  | some checkConfig => [.config, .logFormat]

end Command

/-! ## Single arguments -/

/-- What one argument is by its form. -/
inductive Argument where
  | word (text : String)
  | help
  /-- An option, perhaps with a value attached to it. -/
  | named (name : String) (value : Option String)
  /-- The end of the options. -/
  | ending
  /-- An argument with a dash that is nothing else. -/
  | unknown
deriving DecidableEq, Repr

/-- The form of an option with this text behind the two dashes. -/
def Argument.ofName (cs : List Char) : Argument :=
  let name := String.ofList (cs.takeWhile (· != '='))
  match cs.dropWhile (· != '=') with
  | [] => if name = "help" then help else named name none
  | _ :: value => if name = "help" then unknown else named name (some (String.ofList value))

/-- The form of an argument. -/
def Argument.ofText (text : String) : Argument :=
  match text.toList with
  | ['-', '-'] => ending
  | '-' :: '-' :: cs => ofName cs
  | ['-'] => word text
  | '-' :: 'h' :: _ => help
  | '-' :: _ => unknown
  | _ => word text

/-! ## Reading -/

/-- Why the program does nothing but answer about itself. -/
inductive Stop where
  /-- It is asked for help, in general or on a command. -/
  | help (topic : Option Command)
  /-- The arguments are not as they should be. -/
  | misuse
deriving DecidableEq, Repr

/-- The options that were given, with their values. -/
abbrev Given := List (Parameter × String)

/-- Give an option a value. -/
def give (known : List Parameter) (given : Given) (name value : String) : Except Stop Given :=
  match known.find? fun p => p.name = name with
  | some p =>
      if (given.lookup p).isSome || !p.accepts value then .error .misuse
      else .ok ((p, value) :: given)
  | none => .error .misuse

/-- Read options up to the first word; the arguments from there on are left over. -/
def readOptions (topic : Option Command) (given : Given) :
    List String → Except Stop (Given × List String)
  | [] => .ok (given, [])
  | arg :: rest =>
      match Argument.ofText arg with
      | .word _ => .ok (given, arg :: rest)
      | .help => .error (.help topic)
      | .unknown => .error .misuse
      | .ending => if rest.isEmpty then .ok (given, []) else .error .misuse
      | .named name (some value) => do
          readOptions topic (← give (Command.parameters topic) given name value) rest
      | .named name none =>
          match rest with
          | [] => .error .misuse
          | value :: rest =>
              match Argument.ofText value with
              | .word _ => do
                  readOptions topic (← give (Command.parameters topic) given name value) rest
              | _ => .error .misuse

/-- What the program is called for. -/
inductive Invocation where
  /-- Run a daemon. -/
  | run (config port dataFolder : String)
  /-- Check a configuration. -/
  | checkConfig (config : String)
deriving DecidableEq, Repr

/-- The value of an option. -/
def Given.value (given : Given) (p : Parameter) : String :=
  (given.lookup p).getD p.default

/-- What the program is called for by a command and its options. -/
def Command.invocation (given : Given) : Command → Invocation
  | run => .run (given.value .config) (given.value .port) (given.value .dataFolder)
  | checkConfig => .checkConfig (given.value .config)

/-- Read the arguments behind a word that asks for help. -/
def readTopic : List String → Stop
  | [] => .help none
  | [name] =>
      match Command.ofName? name with
      | some c => .help (some c)
      | none => .misuse
  | _ => .misuse

/-- Read all arguments. -/
def parse (args : List String) : Except Stop Invocation := do
  match ← readOptions none [] args with
  | (_, []) => .error .misuse
  | (_, "help" :: rest) => .error (readTopic rest)
  | (_, name :: rest) =>
      match Command.ofName? name with
      | none => .error .misuse
      | some c =>
          match ← readOptions (some c) [] rest with
          | (given, []) => .ok (c.invocation given)
          | _ => .error .misuse

/-- A parameter that already has a value cannot be given another. -/
theorem give_of_given {known : List Parameter} {given : Given} {p : Parameter} {value old : String}
    (hp : known.find? (fun q => q.name = p.name) = some p) (ho : given.lookup p = some old) :
    give known given p.name value = .error .misuse := by
  simp [give, hp, ho]

end CommandLine
end RunnerFleet
