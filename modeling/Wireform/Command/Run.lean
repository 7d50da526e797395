import Wireform.Command.Arguments
import Wireform.Command.Report

/-
  Wireform commands: `gen` writes a module, `runtime` the files of the library, and `info` tells
  what is known about a service. A command is a function of its arguments and of the disk that it
  reads.
-/

namespace Wireform

/-- What breaks a command off, without a word of its own. -/
inductive CommandFault where
  | settings (e : SettingsError)
  | generate (e : GenerateError)
  | file (e : FileFault)
  | markup (e : Text.Markup.Fault)
  deriving DecidableEq, Repr

def CommandFault.message : CommandFault → String
  | settings e => e.message
  | generate e => e.message
  | file e => e.message
  | markup e => e.message

/-- How a command ends: with a code, or broken off. -/
inductive Ending where
  | code (n : Nat)
  | broken (e : CommandFault)
  deriving DecidableEq, Repr

/-- What a command prints and writes, and how it ends. -/
structure Outcome where
  ending : Ending
  output : String
  errors : String
  written : Files
  deriving DecidableEq, Repr

namespace Outcome

def success (output : String) (written : Files) : Outcome := ⟨.code 0, output, "", written⟩

/-- A command that tells why it failed. -/
def failure (message : String) : Outcome := ⟨.code 1, "", "Error: " ++ message ++ "\n", []⟩

/-- A command that breaks off before it prints or writes anything. -/
def broken (e : CommandFault) : Outcome := ⟨.broken e, "", "", []⟩

/-- A command whose arguments are wrong. -/
def usage (command arguments message : String) : Outcome :=
  ⟨.code 2, "", "Usage: " ++ command ++ " " ++ arguments ++ "\nTry '" ++ command ++
    " --help' for help.\n\nError: " ++ message ++ "\n", []⟩

end Outcome

namespace Command

/-! ## Options -/

def inputOption : CommandOption := ⟨"input", "--input", some "-i", .value, true⟩
def protocolOption : CommandOption := ⟨"protocol", "--protocol", some "-p", .value, false⟩
def serviceOption : CommandOption := ⟨"service", "--service", some "-s", .value, false⟩
def verboseOption : CommandOption := ⟨"verbose", "--verbose", some "-v", .flag, false⟩

def genOptions : List CommandOption := [
  inputOption,
  ⟨"output", "--output", some "-o", .value, true⟩,
  protocolOption,
  serviceOption,
  ⟨"library", "--runtime-import", none, .optional Settings.defaultLibrary, false⟩,
  ⟨"config", "--config", some "-c", .value, false⟩,
  verboseOption]

def runtimeOptions : List CommandOption := [
  ⟨"output", "--output", some "-o", .value, false⟩,
  ⟨"name", "--name", none, .value, false⟩]

def infoOptions : List CommandOption := [
  inputOption,
  protocolOption,
  serviceOption,
  ⟨"json", "--json", none, .flag, false⟩,
  verboseOption]

/-! ## Commands -/

/-- How an error of generation ends a command: faults of the model and of bindings are told, and any
other breaks it off. -/
def failed : GenerateError → Outcome
  | .model (.missing e) => .broken (.generate (.model (.missing e)))
  | .model (.tooManyDigits n) => .broken (.generate (.model (.tooManyDigits n)))
  | .model e => .failure e.message
  | .plan (.bindings es) => .failure (PlanError.message (.bindings es))
  | e => .broken (.generate e)

/-- The library of a generated module where neither option nor settings name one: what the `runtime`
command writes. -/
def runtimeName : String := "httpbind_runtime"

/-- The settings of a file and the options over them. -/
def settingsOf (d : Disk) (a : Arguments) : Except SettingsError Settings := do
  let config := (a.get? "config").filter (· ≠ "")
  let s ← match config with
    | some path => Settings.loadFile d path
    | none => .ok .default
  let library := (a.get? "library").or (if config.isNone then some runtimeName else none)
  return s.override ⟨a.get? "service", a.get? "protocol", library, none⟩

/-- The model that the arguments name. -/
def modelOf (d : Disk) (a : Arguments) : Except GenerateError Model :=
  (Model.loadFile d ((a.get? "input").getD "")).mapError .model

/-- How an error of settings ends a command: what stands in place of an object breaks it off. -/
def unset (a : Arguments) : SettingsError → Outcome
  | .notObject kind => .broken (.settings (.notObject kind))
  | .invalid => .failure (SettingsError.invalid.message ++ " " ++ (a.get? "config").getD "")
  | e => .failure e.message

def gen (d : Disk) (a : Arguments) : Outcome :=
  match settingsOf d a with
  | .error e => unset a e
  | .ok s =>
    match (modelOf d a).bind fun m => generate m s Customization.standard with
    | .error e => failed e
    | .ok text =>
      let path := (a.get? "output").getD ""
      match d.checkFile path with
      | .error e => .broken (.file e)
      | .ok () => .success "" [(DiskPath.tidy path, text)]

/-- The files of the library; `runtime` makes them without a text. -/
def runtimeFiles : List String := ["__init__.py", "checksums.py", "crc.py", "eventstream.py",
  "headers.py", "message.py", "payload.py", "primitives.py", "sensitivity.py", "timestamps.py",
  "uri.py"]

def runtime (d : Disk) (a : Arguments) : Outcome :=
  let directory := DiskPath.join ((a.get? "output").getD ".") ((a.get? "name").getD runtimeName)
  let paths := runtimeFiles.map (DiskPath.join directory ·)
  let blocked := paths.find? fun path => d.hasDirectory (DiskPath.parts path)
  match d.checkDirectory directory, blocked with
  | .error e, _ => .broken (.file e)
  | .ok (), some _ => .broken (.file .isDirectory)
  | .ok (), none =>
    .success ("Generated Python runtime in " ++ directory ++ "\n") (paths.map (·, ""))

def info (d : Disk) (a : Arguments) : Outcome :=
  match (modelOf d a).bind fun m =>
      ServicePlan.ofModel m (a.get? "service") (a.get? "protocol") with
  | .error e => failed e
  | .ok x =>
    if a.has "json" then .success ((Report.toJson x).pretty ++ "\n") []
    else
      let (output, fault) := Report.printed (Report.parts x)
      match fault with
      | some e => ⟨.broken (.markup e), output, "", []⟩
      | none => .success output []

/-- Runs a command on arguments that it understands. -/
def within (name : String) (os : List CommandOption) (run : Arguments → Outcome)
    (args : List String) : Outcome :=
  match Arguments.parse os args with
  | .ok a => run a
  | .error e => .usage ("cli " ++ name) "[OPTIONS]" e.message

/-- Runs a command line on a disk. -/
def run (d : Disk) : List String → Outcome
  | "gen" :: args => within "gen" genOptions (gen d) args
  | "runtime" :: args => within "runtime" runtimeOptions (runtime d) args
  | "info" :: args => within "info" infoOptions (info d) args
  | name :: _ => .usage "cli" "[OPTIONS] COMMAND [ARGS]..." (if Arguments.isOption name then
      match Arguments.parse [] [name] with
      | .ok _ => ""
      | .error e => e.message
    else UsageError.message (.noCommand name))
  | [] => ⟨.code 2, "", "", []⟩

/-- The paths that a command line may name. -/
def paths (args : List String) : List String := args.filter (! Arguments.isOption ·)

end Command

end Wireform
