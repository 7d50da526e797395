import Wireform.Entries
import Wireform.Text.Alike
import Wireform.Text.Quoted

/-
  Wireform command arguments: options with values or without, in short and in long spelling. Of an
  option that is given twice the last value counts.
-/

namespace Wireform

/-- Whether an option is followed by a value. -/
inductive OptionArity where
  | flag
  | value
  | optional (default : String)
  deriving DecidableEq

/-- An option of a command with its spellings. -/
structure CommandOption where
  key : String
  long : String
  short : Option String
  arity : OptionArity
  required : Bool

/-- Why arguments cannot be understood. -/
inductive UsageError where
  | noCommand (name : String)
  | noOption (name : String) (alike : List String)
  | noValue (name : String)
  | unexpectedValue (name : String)
  | missing (names : List String)
  | extra (arguments : List String)
  deriving DecidableEq, Repr

def UsageError.message : UsageError → String
  | noCommand name => "No such command " ++ Text.quoted name ++ "."
  | noOption name [] => "No such option: " ++ name
  | noOption name [x] => "No such option: " ++ name ++ " Did you mean " ++ x ++ "?"
  | noOption name xs =>
    "No such option: " ++ name ++ " (Possible options: " ++ ", ".intercalate xs ++ ")"
  | noValue name => "Option " ++ Text.quoted name ++ " requires an argument."
  | unexpectedValue name => "Option " ++ Text.quoted name ++ " does not take a value."
  | missing names => "Missing option " ++ " / ".intercalate (names.map Text.quoted) ++ "."
  | extra [a] => "Got unexpected extra argument (" ++ a ++ ")"
  | extra as => "Got unexpected extra arguments (" ++ " ".intercalate as ++ ")"

namespace CommandOption

/-- The spellings of an option. -/
def names (o : CommandOption) : List String := o.long :: o.short.toList

end CommandOption

/-- The values of options by their keys, and the arguments that belong to no option. -/
structure Arguments where
  values : List (String × String)
  rest : List String

namespace Arguments

def empty : Arguments := ⟨[], []⟩

def set (a : Arguments) (key value : String) : Arguments :=
  { a with values := Entries.put key value a.values }

def get? (a : Arguments) (key : String) : Option String := Entries.get? key a.values

def has (a : Arguments) (key : String) : Bool := (a.get? key).isSome

/-- Whether an argument looks like an option. -/
def isOption (s : String) : Bool := s.startsWith "-" && s ≠ "-"

/-- The option with a spelling. -/
def find (os : List CommandOption) (name : String) : Except UsageError CommandOption :=
  match os.find? fun o => o.names.contains name with
  | some o => .ok o
  | none => .error (.noOption name [])

/-- The long spelling that every command understands. -/
def help : String := "--help"

/-- The option with a long spelling; without one, those that are like it are told. -/
def findLong (os : List CommandOption) (name : String) : Except UsageError CommandOption :=
  (find os name).mapError fun _ =>
    .noOption name (Text.alikeTexts name (os.map (·.long) ++ [help]))

/-- The value of an option that has none attached to it, and the arguments behind it. -/
def takeValue (o : CommandOption) (name : String) (args : List String) :
    Except UsageError (String × List String) :=
  match o.arity, args with
  | .flag, _ => .ok ("", args)
  | .value, v :: r => .ok (v, r)
  | .value, [] => .error (.noValue name)
  | .optional d, v :: r => if isOption v then .ok (d, args) else .ok (v, r)
  | .optional d, [] => .ok (d, [])

/-- The name and the attached value of an option in long spelling. -/
def splitLong (s : String) : String × Option String :=
  let (name, value) := Text.cut '=' s.toList
  (String.ofList name, value.map String.ofList)

/-- Reads the letters of an option in short spelling; one with a value takes the letters behind
it. -/
def readShort (os : List CommandOption) (a : Arguments) : List Char → List String →
    Except UsageError (Arguments × List String)
  | [], args => .ok (a, args)
  | c :: r, args => do
    let name := String.ofList ['-', c]
    let o ← find os name
    if o.arity = .flag then readShort os (a.set o.key "") r args
    else if r.isEmpty then
      let (v, args) ← takeValue o name args
      return (a.set o.key v, args)
    else return (a.set o.key (String.ofList r), args)

/-- Reads one option. -/
def readOption (os : List CommandOption) (a : Arguments) (s : String) (args : List String) :
    Except UsageError (Arguments × List String) := do
  if s.startsWith "--" then
    let (name, value) := splitLong s
    let o ← findLong os name
    match value with
    | some v =>
      if o.arity = .flag then throw (.unexpectedValue name)
      return (a.set o.key v, args)
    | none =>
      let (v, args) ← takeValue o name args
      return (a.set o.key v, args)
  else readShort os a (s.toList.drop 1) args

/-- Reads arguments; two dashes end the options. The fuel is the number of arguments. -/
def readAll (os : List CommandOption) : Nat → Arguments → List String → Except UsageError Arguments
  | 0, a, _ => .ok a
  | _, a, [] => .ok a
  | fuel + 1, a, s :: args =>
    if s = "--" then .ok { a with rest := a.rest ++ args }
    else if isOption s then do
      let (a, args) ← readOption os a s args
      readAll os fuel a args
    else readAll os fuel { a with rest := a.rest ++ [s] } args

/-- The arguments of a command, with every option that it requires. -/
def parse (os : List CommandOption) (args : List String) : Except UsageError Arguments := do
  let a ← readAll os args.length empty args
  match os.find? fun o => o.required && !a.has o.key with
  | some o => throw (.missing o.names)
  | none => if a.rest.isEmpty then return a else throw (.extra a.rest)

end Arguments

end Wireform
