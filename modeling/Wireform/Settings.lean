import Wireform.Disk
import Wireform.Json.Octets
import Wireform.Json.Writer

/-
  Wireform settings: what to generate, for which protocol, and what the generated module says about
  itself. Settings are read from a JSON object, and options given elsewhere go over them.
-/

namespace Wireform

structure Settings where
  service : Option String
  protocol : Option String
  library : Option String
  doc : Option String
  deriving DecidableEq, Repr

/-- Why there are no settings. -/
inductive SettingsError where
  | unreadable (path : String) (fault : FileFault)
  | invalid
  | notObject (kind : String)
  deriving DecidableEq, Repr

def SettingsError.message : SettingsError → String
  | unreadable path fault => "can't read settings file " ++ path ++ ": " ++ fault.message
  | invalid => "invalid settings file"
  | notObject kind => "'" ++ kind ++ "' object has no attribute 'items'"

namespace Settings

/-- Where a generated module finds the library unless it is told. -/
def defaultLibrary : String := "httpbind.proto"

def default : Settings := ⟨none, none, some defaultLibrary, none⟩

/-- The text of an entry: an absent one leaves the default, and a null one unsets it. -/
def entry (fields : List (String × Json)) (key : String) (default : Option String) :
    Option String :=
  match Entries.get? key fields with
  | none => default
  | some .null => none
  | some j => some j.plain

def ofFields (fields : List (String × Json)) : Settings :=
  ⟨entry fields "service" none, entry fields "protocol" none,
    entry fields "runtime_import" (some defaultLibrary), entry fields "module_doc" none⟩

/-- The settings of a file's text. -/
def parse (text : String) : Except SettingsError Settings :=
  match Json.ofText text with
  | .ok (.map fields) => .ok (ofFields fields)
  | .ok j => .error (.notObject j.kindName)
  | .error _ => .error .invalid

/-- The settings of a file. -/
def loadFile (d : Disk) (path : String) : Except SettingsError Settings :=
  match d.read path with
  | .ok text => parse text
  | .error e => .error (.unreadable path e)

/-- The settings with everything replaced that `new` sets. -/
def override (s new : Settings) : Settings :=
  ⟨new.service.or s.service, new.protocol.or s.protocol, new.library.or s.library,
    new.doc.or s.doc⟩

end Settings

end Wireform
