import Wireform.Source.Message
import Wireform.Source.Record
import Wireform.Source.Sensitivity

/-
  Wireform source text: the generated module as a whole. It has the enums and data classes of all
  messages, the segments of the URIs, and the functions of every operation.
-/

namespace Wireform.Source

/-! ## Operations -/

/-- The functions for the single members of a message. -/
def memberFunctions (w : Writer) (x : Exchange) (b : Binding) :
    Except GenerateError (List Definition) :=
  match b.location with
  | .header => do return [← readHeader w x b]
  | .prefixHeaders => do return [← readPrefixHeader w x b]
  | .payload => do
    let write ← writePayload w x b
    return [write, ← readPayload w x b]
  | _ => .ok []

/-- The functions for all members of a message. -/
def containerFunctions (w : Writer) (x : Exchange) : Except GenerateError (List Definition) :=
  (x.bindings.mapM (memberFunctions w x)).map List.flatten

def requestFunctions (w : Writer) (x : Exchange) : Except GenerateError (List Definition) := do
  let add ← addHeaders w x
  let path ← writePath w x.plan
  let query ← writeQuery w x.plan
  let members ← containerFunctions w x
  let write ← writeRequest w x
  return [add, path, query] ++ members ++ [write, ← readRequest w x]

/-- The functions of a response or an error, where the last two are given. -/
def responseFunctions (w : Writer) (x : Exchange)
    (write read : Writer → Exchange → Except GenerateError Definition) :
    Except GenerateError (List Definition) := do
  let add ← addHeaders w x
  let members ← containerFunctions w x
  let write ← write w x
  return add :: members ++ [write, ← read w x]

/-- The functions of an operation. -/
def operationFunctions (w : Writer) (p : Plan) : Except GenerateError (List Definition) := do
  let request ← requestFunctions w ⟨p, p.input, p.request, .request, true⟩
  let response ← responseFunctions w ⟨p, p.output, p.response, .response, false⟩
    writeResponse readResponse
  let errors ← p.errors.mapM fun (error, bindings) =>
    responseFunctions w ⟨p, error, bindings, .response, false⟩ writeError readError
  return request ++ response ++ errors.flatten ++ [sensitivity p]

/-! ## Modules -/

/-- What a module is called and where it finds the library. -/
structure ModuleOptions where
  service : String
  library : Option String
  doc : Option String

structure Module where
  doc : String
  protocol : Protocol
  library : Option String
  service : String
  enums : List EnumClass
  classes : List DataClass
  uris : List String
  functions : List Definition

/-- What a module's documentation says unless it is given. -/
def defaultDoc (service : String) : String :=
  "HTTP bindings for " ++ (if service = "" then "the service" else service) ++ "."

/-- The module of planned operations. -/
def Module.ofPlans (w : Writer) (plans : List Plan) (o : ModuleOptions) :
    Except GenerateError Module := do
  let roots := plans.flatMap fun p => p.input :: p.output :: p.errors.map (·.1)
  let (enums, structs) ← GenerateError.lift (collect w.model roots)
  let classes ← dataClasses w.model w.protocol [] structs
  let functions ← plans.mapM (operationFunctions w)
  let enums ← enums.mapM EnumClass.ofShape
  let doc := ((o.doc.map documentation).filter (· ≠ "")).getD (defaultDoc o.service)
  return { doc, protocol := w.protocol, library := o.library, service := o.service, enums, classes,
           uris := plans.map uriConstant, functions := functions.flatten }

/-- The parts of the library and the names that they have in the module. -/
def libraryParts : List (String × String) := [("checksums", "_ck"), ("eventstream", "_es"),
  ("headers", "_h"), ("message", "_m"), ("payload", "_p"), ("primitives", "_prim"),
  ("sensitivity", "_s"), ("timestamps", "_ts"), ("uri", "_uri")]

def importLine (library : Option String) (part : String × String) : String :=
  "from " ++ library.getD "None" ++ " import " ++ part.1 ++ " as " ++ part.2

/-- The lines before the classes. -/
def Module.headLines (m : Module) : List String := [
  "\"\"\"" ++ m.doc,
  "",
  "Generated by httpbind for protocol " ++ m.protocol.name ++ ". Do not edit.",
  "\"\"\"",
  "",
  "import dataclasses",
  "from dataclasses import dataclass, field",
  "from datetime import datetime",
  "from decimal import Decimal",
  "from enum import IntEnum, StrEnum",
  "from typing import Any, Optional",
  "",
  "from dataclasses_json import DataClassJsonMixin, config",
  ""] ++ libraryParts.map (importLine m.library) ++ [
  "",
  "SERVICE = \"" ++ m.service ++ "\"",
  "PROTOCOL = \"" ++ m.protocol.trait ++ "\""]

/-- The lines of the module. -/
def Module.lines (m : Module) : List String :=
  m.headLines ++ m.enums.flatMap EnumClass.lines ++ m.classes.flatMap DataClass.lines ++ m.uris ++
    m.functions.map Definition.text

/-- The text of the module; every line ends in a line break. -/
def Module.text (m : Module) : String := "\n".intercalate m.lines ++ "\n"

end Wireform.Source
