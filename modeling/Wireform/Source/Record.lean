import Wireform.Source.TypeHint
import Wireform.Source.Literal

/-
  Wireform source text: the enums and data classes of the generated module, every class behind those
  that it refers to.
-/

namespace Wireform.Source

/-! ## Order -/

/-- A shape that waits to be opened, or to be listed behind all that it leads to. -/
inductive Pending where
  | open_ (s : Shape)
  | close (s : Shape)

/-- The shapes that a shape leads to; an enum leads nowhere. -/
def dependencies (model : Model) (s : Shape) : Except AnalysisError (List Shape) :=
  if s.isEnum then .ok [] else s.members.mapM model.targetOf

/-- Lists shapes behind those that they lead to. The fuel bounds the entries that ever wait. -/
def arrange (model : Model) : Nat → List String → List Pending →
    Except AnalysisError (List Shape)
  | _, _, [] => .ok []
  | 0, _, _ => .ok []
  | fuel + 1, seen, .close s :: rest => (arrange model fuel seen rest).map (s :: ·)
  | fuel + 1, seen, .open_ s :: rest =>
    if seen.contains s.id then arrange model fuel seen rest
    else do
      let next ← dependencies model s
      arrange model fuel (s.id :: seen) (next.map .open_ ++ .close s :: rest)

/-- More than the entries that ever wait: the roots, and for every shape that is opened what it
leads to and its own end. -/
def arrangeFuel (model : Model) (roots : List Shape) : Nat :=
  let size (s : Shape) : Nat := s.members.length + 2
  ((roots ++ model.shapes).map size).foldr (· + ·) 0

/-- The enums and the data classes that can be reached from the roots. -/
def collect (model : Model) (roots : List Shape) :
    Except AnalysisError (List Shape × List Shape) := do
  let order ← arrange model (arrangeFuel model roots) [] (roots.map .open_)
  return (order.filter Shape.isEnum, order.filter fun s => s.kind.isAggregate)

/-! ## Enums -/

/-- An enum's class: each member has a name and the text of its value. -/
structure EnumClass where
  name : String
  base : String
  members : List (String × String)
  deriving DecidableEq, Repr

/-- The text of an enum member's value. -/
def enumValue (whole : Bool) (v : Json) : Except GenerateError String :=
  if whole then
    (v.toWhole.map fun n => String.ofList (Whole.digits n)).mapError .number
  else .ok (textLiteral v.plain)

def EnumClass.ofShape (s : Shape) : Except GenerateError EnumClass := do
  let whole := s.kind = .intEnum
  let values ← GenerateError.lift (s.enumValues.mapError .missing)
  let members ← values.mapM fun (n, v) => (enumValue whole v).map (Name.enumMember n, ·)
  return ⟨classOf s, if whole then "IntEnum" else "StrEnum", members⟩

def EnumClass.lines (e : EnumClass) : List String :=
  ("class " ++ e.name ++ "(" ++ e.base ++ "):") ::
    e.members.map fun m => indent (m.1 ++ " = " ++ m.2)

/-! ## Data classes -/

/-- A field with its hint and how it is carried in a document. -/
structure Field where
  name : String
  hint : TypeHint
  config : String
  deriving DecidableEq, Repr

structure DataClass where
  name : String
  doc : Option String
  fields : List Field
  deriving DecidableEq, Repr

/-- The format of a timestamp in a document. -/
def fieldFormat (p : Protocol) (m : Member) (target : Shape) :
    Except AnalysisError TimestampFormat :=
  match (Format.formatTrait? m.traits).or (Format.formatTrait? target.traits) with
  | some j => Format.formatOf j
  | none => .ok p.timestampFormat

/-- The wire name of a field, and how its value is written and read. -/
def fieldConfig (model : Model) (p : Protocol) (m : Member) : Except AnalysisError String := do
  let name := (Entries.get? Trait.jsonName m.traits).getD (.text m.name)
  let target ← model.targetOf m
  let coding ←
    if target.kind = .timestamp then do
      let format := formatLiteral (← fieldFormat p m target)
      pure ["encoder=_ts.field_encoder(" ++ format ++ ")",
        "decoder=_ts.field_decoder(" ++ format ++ ")"]
    else if target.kind = .blob && !target.isStreamingBlob then
      pure ["encoder=_prim.encode_blob_field", "decoder=_prim.decode_blob_field"]
    else pure []
  return ", ".intercalate (("field_name=" ++ name.compact) :: coding)

def Field.ofMember (model : Model) (p : Protocol) (defined : List String) (m : Member) :
    Except GenerateError Field := do
  let target ← GenerateError.lift (model.targetOf m)
  let hint ← TypeHint.ofShape model (some defined) target
  let config ← GenerateError.lift (fieldConfig model p m)
  return ⟨fieldOf m, hint, config⟩

/-- The data class of a structure or union behind the ones that are defined. -/
def DataClass.ofShape (model : Model) (p : Protocol) (defined : List String) (s : Shape) :
    Except GenerateError DataClass := do
  let fields ← s.members.mapM (Field.ofMember model p defined)
  return ⟨classOf s, (s.traits.text? Trait.documentation).map documentation, fields⟩

/-- The data classes in order. -/
def dataClasses (model : Model) (p : Protocol) : List String → List Shape →
    Except GenerateError (List DataClass)
  | _, [] => .ok []
  | defined, s :: r => do
    let c ← DataClass.ofShape model p defined s
    let cs ← dataClasses model p (s.id :: defined) r
    return c :: cs

def Field.line (f : Field) : String :=
  f.name ++ ": Optional[" ++ f.hint.text ++ "] = field(default=None, metadata=config(" ++
    f.config ++ "))"

/-- Three double quotes around a documentation. -/
def docLines (doc : String) : List String := ["\"\"\"" ++ doc ++ "\"\"\"", ""]

def DataClass.lines (c : DataClass) : List String :=
  let doc := (c.doc.filter (· ≠ "")).toList.flatMap docLines
  let body := doc ++ c.fields.map Field.line
  ["@dataclass", "class " ++ c.name ++ "(DataClassJsonMixin):"] ++
    (if body.isEmpty then ["pass"] else body).map fun l => if l = "" then "" else indent l

end Wireform.Source
