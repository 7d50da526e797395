import Wireform.Entries
import Wireform.ParseError
import Wireform.Percent
import Wireform.Scalar

/-
  Wireform queries: pairs of keys and values behind the path of a request. A key may come more than
  once.
-/

namespace Wireform.Query

/-- The values of a key in order. -/
def values (params : List (String × String)) (key : String) : List String :=
  (params.filter fun p => p.1 = key).map (·.2)

/-- One pair; an empty value is left out with its equals sign. -/
def pairText (p : String × String) : List Char :=
  Percent.encode (fun _ => false) p.1.toList ++
    if p.2 = "" then [] else '=' :: Percent.encode (fun _ => false) p.2.toList

/-- The path with the query behind it. -/
def uri (path : String) (params : List (String × String)) : String :=
  if params.isEmpty then path
  else String.ofList (path.toList ++ '?' :: Text.join '&' (params.map pairText))

/-- The values of one key; a singular one has at most one. -/
def read (converter : Converter) (singular : Bool) (vs : List String) : Except WireError Value :=
  if singular && 1 < vs.length then .error (.malformed (.tooManyQueryValues vs.length))
  else do
    let parsed ← WireError.wrap .queryValue (vs.mapM converter.read)
    return if parsed.isEmpty then .null
      else if singular then parsed.headD .null
      else .list parsed

/-- The values of one key in a map of all of them: a list, or the first one. -/
def readEntry (converter : Converter) (multi : Bool) (entry : String × List String) :
    Except WireError (String × Value) := do
  let parsed ← WireError.wrap (.queryValueFor entry.1) (entry.2.mapM converter.read)
  return (entry.1, if multi then .list parsed else parsed.headD .null)

/-- A map of all keys to their values. -/
def readAll (converter : Converter) (multi : Bool) (params : List (String × String)) :
    Except WireError (List (String × Value)) :=
  (Entries.group params).mapM (readEntry converter multi)

end Wireform.Query
