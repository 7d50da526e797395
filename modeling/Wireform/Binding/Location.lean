import Wireform.Model.Basic

/-
  Wireform locations: the parts of a message that a member can be bound to, and the trait that
  selects each.
-/

namespace Wireform

inductive Location where
  | header
  | prefixHeaders
  | query
  | queryParams
  | label
  | payload
  | document
  | responseCode
  deriving DecidableEq, Repr

namespace Location

def name : Location → String
  | header => "header"
  | prefixHeaders => "prefix_headers"
  | query => "query"
  | queryParams => "query_params"
  | label => "label"
  | payload => "payload"
  | document => "document"
  | responseCode => "response_code"

/-- The traits that bind a member, each with its location. -/
def traits : List (String × Location) := [
  (Trait.httpHeader, header), (Trait.httpPrefixHeaders, prefixHeaders), (Trait.httpQuery, query),
  (Trait.httpQueryParams, queryParams), (Trait.httpLabel, label), (Trait.httpPayload, payload),
  (Trait.httpResponseCode, responseCode)]

def all : List Location :=
  [header, prefixHeaders, query, queryParams, label, payload, document, responseCode]

def ofName? (s : String) : Option Location := all.find? (·.name = s)

/-- Locations that only a request has. -/
def isRequestOnly (l : Location) : Bool := l = query || l = queryParams || l = label

/-- Locations that only a response has. -/
def isResponseOnly (l : Location) : Bool := l = responseCode

def isHeader (l : Location) : Bool := l = header || l = prefixHeaders

/-- Locations whose values are maps. -/
def isMap (l : Location) : Bool := l = prefixHeaders || l = queryParams

/-- Locations whose values are written as text. -/
def isText (l : Location) : Bool := isHeader l || isRequestOnly l

end Location

/-- The two directions of an exchange. -/
inductive Direction where
  | request
  | response
  deriving DecidableEq, Repr

def Direction.name : Direction → String
  | request => "request"
  | response => "response"

/-- Whether messages of a direction have a location. -/
def Direction.has : Direction → Location → Bool
  | request, l => !l.isResponseOnly
  | response, l => !l.isRequestOnly

end Wireform
