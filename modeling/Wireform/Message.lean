import Wireform.Body.Basic
import Wireform.Headers
import Wireform.Uri.Query

/-
  Wireform messages: requests and responses as they are put together.
-/

namespace Wireform

structure Request where
  method : String
  path : String
  query : List (String × String)
  headers : Headers
  body : Body Source

structure Response where
  status : Int
  headers : Headers
  body : Body Source

namespace Request

def new (method path : String) : Request := ⟨method, path, [], .empty, .ofBytes []⟩

/-- The path with the query. -/
def uri (r : Request) : String := Query.uri r.path r.query

def addQuery (r : Request) (key value : String) : Request :=
  { r with query := r.query ++ [(key, value)] }

end Request

def Response.new (status : Int) : Response := ⟨status, .empty, .ofBytes []⟩

/-- Sets the content type unless there is one, or the body is empty. -/
def Headers.defaultContentType (h : Headers) (body : Body Source) (media : String) : Headers :=
  if h.contains "content-type" || (body.octets?).any List.isEmpty then h
  else h.set "content-type" media

end Wireform
