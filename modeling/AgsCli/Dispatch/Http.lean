import AgsCli.Protocol.Request

/-! # HTTP transport

The requests the dispatch pipeline sends and the tagged responses it gets back. -/
namespace Http

open CatalogueTypes ProtocolError RequestTypes

structure HttpRequest where
  method : HttpMethod
  url : String
  headers : List (String × String)
  query : List (String × String)
  body : Option RequestBody
  deriving DecidableEq

inductive HttpBody
  | text (s : String)
  | binary (contentType : String) (bytes : List UInt8)
  deriving DecidableEq

structure HttpResponse where
  status : Nat
  body : HttpBody
  deriving DecidableEq

/-- `HttpClient::send`, for a transport whose answer depends on the request alone. -/
abbrev HttpClient := HttpRequest → Except RuntimeError HttpResponse

def bearer (token : String) : String := s!"Bearer {token}"

end Http
