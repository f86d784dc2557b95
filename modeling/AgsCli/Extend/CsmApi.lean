import AgsCli.Dispatch.Http
import AgsCli.Dispatch.Path
import AgsCli.Protocol.Json
import AgsCli.Support.Strings

/-! # CSM requests

What the `extend` shims ask of CSM, and how its answers become results and errors. The HTTP client
and the JSON reader are parameters. -/
namespace CsmApi

open Json Http Strings ProtocolError PathTemplate

inductive ApiErrorCategory
  | permission
  | notFound
  | rejected
  | timeout
  | upstream
  deriving DecidableEq, Repr

structure ErrorMetadata where
  reason : Option String
  detail : Option String
  suggestion : Option String
  code : Option String
  httpStatus : Option Nat
  deriving DecidableEq, Repr

def ErrorMetadata.withSuggestion (suggestion : String) : ErrorMetadata :=
  { reason := none
    detail := none
    suggestion := some suggestion
    code := none
    httpStatus := none }

inductive CliError
  | usage (message : String) (metadata : Option ErrorMetadata)
  | auth (message : String) (metadata : Option ErrorMetadata)
  | api (message : String) (metadata : Option ErrorMetadata) (category : ApiErrorCategory)
  | network (message : String) (metadata : Option ErrorMetadata)
  | internal (message : String)
  deriving DecidableEq, Repr

namespace CliError

def metadataOf (error : RuntimeError) : ErrorMetadata :=
  let upstream := match error.kind with
    | .upstream status code => (some status, code)
    | _ => (none, none)
  { reason := error.details.bind (·.reason)
    detail := error.details.bind (·.detail)
    suggestion := error.hint
    code := upstream.2.orElse fun _ => error.details.bind (·.code)
    httpStatus := upstream.1 }

def ofRuntime (error : RuntimeError) : CliError :=
  match error.kind with
  | .validation => .usage error.message (metadataOf error)
  | .network => .network error.message (metadataOf error)
  | .responseTooLarge => .api error.message (metadataOf error) .upstream
  | .internal => .internal error.message
  | .notAuthenticated => .auth error.message (metadataOf error)
  | .forbidden => .api error.message (metadataOf error) .permission
  | .notFound => .api error.message (metadataOf error) .notFound
  | .rejected => .api error.message (metadataOf error) .rejected
  | .upstream _ _ => .api error.message (metadataOf error) .upstream

end CliError

/-- A reply whose body may fail to arrive. -/
structure CsmReply where
  status : Nat
  body : Option String
  deriving DecidableEq

/-- `reqwest` and `serde_json`, with the texts of a status and of a body that is not read. -/
structure CsmClient where
  send : HttpRequest → Except String CsmReply
  readJson : String → Option Value
  statusText : Nat → String
  decodeError : String

def isSuccess (status : Nat) : Bool := 200 ≤ status && status < 300

def optionField {α : Type} (body : Value) (name : String) (read : Value → Option α) :
    Option (Option α) :=
  match body.get? name with
  | none | some .null => some none
  | some v => (read v).map some

def number? : Value → Option Number
  | .number n => some n
  | _ => none

section Requests

variable (client : CsmClient)

def extractCsmErrorDetail (body : String) : String :=
  match client.readJson body with
  | some (.object members) =>
    match optionField (.object members) "errorCode" number?,
        optionField (.object members) "errorMessage" Value.asStr? with
    | some code, some message =>
      let parts := (code.map fun code => s!"errorCode {code.render}").toList ++
        (message.filter (· ≠ "")).toList
      if parts.isEmpty then "" else ": " ++ join ": " parts
    | _, _ => ""
  | _ => ""

def csmErrorCode (body : String) : Option Int :=
  match client.readJson body with
  | some (.object members) => (optionField (.object members) "errorCode" Value.asI64?).join
  | _ => none

def getRequest (url accessToken : String) (query : List (String × String)) : HttpRequest :=
  ⟨.get, url, [("Authorization", bearer accessToken)], query, none⟩

end Requests

end CsmApi
