import AgsCli.Library.ByteSlices
import AgsCli.Protocol.Error
import AgsCli.Protocol.Json
import AgsCli.Support.Casing

/-! # Error classification

What the CLI tells the user about an API error response. A slice that is cut inside a character or
beyond the end panics: there is no result then. -/
namespace Classify

open ByteSlices Casing Json ProtocolError Strings

inductive SuggestionKind
  | fix
  | next
  | info
  deriving DecidableEq, Repr

structure ErrorMetadata where
  reason : Option String := none
  detail : Option String := none
  suggestion : Option String := none
  suggestionKind : SuggestionKind := .fix
  tip : Option String := none
  deriving DecidableEq, Repr

structure ErrorMapping where
  message : String
  reason : Option String
  suggestion : Option String
  tip : Option String
  deriving DecidableEq, Repr

/-- The curated messages, by service and error code. -/
abbrev LookupError := String → Int → Option ErrorMapping

def errorMessage? (body : Value) : Option String := (body.get? "errorMessage").bind Value.asStr?

def errorCode? (body : Value) : Option Int := (body.get? "errorCode").bind Value.asI64?

def reportedCode (body : Value) : Option String :=
  ((errorCode? body).filter (· ≠ 0)).map fun n => s!"{n}"

def deriveRuntimeErrorKind (status : Nat) (body : Value) : RuntimeErrorKind :=
  match status with
  | 401 => .notAuthenticated
  | 403 => .forbidden
  | 404 => .notFound
  | 400 | 422 => .rejected
  | s => .upstream s (reportedCode body)

/-- Without the trailing `userID` fragment. -/
def stripUserIdSuffix (message : String) : Option String :=
  match find ", userID: ".toList message.toList with
  | none => some message
  | some pos => (cut pos message.toList).map fun parts =>
    let cleaned := trimEndMatches '.' (String.ofList parts.1)
    if cleaned.isEmpty then message else cleaned

def qualifiers : List String := ["by", "for", "with", "from", "of"]

/-- The object part of a method behind its verb. -/
def nounAfter (after resourceNoun : String) : String :=
  let firstWord := (splitOn '-' after).headD ""
  if qualifiers.contains firstWord then resourceNoun
  else if firstWord = "my" then
    let rest := (stripPrefix? "my" after).getD after
    let rest := (stripPrefix? "-" rest).getD rest
    if rest.isEmpty then resourceNoun else kebabCaseToWords rest
  else kebabCaseToWords after

variable (table : CaseTable) (lookupError : LookupError)

def operationFailedHeadline (method resource : String) : Option String :=
  let verb := (splitOn '-' method).headD method
  let resourceNoun := kebabCaseToWords (singularize resource)
  let noun : Option String := match find ['-'] method.toList with
    | none => some resourceNoun
    | some pos => (cut (pos + 1) method.toList).map fun parts =>
      nounAfter (String.ofList parts.2) resourceNoun
  noun.map fun noun =>
    let phrase := s!"{verb} {noun}"
    s!"{capitalizeFirst table phrase} failed"

def genericPlaceholders : List String :=
  ["error", "internal error", "bad request", "unknown error", "validation error"]

/-- Texts are compared without the spaces around them, trailing full stops and case. -/
def normalize (s : String) : String :=
  String.ofList (toLowercase table (trimEndMatches '.' (trim s)).toList)

def isInformativeServerMessage (clean curatedMessage : String) (curatedReason : Option String) :
    Bool :=
  let c := normalize table clean
  if c.isEmpty then false
  else if genericPlaceholders.contains c then false
  else if c = normalize table curatedMessage then false
  else match curatedReason with
    | some reason => c ≠ normalize table reason
    | none => true

def separators : List (List Char) := ["details:".toList, "detail:".toList]

def sentence (text : String) : String :=
  let capitalized := capitalizeFirst table text
  if endsWith "." capitalized then capitalized else capitalized ++ "."

def splitValidationErrorMessage (raw : String) : Option (String × Option String) :=
  let lower := toLowercase table raw.toList
  match separators.findSome? fun separator => (find separator lower).map (·, separator) with
  | some (pos, separator) =>
    (cut pos raw.toList).bind fun front =>
      (cut (pos + separator.length) raw.toList).map fun back =>
        let before := trim (trimEndMatches ',' (trim (String.ofList front.1)))
        let after := trim (String.ofList back.2)
        (if before.isEmpty then "Validation error"
          else trimEndMatches '.' (capitalizeFirst table before),
          if after.isEmpty then none else some (sentence table after))
  | none =>
    if (find "validation error".toList lower).isSome then
      some ("Validation error", some (sentence table raw))
    else some (trimEndMatches '.' (capitalizeFirst table raw), none)

def sanitizedMessage (body : Value) : String :=
  stripTerminalControlSequences ((errorMessage? body).getD "")

def classifyByHttpStatus (status : Nat) (body : Value) (service resource : String)
    (cleanMessage detail : Option String) : Option (String × Option ErrorMetadata) :=
  match status with
  | 401 => some ("Request was not authorized",
      some { reason := cleanMessage, detail, suggestion := some "Run 'ags auth login'." })
  | 403 => some ("You do not have permission for this operation",
      some { reason := cleanMessage, detail,
             suggestion :=
               some "Check that your account has the required role and permissions." })
  | 404 =>
    let singular := kebabCaseToWords (singularize resource)
    some (s!"{capitalizeFirst table singular} not found",
      some { reason := cleanMessage, detail,
             suggestion := some s!"Run 'ags {service} {resource} --help' to see available methods.",
             suggestionKind := .next })
  | 409 => some ("Update rejected — resource has changed",
      some { reason := cleanMessage, detail,
             suggestion := some "Fetch the latest version and retry." })
  | 429 => some ("Too many requests",
      some { reason := cleanMessage, detail, suggestion := some "Wait a moment and retry." })
  | 406 => some ("This operation requires a JSON request body",
      some { reason := cleanMessage, detail,
             suggestion := some "Pass --json '\x7b\x7d' (or a filter body) and retry." })
  | 400 | 422 =>
    let raw := sanitizedMessage body
    let split := if raw.isEmpty then
        some ("Validation error", some "The request was invalid.")
      else splitValidationErrorMessage table raw
    split.map fun told => (told.1,
      some { reason := told.2, detail,
             suggestion := some "Check the request fields and retry." })
  | 501 => some ("Not implemented",
      some { reason := some "This operation is not yet supported by the API.", detail,
             tip := some "This endpoint may be available in a future API version." })
  | status =>
    if 500 ≤ status then
      some ("Server error",
        some { reason := cleanMessage, detail, suggestion := some "Retry the command." })
    else some (cleanMessage.getD s!"HTTP {status} error",
      detail.map fun d => { detail := some d })

/-- A curated message, or the server's own where it says more. -/
def classifyByMapping (mapping : ErrorMapping) (resource method : String)
    (cleanMessage detail : Option String) : Option (String × Option ErrorMetadata) :=
  match cleanMessage.filter fun clean =>
    isInformativeServerMessage table clean mapping.message mapping.reason with
  | some clean => (operationFailedHeadline table method resource).map fun headline => (headline,
      some { reason := some clean, detail := detail.map fun d => s!"{d} ({mapping.message})" })
  | none => some (mapping.message,
      some { reason := mapping.reason.or cleanMessage, detail, suggestion := mapping.suggestion,
             tip := mapping.tip })

/-- The server's message without its `userID` fragment, where there is one. -/
def cleanMessage (body : Value) : Option (Option String) :=
  match errorMessage? body with
  | none => some none
  | some message =>
    (stripUserIdSuffix message).map fun text => some (stripTerminalControlSequences text)

def isValidationStatus (status : Nat) : Bool := status = 400 || status = 422

def classifyErrorMessageAndMetadata (status : Nat) (body : Value)
    (service resource method : String) : Option (String × Option ErrorMetadata) :=
  let errorCode := (errorCode? body).getD 0
  let detail := if errorCode ≠ 0 then some s!"Error code {errorCode}" else none
  let raw := sanitizedMessage body
  let lower := toLowercase table raw.toList
  if isValidationStatus status && separators.any fun separator => (find separator lower).isSome then
    (splitValidationErrorMessage table raw).map fun told => (told.1,
      some { reason := told.2, detail,
             suggestion := some "Check the request fields and retry." })
  else
    (cleanMessage body).bind fun clean =>
      match lookupError service errorCode with
      | some mapping => classifyByMapping table mapping resource method clean detail
      | none => classifyByHttpStatus table status body service resource clean detail

def classifyToRuntimeError (status : Nat) (body : Value) (service resource method : String) :
    Option RuntimeError :=
  (classifyErrorMessageAndMetadata table lookupError status body service resource method).map
    fun told =>
      { kind := deriveRuntimeErrorKind status body
        message := told.1
        details := told.2.map fun m =>
          { code := reportedCode body, reason := m.reason, detail := m.detail }
        hint := told.2.bind (·.suggestion) }

end Classify
