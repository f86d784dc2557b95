import AgsCli.Dispatch.Http
import AgsCli.Dispatch.Path

/-! # Requests for an operation

The lookup of an operation by its id, the HTTP request `execute_operation` sends for it and the
report `dry_run_command` makes instead. -/
namespace Execute

open OrderedMap CatalogueTypes ProtocolError RequestTypes Http PathTemplate

def ScopeEntry.hasAlternateVersions (entry : ScopeEntry) : Bool := 1 < entry.contracts.length

/-- The resource's name, the operation, and whether its scope has other versions. -/
def lookupOperation (schema : ServiceSchema) (operationId : String) :
    Option (String × OperationSchema × Bool) :=
  schema.resources.findSome? fun resource =>
    resource.methods.findSome? fun method =>
      method.scopes.findSome? fun entry =>
        (entry.contracts.find? (·.id = operationId)).map fun contract =>
          (resource.name, contract, ScopeEntry.hasAlternateVersions entry)

structure Runtime where
  baseUrl : String
  accessToken : String
  catalogue : Catalogue

def findOperation (runtime : Runtime) (request : CommandRequest) :
    Except RuntimeError (String × OperationSchema × Bool) :=
  match runtime.catalogue.getOrLoad request.service with
  | .error e => .error e
  | .ok schema =>
    match lookupOperation schema request.operationId with
    | some found => .ok found
    | none => .error (.validation
        s!"Operation '{request.operationId}' not found in service '{request.service}'")

def trimEndSlashes (s : String) : String :=
  String.ofList ((s.toList.reverse.dropWhile (· = '/')).reverse)

variable (w : WordClass)

def buildBaseRequest (baseUrl token : String) (operation : OperationSchema)
    (request : CommandRequest) : Except RuntimeError (String × List (String × String) × HttpRequest) :=
  match substitutePathParams w operation.pathTemplate request.pathParams with
  | .error e => .error e
  | .ok path =>
    let url := trimEndSlashes baseUrl ++ path
    let query := request.queryParams.entries
    .ok (url, query, ⟨operation.httpMethod, url, [("Authorization", bearer token)], query, none⟩)

/-- The request `run_command` sends: `execute_operation` adds the body to the base request. -/
def sentRequest (runtime : Runtime) (request : CommandRequest) : Except RuntimeError HttpRequest :=
  match findOperation runtime request with
  | .error e => .error e
  | .ok (_, operation, _) =>
    match buildBaseRequest w runtime.baseUrl runtime.accessToken operation request with
    | .error e => .error e
    | .ok (_, _, http) => .ok { http with body := request.body }

def dryRunCommand (runtime : Runtime) (request : CommandRequest) :
    Except RuntimeError DryRunResult :=
  match findOperation runtime request with
  | .error e => .error e
  | .ok (_, operation, _) =>
    match substitutePathParams w operation.pathTemplate request.pathParams with
    | .error e => .error e
    | .ok path =>
      .ok { httpMethod := operation.httpMethod
            url := trimEndSlashes runtime.baseUrl ++ path
            headers := [("Authorization", bearer "<token>")]
            query := request.queryParams.entries
            body := request.body }

end Execute
