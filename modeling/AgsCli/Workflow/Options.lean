import AgsCli.Dispatch.PageMergers
import AgsCli.Library.Leading
import AgsCli.Support.Casing
import AgsCli.Workflow.AutoDerive
import AgsCli.Workflow.JsonPath
import AgsCli.Workflow.Resolve
import Mathlib.Data.Prod.Lex

/-! # Options of an input

The choices offered for an input: the rows of a list operation, filtered, projected to labels and
values, sorted and cut off. -/
namespace Options

open OrderedMap Json CatalogueTypes ProtocolError RequestTypes WorkflowTypes Http PathTemplate
open PageRequests Execute JsonPath Strings

def optionItemCap : ℕ := 500

structure OptionChoice where
  label : String
  value : String
  deriving DecidableEq, Repr

structure ResolvedOptions where
  choices : List OptionChoice
  truncated : Bool
  deriving DecidableEq, Repr

section Requests

def locationOf (operation : OperationSchema) (name : String) : ParameterLocation :=
  ((operation.parameters.find? fun p => p.name = name).map (·.location)).getD .query

/-- The value of a binding; nothing for an input that is not there. -/
def bindingValue (inputs : BTreeMap String Value) : OptionParameterBinding → Option Value
  | .fromInput name | .fromInputOptional name => inputs.get? name
  | .literal v => some v

def placeParameter (operation : OperationSchema) (inputs : BTreeMap String Value)
    (request : CommandRequest) (parameter : String × OptionParameterBinding) : CommandRequest :=
  match bindingValue inputs parameter.2 with
  | none => request
  | some value =>
    let text := Resolve.jsonToParamString value
    match locationOf operation parameter.1 with
    | .path => { request with pathParams := request.pathParams.insert parameter.1 text }
    | .header => { request with headerParams := request.headerParams.insert parameter.1 text }
    | .query | .body | .formData =>
      { request with queryParams := request.queryParams.insert parameter.1 text }

def inputText (inputs : BTreeMap String Value) (name : String) : Option String :=
  (inputs.get? name).bind Value.asStr?

def buildOptionsRequest (operation : OperationSchema) (source : OptionsSource)
    (inputs : BTreeMap String Value) : CommandRequest :=
  source.parameters.foldl (placeParameter operation inputs)
    { service := source.operation.service
      operationId := source.operation.operation
      «namespace» := inputText inputs "namespace"
      pathParams := ∅, queryParams := ∅, headerParams := ∅, body := none
      outputFormat := .json, pagination := .all, verbosity := .quiet, output := none }

end Requests

section Projections

def scalarToString : Value → Option String
  | .string s => some s
  | .number n => some n.render
  | .bool b => some (if b then "true" else "false")
  | .object _ | .array _ | .null => none

def textAt (elem : Value) (path : String) : Option String :=
  ((applyJsonpathSubset elem path).bind scalarToString).filter fun s => !(trim s).isEmpty

/-- The path of the label detail, fixed or chosen by an input. -/
def detailPath (source : OptionsSource) (inputs : BTreeMap String Value) : Option String :=
  match source.labelDetail with
  | some (.path p) => some p
  | some (.byInput input paths) =>
    (inputText inputs input).bind fun val => Entries.lookup val paths
  | none => none

def passes (source : OptionsSource) (elem : Value) : Bool :=
  source.filter.all fun filter => applyJsonpathSubset elem filter.path = some filter.equals

def projectChoice (source : OptionsSource) (detail : Option String) (elem : Value) :
    Option OptionChoice :=
  if passes source elem then
    ((applyJsonpathSubset elem source.value).bind scalarToString).map fun value =>
      let label := (source.label.bind (textAt elem)).getD value
      match detail.bind (textAt elem) with
      | some text => ⟨s!"{label} ({text})", value⟩
      | none => ⟨label, value⟩
  else none

def projected (source : OptionsSource) (inputs : BTreeMap String Value) (rows : List Value) :
    List OptionChoice :=
  rows.filterMap (projectChoice source (detailPath source inputs))

/-- By the label in lower case, then by the value. -/
def choiceKey (table : Casing.CaseTable) (choice : OptionChoice) : String ×ₗ String :=
  toLex (String.ofList (Casing.toLowercase table choice.label.toList), choice.value)

def sortChoices (table : Casing.CaseTable) (choices : List OptionChoice) : List OptionChoice :=
  Leading.sortBy (choiceKey table) choices

def capChoices (choices : List OptionChoice) : ResolvedOptions :=
  if optionItemCap < choices.length then ⟨choices.take optionItemCap, true⟩ else ⟨choices, false⟩

end Projections

section Fetching

variable (w : WordClass) (service : Service) (parse : String → Except String Value)
  (classify : Nat → String → RuntimeError)

def fetchRawBody (baseUrl token : String) (operation : OperationSchema) (request : CommandRequest)
    (itemsPath : String) : Except RuntimeError Value :=
  match buildBaseRequest w baseUrl token operation request with
  | .error e => .error e
  | .ok (url, query, http) =>
    match service [] http with
    | .error e => .error e
    | .ok ⟨status, .binary contentType bytes⟩ =>
      let size := bytes.length
      .error (Pagination.upstream status
        s!"options fetch returned a binary body ({contentType}, {size} bytes)")
    | .ok ⟨status, .text bodyText⟩ =>
      if ¬(200 ≤ status ∧ status < 300) then .error (classify status bodyText)
      else
        match parse bodyText with
        | .error e => .error (.internal s!"options fetch returned a non-JSON body: {e}")
        | .ok value =>
          (PageMergers.fetchAllPagesAtPath service parse url token operation value query 0
            itemsPath [http]).1

def fetchOptionsBody (runtime : Runtime) (request : CommandRequest) (itemsPath : String) :
    Except RuntimeError Value :=
  match Execute.findOperation runtime request with
  | .error e => .error e
  | .ok (_, operation, _) =>
    fetchRawBody w service parse classify runtime.baseUrl runtime.accessToken operation request
      itemsPath

structure Asker where
  profile : String
  accessTokenSource : String

/-- The error of a fetch with the request it is of. -/
def describeFetch (runtime : Runtime) (asker : Asker) (operation : OperationSchema)
    (inputs : BTreeMap String Value) (err : RuntimeError) : RuntimeError :=
  let displayPath := replacePlaceholder w "namespace" ((inputText inputs "namespace").getD "?")
    operation.pathTemplate
  let base := trimEndSlashes runtime.baseUrl
  let whose := s!"profile={asker.profile} token={asker.accessTokenSource}"
  .internal s!"{whose} GET {base}{displayPath} :: {err.message}"

variable (table : Casing.CaseTable)

/-- The runtime is the resolver's own, its token fresh. -/
def resolveOptions (runtime : Runtime) (asker : Asker) (source : OptionsSource)
    (inputs : BTreeMap String Value) : Except RuntimeError ResolvedOptions :=
  match runtime.catalogue.getOrLoad source.operation.service with
  | .error e => .error e
  | .ok serviceSchema =>
    match AutoDerive.findOperationOrError serviceSchema source.operation "options_source" with
    | .error e => .error e
    | .ok operation =>
      match fetchOptionsBody w service parse classify runtime
          (buildOptionsRequest operation source inputs) source.itemsPath with
      | .error err => .error (describeFetch w runtime asker operation inputs err)
      | .ok body =>
        let rows := match applyJsonpathSubset body source.itemsPath with
          | some (.array items) => items
          | _ => []
        .ok (capChoices (sortChoices table (projected source inputs rows)))

end Fetching

end Options
