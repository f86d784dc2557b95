import AgsCli.Workflow.NestedMerge
import AgsCli.Workflow.Resolve

/-! # Request assembly

`assemble_command_request`: path, query and header parameters, form parts, and the two-pass
body. -/
namespace Assemble

open OrderedMap Json CatalogueTypes ProtocolError WorkflowTypes RequestTypes WorkflowContext
  NestedPath NestedMerge AutoDerive Resolve

def nestedBindingRoots (step : CompiledStep) : List String :=
  (step.inputs.filter fun b => isNestedField b.field).map fun b => rootName b.field

structure NonBodyParams where
  path : BTreeMap String String
  query : BTreeMap String String
  header : BTreeMap String String

def NonBodyParams.empty : NonBodyParams := ⟨.empty, .empty, .empty⟩

def NonBodyParams.put (params : NonBodyParams) (location : ParameterLocation) (name value : String) :
    NonBodyParams :=
  match location with
  | .path => { params with path := params.path.insert name value }
  | .query => { params with query := params.query.insert name value }
  | .header => { params with header := params.header.insert name value }
  | .body | .formData => params

def isNonBody (param : ParameterSchema) : Bool :=
  !(param.location = .body || param.location = .formData)

def collectParams (step : CompiledStep) (scope : StepScope) :
    List ParameterSchema → NonBodyParams → Except RuntimeError NonBodyParams
  | [], params => .ok params
  | param :: rest, params =>
    if !isNonBody param then collectParams step scope rest params
    else
      match resolveFieldValue scope param.name with
      | .error e => .error e
      | .ok (some v) =>
        collectParams step scope rest
          (params.put param.location param.name (jsonToParamString v))
      | .ok none =>
        if param.required then .error (.validation
          s!"step '{step.id}' is missing required parameter '{param.name}'")
        else collectParams step scope rest params

def resolveNonBodyParams (operation : OperationSchema) (step : CompiledStep) (scope : StepScope) :
    Except RuntimeError NonBodyParams :=
  collectParams step scope operation.parameters .empty

inductive FileStatus
  | missing
  | notRegular
  | regular
  deriving DecidableEq, Repr

/-- `Path::file_name`: the last component, none when that is `..` or there is none. -/
def fileName? (path : String) : Option String :=
  let components := (path.toList.splitOn '/').filter fun c => !c.isEmpty && c ≠ ['.']
  match components.getLast? with
  | some c => if c = ['.', '.'] then none else some (String.ofList c)
  | none => none

def validateAndBuildFilePart (files : String → FileStatus) (fieldName rawPath : String) :
    Except RuntimeError FormPart :=
  match files rawPath with
  | .missing => .error (.validation
      s!"form field '{fieldName}': file '{rawPath}' does not exist or is not readable")
  | .notRegular => .error (.validation
      s!"form field '{fieldName}': '{rawPath}' is not a regular file")
  | .regular => .ok (.file fieldName rawPath ((fileName? rawPath).getD "upload"))

def collectFormParts (files : String → FileStatus) (step : CompiledStep) (scope : StepScope) :
    List ParameterSchema → Except RuntimeError (List FormPart)
  | [] => .ok []
  | param :: rest =>
    if param.location ≠ .formData then collectFormParts files step scope rest
    else
      match resolveFieldValue scope param.name with
      | .error e => .error e
      | .ok none =>
        if param.required then .error (.validation
          s!"step '{step.id}' is missing required form field '{param.name}'")
        else collectFormParts files step scope rest
      | .ok (some v) => do
        let asString := jsonToParamString v
        let part ← if param.isFile then validateAndBuildFilePart files param.name asString
          else .ok (.text param.name asString)
        let parts ← collectFormParts files step scope rest
        .ok (part :: parts)

def resolveFormDataParams (files : String → FileStatus) (operation : OperationSchema)
    (step : CompiledStep) (scope : StepScope) : Except RuntimeError (Option (List FormPart)) := do
  let parts ← collectFormParts files step scope operation.parameters
  .ok (if parts.isEmpty then none else some parts)

/-- Pass 1: the schema's top-level fields. A required field may be left to a nested binding. -/
def assembleFields (step : CompiledStep) (scope : StepScope) :
    List BodyField → List (String × Value) → Except RuntimeError (List (String × Value))
  | [], body => .ok body
  | field :: rest, body =>
    match resolveFieldValue scope field.name with
    | .error e => .error e
    | .ok (some v) => assembleFields step scope rest (Entries.insert field.name v body)
    | .ok none =>
      if field.required && !(nestedBindingRoots step).contains field.name then
        .error (.validation s!"step '{step.id}' is missing required body field '{field.name}'")
      else assembleFields step scope rest body

/-- The path of a binding that pass 2 merges: one with separators and several segments. -/
def nestedPath? (field : String) : Option FieldPath :=
  if !isNestedField field then none
  else
    match parse field with
    | .error _ => none
    | .ok path => if path.length ≤ 1 then none else some path

/-- A nested binding's value: the step-local edit of its field, else its source. -/
def resolveNested (scope : StepScope) (binding : StepInputBinding) :
    Except RuntimeError (Option Value) :=
  match scope.stepLocal.get? binding.field with
  | some v => .ok (some v)
  | none => scope.resolveBinding binding.source

def mergeBindings (scope : StepScope) : List StepInputBinding → Value → Except RuntimeError Value
  | [], body => .ok body
  | binding :: rest, body =>
    match nestedPath? binding.field with
    | none => mergeBindings scope rest body
    | some path =>
      match resolveNested scope binding with
      | .error e => .error e
      | .ok none => mergeBindings scope rest body
      | .ok (some v) => mergeBindings scope rest (mergeNestedBinding body path v)

def emptyBodyDefaultOperation : String := "csm/admin/apps/v2/list"

/-- The envelope of the assembled members: nothing, the object, or a one-element array. -/
def wrapBody (operation : OperationSchema) (members : List (String × Value)) : Option Value :=
  let isArrayBody := (operation.requestBody.map (·.isArray)).getD false
  if members.isEmpty then
    if operation.requestBody.isSome && !isArrayBody && operation.id = emptyBodyDefaultOperation then
      some (.object members)
    else none
  else if isArrayBody then some (.array [.object members])
  else some (.object members)

def assembleBody (operation : OperationSchema) (step : CompiledStep) (scope : StepScope)
    (options : RunOptions) : Except RuntimeError (Option Value) :=
  match options.explicitBody with
  | some explicit => .ok (some explicit)
  | none => do
    let fields ← assembleFields step scope operation.bodyFields []
    let body ← mergeBindings scope step.inputs (.object fields)
    .ok (wrapBody operation (membersOf body))

def assembleCommandRequest (files : String → FileStatus) (step : CompiledStep) (ctx : Context)
    (supplied stepLocal : Values) (specs : List WorkflowInputSpec) (serviceSchema : ServiceSchema)
    («namespace» : Option String) (options : RunOptions) : Except RuntimeError CommandRequest := do
  let opRef ← match step.operation with
    | some opRef => .ok opRef
    | none => .error (.internal
        s!"step '{step.id}': API step reached assemble_command_request without an operation")
  let operation ← findOperationOrError serviceSchema opRef s!"step '{step.id}'"
  let scope := stepScope step ctx supplied stepLocal specs
  let params ← resolveNonBodyParams operation step scope
  let formParts ← resolveFormDataParams files operation step scope
  let body ← match formParts with
    | some parts => .ok (some (RequestBody.multipart parts))
    | none => do
      let json ← assembleBody operation step scope options
      .ok (json.map RequestBody.json)
  .ok { service := opRef.service, operationId := opRef.operation, «namespace»
        pathParams := params.path, queryParams := params.query, headerParams := params.header
        body, outputFormat := options.outputFormat, pagination := options.pagination
        verbosity := options.verbosity, output := options.output }

end Assemble
