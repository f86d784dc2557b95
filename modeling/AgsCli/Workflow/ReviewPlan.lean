import AgsCli.Workflow.NestedMerge
import AgsCli.Workflow.Resolve

/-! # Review plan

`resolve_step_fields`: the editable rows of a step, each with its value and provenance. -/
namespace ReviewPlan

open OrderedMap Json CatalogueTypes ProtocolError WorkflowTypes WorkflowContext NestedPath
  NestedMerge Compile AutoDerive Resolve

def pushUnique (sources : List String) (name : String) : List String :=
  if sources.contains name then sources else sources ++ [name]

/-- `collect_binding_sources`: the input names added, and whether the source is a literal. -/
def collectBindingSources (source : BindingSource) (sources : List String) :
    List String × Bool :=
  match source with
  | .literal _ => (sources, true)
  | .reference r =>
    match r.source with
    | .workflow input =>
      let sources := pushUnique sources input
      match r.transform with
      | some (.arithmetic ⟨_, .workflowInput opName⟩) => (pushUnique sources opName, false)
      | _ => (sources, false)
    | .step _ => (sources, false)
  | .format f => ((placeholdersOrEmpty f.template).foldl pushUnique sources, false)
  | .mirror _ => (sources, false)

def classifyBindingSource (source : BindingSource) (transform : Option TransformKind) :
    StepFieldSource :=
  match source with
  | .format f => .derived (placeholdersOrEmpty f.template)
  | .reference r =>
    match r.source, transform with
    | .workflow input, some (.arithmetic arith) =>
      match arith.operand with
      | .workflowInput opName => .derived [input, opName]
      | .integer _ => .derived [input]
    | .workflow input, _ => .workflowInput input
    | .step _, _ => .priorOutput
  | .literal _ => .literal
  | .mirror _ => .literal

structure FieldResolution where
  value : Option Value
  source : StepFieldSource
  workflowInput : Option String

structure Synthesis where
  value : Value
  sources : List String
  hasNested : Bool
  allLiteral : Bool

/-- The tail of a multi-segment path that starts at `fieldName`. -/
def subPath? (fieldName field : String) : Option FieldPath :=
  match parse field with
  | .ok (.key k :: s :: rest) => if k = fieldName then some (s :: rest) else none
  | _ => none

def synthesizeFrom (scope : StepScope) (fieldName : String) :
    List StepInputBinding → Synthesis → Except RuntimeError Synthesis
  | [], acc => .ok acc
  | binding :: rest, acc =>
    match subPath? fieldName binding.field with
    | none => synthesizeFrom scope fieldName rest acc
    | some path =>
      match scope.resolveBinding binding.source with
      | .error e => .error e
      | .ok resolved =>
        let value := match resolved with
          | some v => mergeNestedBinding acc.value path v
          | none => acc.value
        let (sources, isLiteral) := collectBindingSources binding.source acc.sources
        synthesizeFrom scope fieldName rest ⟨value, sources, true, acc.allLiteral && isLiteral⟩

/-- `synthesize_nested_field`: the value shown for a field that only nested bindings set. -/
def synthesizeNestedField (scope : StepScope) (fieldName : String)
    (stepBindings : List StepInputBinding) : Except RuntimeError (Option FieldResolution) :=
  match synthesizeFrom scope fieldName stepBindings ⟨.null, [], false, true⟩ with
  | .error e => .error e
  | .ok acc =>
    if !acc.hasNested then .ok none
    else
      let provenance := if acc.allLiteral || acc.sources.isEmpty then StepFieldSource.literal
        else .derived acc.sources
      .ok (some ⟨if acc.value = .null then none else some acc.value, provenance, none⟩)

/-- Provenance of a value that came from the workflow input `name`. -/
def inputSource (defaultNames : List String) (name : String) : StepFieldSource :=
  if defaultNames.contains name then .default name else .workflowInput name

/-- The row of a bound field, from its binding's source and resolved value. -/
def boundResolution (defaultNames : List String) (source : BindingSource)
    (value : Option Value) : FieldResolution :=
  match source with
  | .mirror _ => ⟨value, .literal, none⟩
  | .literal _ => ⟨value, .literal, none⟩
  | .reference r =>
    match r.source with
    | .workflow _ =>
      let src := if value.isSome || r.transform.isSome then
          match classifyBindingSource source r.transform with
          | .workflowInput name => inputSource defaultNames name
          | classified => classified
        else .unset
      let wfInput := match src with
        | .workflowInput name | .default name => some name
        | _ => none
      ⟨value, src, wfInput⟩
    | .step _ => ⟨value, .priorOutput, none⟩
  | .format _ => ⟨value, classifyBindingSource source none, none⟩

def resolveFieldWithSource (scope : StepScope) (stepBindings : List StepInputBinding)
    (defaultNames : List String) (fieldName : String) : Except RuntimeError FieldResolution :=
  match scope.stepLocal.get? fieldName with
  | some v => .ok ⟨some v, .literal, none⟩
  | none =>
    match scope.bindings.get? fieldName with
    | some source =>
      match scope.resolveBinding source with
      | .error e => .error e
      | .ok value => .ok (boundResolution defaultNames source value)
    | none =>
      if scope.workflowInputNames.contains fieldName then
        match scope.supplied.get? fieldName with
        | some v => .ok ⟨some v, inputSource defaultNames fieldName, some fieldName⟩
        | none => .ok ⟨none, .unset, some fieldName⟩
      else
        match synthesizeNestedField scope fieldName stepBindings with
        | .error e => .error e
        | .ok (some result) => .ok result
        | .ok none => .ok ⟨none, .unset, none⟩

/-- `split_once('.')`, else `split_once('[')`, else the whole field. -/
def reviewRoot (field : String) : String :=
  if field.toList.contains '.' then String.ofList (field.toList.takeWhile (· ≠ '.'))
  else String.ofList (field.toList.takeWhile (· ≠ '['))

def boundRoots (step : CompiledStep) : List String := step.inputs.map fun b => reviewRoot b.field

/-- Whether a top-level binding of the root is marked for review. -/
def showInReviewByRoot (step : CompiledStep) (root : String) : Bool :=
  step.inputs.any fun b => !isNestedField b.field && b.field = root && b.showInReview

def topLevelBinding? (step : CompiledStep) (fieldName : String) : Option StepInputBinding :=
  (BTreeMap.ofList ((step.inputs.filter fun b => !isNestedField b.field).map fun b =>
    (b.field, b))).get? fieldName

def findWorkflowInputDescription (step : CompiledStep) (specs : List WorkflowInputSpec)
    (fieldName : String) : Option String := do
  let binding ← topLevelBinding? step fieldName
  match binding.source with
  | .reference { source := .workflow input, transform, .. } =>
    match transform with
    | some (.arithmetic _) => none
    | _ => (← specs.find? (·.name = input)).description
  | _ => none

/-- Rows pushed so far; their names are the ones seen. -/
structure PlanState where
  fields : List StepField
  seen : List String

/-- `push`: one row per name, the later ones of a name dropped. -/
def pushField (scope : StepScope) (stepBindings : List StepInputBinding)
    (defaultNames : List String) (acc : PlanState) (name : String) (description : Option String)
    (location : StepFieldLocation) (schema : Value) (required showInReview : Bool) :
    Except RuntimeError PlanState :=
  if acc.seen.contains name then .ok acc
  else
    match resolveFieldWithSource scope stepBindings defaultNames name with
    | .error e => .error e
    | .ok r => .ok
        { fields := acc.fields ++ [
            { id := acc.fields.length, field := name, label := Strings.kebabLabel name
              description, location, schema, value := r.value.getD .null, source := r.source
              required, workflowInput := r.workflowInput, bodyOverflow := false, showInReview }]
          seen := name :: acc.seen }

def pushParams (step : CompiledStep) (scope : StepScope) (specs : List WorkflowInputSpec)
    (defaultNames : List String) :
    List ParameterSchema → PlanState → Except RuntimeError PlanState
  | [], acc => .ok acc
  | param :: rest, acc =>
    if param.location = .body then pushParams step scope specs defaultNames rest acc
    else
      let description := if param.isFile then some "Path to local file to upload"
        else (findWorkflowInputDescription step specs param.name).or param.description
      match pushField scope step.inputs defaultNames acc param.name description
          (locationOf param.location) (parameterSchema param) param.required
          (showInReviewByRoot step param.name) with
      | .error e => .error e
      | .ok acc => pushParams step scope specs defaultNames rest acc

/-- A body field with a row of its own: bound, auto-bindable or required. -/
def isIndividual (step : CompiledStep) (scope : StepScope) (field : BodyField) : Bool :=
  (scope.bindings.get? field.name).isSome || (boundRoots step).contains field.name ||
    scope.workflowInputNames.contains field.name || field.required

/-- Rows for the individual fields; the others are collected for the overflow row. -/
def pushBodyFields (step : CompiledStep) (scope : StepScope) (specs : List WorkflowInputSpec)
    (defaultNames : List String) :
    List BodyField → PlanState → List BodyField → Except RuntimeError (PlanState × List BodyField)
  | [], acc, overflow => .ok (acc, overflow)
  | field :: rest, acc, overflow =>
    if isIndividual step scope field then
      match pushField scope step.inputs defaultNames acc field.name
          ((findWorkflowInputDescription step specs field.name).or field.description) .body
          (bodyFieldSchema field) field.required (showInReviewByRoot step field.name) with
      | .error e => .error e
      | .ok acc => pushBodyFields step scope specs defaultNames rest acc overflow
    else if acc.seen.contains field.name then
      pushBodyFields step scope specs defaultNames rest acc overflow
    else pushBodyFields step scope specs defaultNames rest acc (overflow ++ [field])

def overflowField (id : StepFieldId) (overflow : List BodyField) : StepField :=
  let names := Strings.join ", " (overflow.map (·.name))
  { id, field := "", label := "Additional Parameters"
    description := some s!"Optional body fields you can add: {names}"
    location := .body
    schema := .ofPairs [("type", .string "object"),
      ("properties", .ofPairs (overflow.map fun f => (f.name, bodyFieldSchema f)))]
    value := .object [], source := .unset, required := false, workflowInput := none
    bodyOverflow := true, showInReview := false }

def withOverflow (acc : PlanState) (overflow : List BodyField) : List StepField :=
  if overflow.isEmpty then acc.fields
  else acc.fields ++ [overflowField acc.fields.length overflow]

def literalSchema : Value → Value
  | .bool _ => typeSchema "boolean"
  | .number n => if (Value.asI64? (.number n)).isSome then typeSchema "integer"
    else typeSchema "number"
  | .string _ => typeSchema "string"
  | .array _ => typeSchema "array"
  | .object _ => typeSchema "object"
  | .null => typeSchema "string"

def lastKey? (path : FieldPath) : Option String :=
  path.reverse.findSome? fun s =>
    match s with
    | .key name => some name
    | .index _ => none

def nestedLiteralField? (stepLocal : Values) (id : StepFieldId) (binding : StepInputBinding) :
    Option StepField :=
  if !isNestedField binding.field || !binding.showInReview then none
  else
    match binding.source, parse binding.field with
    | .literal l, .ok path => some
        { id, field := binding.field, label := (lastKey? path).getD (rootName binding.field)
          description := binding.description, location := .body, schema := literalSchema l.value
          value := (stepLocal.get? binding.field).getD l.value, source := .literal
          required := false, workflowInput := none, bodyOverflow := false, showInReview := true }
    | _, _ => none

def pushNestedLiterals (stepLocal : Values) : List StepInputBinding → List StepField →
    List StepField
  | [], fields => fields
  | binding :: rest, fields =>
    match nestedLiteralField? stepLocal fields.length binding with
    | some field => pushNestedLiterals stepLocal rest (fields ++ [field])
    | none => pushNestedLiterals stepLocal rest fields

def resolveStepFields (step : CompiledStep) (ctx : Context) (supplied stepLocal : Values)
    (specs : List WorkflowInputSpec) (serviceSchema : ServiceSchema)
    (defaultNames : List String) : Except RuntimeError StepFieldPlan := do
  let opRef ← match step.operation with
    | some opRef => .ok opRef
    | none => .error (.internal
        s!"step '{step.id}': API step reached resolve_step_fields without an operation")
  let operation ← findOperationOrError serviceSchema opRef s!"step '{step.id}'"
  let scope := stepScope step ctx supplied stepLocal specs
  let params ← pushParams step scope specs defaultNames operation.parameters ⟨[], []⟩
  let (acc, overflow) ←
    pushBodyFields step scope specs defaultNames operation.bodyFields params []
  .ok { stepIndex := step.index, stepLabel := step.id, stepDescription := step.description
        fields := pushNestedLiterals stepLocal step.inputs (withOverflow acc overflow)
        optional := step.isOptional }

end ReviewPlan
