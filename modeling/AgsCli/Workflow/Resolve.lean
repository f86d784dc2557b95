import AgsCli.Protocol.Request
import AgsCli.Workflow.Compile
import AgsCli.Workflow.Context

/-! # Binding resolution

The inputs a step still needs gathered, template interpolation, transforms, and the resolution
of one binding or one operation field to a value. -/
namespace Resolve

open OrderedMap Json ProtocolError WorkflowTypes RequestTypes WorkflowContext Compile AutoDerive
  JsonPath

abbrev Values := BTreeMap String Value

def inputSpec? (specs : List WorkflowInputSpec) (name : String) : Option WorkflowInputSpec :=
  (BTreeMap.ofList (specs.map fun s => (s.name, s))).get? name

def slotId (needed : List WorkflowInputNeeded) : GatherSlotId := needed.length % 2 ^ 32

def workflowInputSlot (specs : List WorkflowInputSpec) (id : GatherSlotId) (name : String) :
    WorkflowInputNeeded :=
  let spec := inputSpec? specs name
  { id
    label := Strings.kebabLabel name
    description := spec.bind (·.description)
    schema := (spec.bind (·.schema)).getD (typeSchema "string")
    default := spec.bind (·.default)
    required := (spec.map (·.required)).getD true
    sensitive := (spec.map (·.sensitive)).getD false
    scope := .workflowInput name
    location := (spec.map (·.location)).getD .body }

def stepLocalSlot (step : CompiledStep) (id : GatherSlotId) (field : AutoDerivedField)
    (fieldName : String) : WorkflowInputNeeded :=
  { id
    label := s!"{step.id}.{Strings.kebabLabel fieldName}"
    description := field.description
    schema := field.schema
    default := none
    required := field.required
    sensitive := field.sensitive
    scope := .stepLocal fieldName
    location := field.location }

structure NeededState where
  needed : List WorkflowInputNeeded
  seen : List String

/-- `push_workflow_input` for an unsupplied name; a supplied or seen one adds nothing. -/
def pushWorkflowInput (supplied : Values) (specs : List WorkflowInputSpec) (acc : NeededState)
    (name : String) : NeededState :=
  if supplied.contains name || acc.seen.contains name then acc
  else ⟨acc.needed ++ [workflowInputSlot specs (slotId acc.needed) name], name :: acc.seen⟩

def pushAutoDerived (step : CompiledStep) (supplied : Values) (specs : List WorkflowInputSpec)
    (acc : NeededState) (field : AutoDerivedField) : NeededState :=
  match field.scope with
  | .workflowInput name => pushWorkflowInput supplied specs acc name
  | .stepLocal fieldName =>
    { acc with needed := acc.needed ++ [stepLocalSlot step (slotId acc.needed) field fieldName] }

/-- `compute_needed_inputs`: explicit bindings first, then auto-derived fields. -/
def computeNeededInputs (step : CompiledStep) (supplied : Values)
    (specs : List WorkflowInputSpec) : List WorkflowInputNeeded :=
  let bound := (bindingWorkflowInputs step.inputs).foldl (pushWorkflowInput supplied specs) ⟨[], []⟩
  (step.autoDerived.foldl (pushAutoDerived step supplied specs) bound).needed

mutual

/-- `json_to_param_string`: scalars as text, arrays comma-separated, objects as JSON. -/
def jsonToParamString : Value → String
  | .string s => s
  | .number n => n.render
  | .bool b => if b then "true" else "false"
  | .array items => Strings.join "," (paramStrings items)
  | .null => Value.null.render
  | .object members => (Value.object members).render

def paramStrings : List Value → List String
  | [] => []
  | v :: rest => jsonToParamString v :: paramStrings rest

end

inductive QuoteMode
  | plain
  | shellQuoted
  deriving DecidableEq, Repr

def isShellSafe (c : Char) : Bool :=
  Strings.isAsciiLower c || Strings.isAsciiUpper c || Strings.isAsciiDigit c ||
    c = '.' || c = '_' || c = '-'

def shellQuote (s : String) : String :=
  if !s.isEmpty && s.toList.all isShellSafe then s
  else String.ofList (['\''] ++ (s.toList.flatMap fun c =>
    if c = '\'' then ['\'', '\\', '\'', '\''] else [c]) ++ ['\''])

def quoted (mode : QuoteMode) (rendered : String) : String :=
  match mode with
  | .plain => rendered
  | .shellQuoted => shellQuote rendered

def scanTemplate (values : Values) (quote : QuoteMode) :
    List Char → TemplateMode → List Char → Option (List Char)
  | [], .opened, _ | [], .name _, _ => none
  | [], .closed, out => some (out ++ ['}'])
  | [], .text, out => some out
  | c :: rest, .opened, out =>
    if c = '{' then scanTemplate values quote rest .text (out ++ ['{'])
    else if c = '}' then
      match values.get? "" with
      | none => none
      | some v =>
        scanTemplate values quote rest .text (out ++ (quoted quote (jsonToParamString v)).toList)
    else scanTemplate values quote rest (.name [c]) out
  | c :: rest, .name run, out =>
    if c = '}' then
      match values.get? (String.ofList run) with
      | none => none
      | some v =>
        scanTemplate values quote rest .text (out ++ (quoted quote (jsonToParamString v)).toList)
    else scanTemplate values quote rest (.name (run ++ [c])) out
  | c :: rest, .closed, out =>
    if c = '}' then scanTemplate values quote rest .text (out ++ ['}'])
    else if c = '{' then scanTemplate values quote rest .opened (out ++ ['}'])
    else scanTemplate values quote rest .text (out ++ ['}', c])
  | c :: rest, .text, out =>
    if c = '{' then scanTemplate values quote rest .opened out
    else if c = '}' then scanTemplate values quote rest .closed out
    else scanTemplate values quote rest .text (out ++ [c])

/-- `interpolate_template`: nothing when a referenced name is absent. -/
def interpolateTemplate (template : String) (values : Values) (mode : QuoteMode) :
    Option String :=
  (scanTemplate values mode template.toList .text []).map String.ofList

def saturate (n : Int) : Int := max (-2 ^ 63) (min n (2 ^ 63 - 1))

/-- The operand's value; 0 when the input is missing or not a 64-bit integer. -/
def operandValue (supplied : Values) : ArithmeticOperand → Int
  | .integer n => n
  | .workflowInput name => ((supplied.get? name).bind (·.asI64?)).getD 0

def applyArithmetic (arith : ArithmeticTransform) (lhs rhs : Int) : Int :=
  match arith.op with
  | .mul => saturate (lhs * rhs)
  | .add => saturate (lhs + rhs)

def applyOptionalTransform (value : Value) (transform : Option TransformKind)
    (supplied : Values) : Value :=
  match transform with
  | some (.jsonPath path) => (applyJsonpathSubset value path).getD value
  | some (.arithmetic arith) =>
    match value.asI64? with
    | none => value
    | some lhs =>
      .number (.int (applyArithmetic arith lhs (operandValue supplied arith.operand)))
  | none => value

def resolveReference (ctx : Context) (supplied : Values) (r : ReferenceBinding) :
    Except RuntimeError (Option Value) :=
  match r.source with
  | .workflow input =>
    match supplied.get? input with
    | none => .ok none
    | some raw => .ok (some (applyOptionalTransform raw r.transform supplied))
  | .step id =>
    match r.output with
    | none => .error (.internal s!"binding from step '{id}' is missing `output:`")
    | some outputName =>
      match ctx.resolveStepReference id outputName with
      | some raw => .ok (some (applyOptionalTransform raw r.transform supplied))
      | none => .error (.internal
          s!"step output 'step/{id}/{outputName}' was not produced and has no default")

def resolveFormat (supplied : Values) (f : FormatBinding) : Option Value :=
  (interpolateTemplate f.template supplied .plain).map .string

/-- `resolve_binding`: a mirror reads its target's step-local edit, else the target's source. -/
def resolveBinding (ctx : Context) (supplied : Values) (bindings : BTreeMap String BindingSource)
    (stepLocal : Values) (source : BindingSource) : Except RuntimeError (Option Value) :=
  match source with
  | .literal l => .ok (some l.value)
  | .reference r => resolveReference ctx supplied r
  | .format f => .ok (resolveFormat supplied f)
  | .mirror m =>
    match stepLocal.get? m.mirrorOf with
    | some edited => .ok (some edited)
    | none =>
      match bindings.get? m.mirrorOf with
      | none => .error (.internal s!"mirror target '{m.mirrorOf}' is not bound in this step")
      | some (.mirror _) => .error (.internal s!"mirror target '{m.mirrorOf}' is itself a mirror")
      | some (.literal l) => .ok (some l.value)
      | some (.reference r) => resolveReference ctx supplied r
      | some (.format f) => .ok (resolveFormat supplied f)

/-- What the resolvers of one step read: its context, the supplied inputs, its bindings by
field, its step-local values and the workflow's declared input names. -/
structure StepScope where
  ctx : Context
  supplied : Values
  bindings : BTreeMap String BindingSource
  stepLocal : Values
  workflowInputNames : List String

def stepScope (step : CompiledStep) (ctx : Context) (supplied stepLocal : Values)
    (specs : List WorkflowInputSpec) : StepScope :=
  ⟨ctx, supplied, bindingsByField step.inputs, stepLocal, specs.map (·.name)⟩

def StepScope.resolveBinding (scope : StepScope) (source : BindingSource) :
    Except RuntimeError (Option Value) :=
  Resolve.resolveBinding scope.ctx scope.supplied scope.bindings scope.stepLocal source

/-- `resolve_field_value`: step-local, then the binding, then the auto-bound input. -/
def resolveFieldValue (scope : StepScope) (fieldName : String) :
    Except RuntimeError (Option Value) :=
  match scope.stepLocal.get? fieldName with
  | some v => .ok (some v)
  | none =>
    match scope.bindings.get? fieldName with
    | some source => scope.resolveBinding source
    | none =>
      if scope.workflowInputNames.contains fieldName then .ok (scope.supplied.get? fieldName)
      else .ok none

/-- `resolve_local_step_bindings`: every binding of a local step, without step-local values. -/
def resolveLocalStepBindings (step : CompiledStep) (ctx : Context) (supplied : Values) :
    Except RuntimeError Values := do
  let resolved ← Checks.collect (fun b : StepInputBinding => do
    let value ← Resolve.resolveBinding ctx supplied (bindingsByField step.inputs) .empty b.source
    .ok (value.map fun v => (b.field, v))) step.inputs
  .ok (.ofList (resolved.filterMap id))

def resolveCompletion (completion : Option WorkflowCompletion) (supplied : Values) :
    Option WorkflowCompletionView :=
  completion.map fun c =>
    { created := c.created.map fun r =>
        ⟨r.label, (interpolateTemplate r.value supplied .plain).getD ""⟩
      nextSteps := c.nextSteps.map fun s =>
        ⟨s.description, (interpolateTemplate s.command supplied .shellQuoted).getD ""⟩ }

end Resolve
