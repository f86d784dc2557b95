import AgsCli.Invocation.CliInputs
import AgsCli.Dispatch.WireParameters

/-! # Service commands with an explicit body

`route_service` on a `--json` body: the request its one step assembles, what the gather answer
adds to the pre-supplied inputs, and when body and parameter flags stay separate. -/
namespace ServiceRoute

open OrderedMap Json CatalogueTypes ProtocolError WorkflowTypes RequestTypes WorkflowContext
  AutoDerive Resolve Assemble RunInputs NeededInputs Synthesised CliInputs WireParameters

def needed (step : CompiledStep) (specs : List WorkflowInputSpec) (supplied : Values) :
    List WorkflowInputNeeded :=
  computeNeededInputs step (seedDefaults specs supplied []).1 specs

/-- The maps a step assembles from: defaults over the pre-supplied inputs, then the answer. -/
def gathered (step : CompiledStep) (specs : List WorkflowInputSpec) (supplied : Values)
    (answer : Option GatherResult) : Gathered :=
  let seeded := (seedDefaults specs supplied []).1
  match answer with
  | none => ⟨seeded, .empty⟩
  | some result => applyGathered (computeNeededInputs step seeded specs) result seeded .empty

/-- The request of a one-step run, `answer` being what the frontend gathered. -/
def serviceRequest (files : String → FileStatus) (compiled : CompiledWorkflow)
    (step : CompiledStep) (supplied : Values) (schema : ServiceSchema)
    («namespace» : Option String) (options : RunOptions) (answer : Option GatherResult) :
    Except RuntimeError CommandRequest :=
  let maps := gathered step compiled.inputs supplied answer
  assembleCommandRequest files step .new maps.supplied maps.stepLocal compiled.inputs schema
    «namespace» options

def edits (answer : Option GatherResult) : Values :=
  match answer with
  | none => .empty
  | some result => result.inputOverrides

def answerTo (slots : List WorkflowInputNeeded) (answer : Option GatherResult) (name : String) :
    Option Value :=
  match answer with
  | none => none
  | some result =>
    (slots.find? fun entry => inputName? entry = some name).bind fun entry =>
      result.slotValues.get? entry.id

section Maps

variable {specs : List WorkflowInputSpec} {step : CompiledStep} {supplied : Values}

end Maps

section Assembly

variable {files : String → FileStatus} {step : CompiledStep} {ctx : Context}
  {supplied stepLocal : Values} {specs : List WorkflowInputSpec} {schema : ServiceSchema}
  {«namespace» : Option String} {options : RunOptions} {request : CommandRequest}
  {operation : OperationSchema} {opRef : OperationReference} {value : Value}

end Assembly

section Separation

variable (readers : Readers) (compiled : CompiledWorkflow) (operation : OperationSchema)
  (args : String → Option String) (value : Value) (answer : Option GatherResult)

def flagText (param : ParameterSchema) (raw : String) : String :=
  jsonToParamString (coerceCliValue readers raw (some (parameterSchemaValue param)))

def supplies (param : ParameterSchema) : Option Value :=
  (preSupplied readers compiled operation args (some value)).get? param.name

/-- The edit of a parameter; a form that gives back what it was filled with edits nothing. -/
def changed (param : ParameterSchema) : Option Value :=
  ((edits answer).get? param.name).filter fun v =>
    supplies readers compiled operation args value param ≠ some v

variable {readers compiled operation args value answer} in
theorem changed_edit {param : ParameterSchema} {v : Value}
    (h : (edits answer).get? param.name = some v) :
    changed readers compiled operation args value answer param =
      if supplies readers compiled operation args value param = some v then none else some v := by
  rw [changed, h]
  by_cases hecho : supplies readers compiled operation args value param = some v
  · rw [if_pos hecho]
    simp [Option.filter, hecho]
  · rw [if_neg hecho]
    simp [Option.filter, hecho]

variable {readers compiled operation args value} in
/-- Where nothing is pre-supplied, every edit is a change. -/
theorem changed_unsupplied {param : ParameterSchema}
    (h : supplies readers compiled operation args value param = none) :
    changed readers compiled operation args value answer param =
      (edits answer).get? param.name := by
  cases hedit : (edits answer).get? param.name with
  | none => rw [changed, hedit, Option.filter_none]
  | some v => rw [changed_edit hedit, h, if_neg (Option.some_ne_none v).symm]

def answered (step : CompiledStep) (param : ParameterSchema) : Option Value :=
  answerTo (needed step compiled.inputs (preSupplied readers compiled operation args (some value)))
    answer param.name

/-- What is gathered for a parameter: an edit, an answer to its slot, or its own default. -/
def given (step : CompiledStep) (param : ParameterSchema) : Option Value :=
  (changed readers compiled operation args value answer param).or
    ((answered readers compiled operation args value answer step param).or param.default)

/-- A parameter is sent as what is gathered for it, which is no null, and nothing else was
pre-supplied. -/
structure Gathers (step : CompiledStep) (request : CommandRequest) (param : ParameterSchema) :
    Prop where
  unfilled : changed readers compiled operation args value answer param = none →
    supplies readers compiled operation args value param = none
  sent : ∃ v, given readers compiled operation args value answer step param = some v ∧ v ≠ .null ∧
    (paramsAt request param.location).get? param.name = some (jsonToParamString v)

/-- The body is sent as given, each flag as given unless the user edits it, and a required
parameter without a flag is gathered. -/
structure Separate (step : CompiledStep) (request : CommandRequest) : Prop where
  body : request.body = some (.json value)
  flagged : ∀ p ∈ operation.parameters, isNonBody p = true → ∀ raw, args p.name = some raw →
    changed readers compiled operation args value answer p = none →
    (paramsAt request p.location).get? p.name = some (flagText readers p raw)
  gathered : ∀ p ∈ operation.parameters, isNonBody p = true → p.required = true →
    args p.name = none → Gathers readers compiled operation args value answer step request p

/-- Neither the body nor its fields have a parameter's name, except for a flag's own text, no null
is gathered, and no form parameter has a value. -/
structure Apart (step : CompiledStep) : Prop where
  form : ∀ p ∈ operation.parameters, p.location = .formData → p.required = false ∧
    args p.name = none ∧ memberOf (some value) p.name = none ∧
    p.name ∉ operation.bodyFields.map (·.name) ∧ p.default = none ∧
    changed readers compiled operation args value answer p = none
  flagged : ∀ p ∈ operation.parameters, isNonBody p = true → ∀ raw, args p.name = some raw →
    changed readers compiled operation args value answer p = none →
    ∀ member, memberOf (some value) p.name = some member →
    jsonToParamString member = flagText readers p raw
  gathered : ∀ p ∈ operation.parameters, isNonBody p = true → p.required = true →
    args p.name = none → changed readers compiled operation args value answer p = none →
    memberOf (some value) p.name = none ∧ p.name ∉ operation.bodyFields.map (·.name)
  given : ∀ p ∈ operation.parameters, isNonBody p = true → p.required = true →
    args p.name = none → given readers compiled operation args value answer step p ≠ some .null

end Separation

section Route

variable {service operationId : String} {readers : Readers} {compiled : CompiledWorkflow}
  {operation : OperationSchema} {step : CompiledStep} {args : String → Option String}
  {value : Value} {answer : Option GatherResult} {files : String → FileStatus}
  {schema : ServiceSchema} {«namespace» : Option String} {options : RunOptions}
  {request : CommandRequest} {p : ParameterSchema}

theorem flagOf_eq (hp : p ∈ operation.parameters) (hlocation : p.location ≠ .body) :
    flagOf operation args p.name = args p.name := if_pos ⟨p, hp, hlocation, rfl⟩

variable (h : OneStep service operationId operation compiled step)
include h

end Route

section Requests

variable {service operationId : String} {readers : Readers} {compiled : CompiledWorkflow}
  {operation : OperationSchema} {step : CompiledStep} {args : String → Option String}
  {value : Value} {answer : Option GatherResult} {files : String → FileStatus}
  {schema : ServiceSchema} {«namespace» : Option String} {options : RunOptions}
  {request : CommandRequest}

end Requests

end ServiceRoute
