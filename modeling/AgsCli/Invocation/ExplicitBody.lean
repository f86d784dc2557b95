import AgsCli.Invocation.ServiceRoute
import AgsCli.Workflow.StepLoop

/-! # Explicit bodies in service runs

`route_service` up to the run of its one step. In every run the request about to be confirmed is
the one assembled from the pre-supplied inputs and at most one gather answer; its body and
parameter flags are separate exactly when the names keep apart. -/
namespace ExplicitBody

open OrderedMap Json CatalogueTypes ProtocolError WorkflowTypes RequestTypes WorkflowContext
  AutoDerive Resolve Assemble RunInputs Synthesised CliInputs ServiceRoute Executor

variable {σ : Type}

section Reached

variable (env : Setup σ) (step : CompiledStep)

/-- The frontend is asked only for missing inputs, and `answer` is what it says. -/
def Answered (answer : Option GatherResult) : Prop :=
  match answer with
  | none => needed step env.compiled.inputs env.preSupplied = []
  | some result => needed step env.compiled.inputs env.preSupplied ≠ [] ∧
    ∃ views hostState, (env.host.gatherWorkflowInputs
      (needed step env.compiled.inputs env.preSupplied) step views hostState).1 = .ok result

/-- Nothing has been gathered or captured. -/
structure Unasked (s : RunState σ) : Prop where
  supplied : s.supplied = env.initialSupplied
  ctx : s.ctx = .new

def PointHeld (schema : ServiceSchema) (s : RunState σ) : StepPoint → Prop
  | .entered | .loading => Unasked env s
  | .collecting found => found = schema ∧ Unasked env s
  | .assembling found stepLocal => found = schema ∧ s.ctx = .new ∧ ∃ answer,
      Answered env step answer ∧
        gathered step env.compiled.inputs env.preSupplied answer = ⟨s.supplied, stepLocal⟩
  | .confirming request => ∃ answer files «namespace», Answered env step answer ∧
      serviceRequest files env.compiled step env.preSupplied schema «namespace» env.options answer =
        .ok request
  | _ => True

/-- What holds at each phase of a run with one step. -/
def Held (schema : ServiceSchema) (c : Config σ) : Prop :=
  match c.phase with
  | .opening | .briefing | .inputGather _ => Unasked env c.run
  | .stepLoop rest => rest = [] ∨ rest = [step] ∧ Unasked env c.run
  | .inStep other rest point => other = step ∧ rest = [] ∧ PointHeld env step schema c.run point
  | _ => True

variable {env step} {schema : ServiceSchema}

end Reached

section Route

variable {readers : Readers} {catalogue : Catalogue} {schema : ServiceSchema}
  {service operationId : String} {operation : OperationSchema} {args : String → Option String}
  {value : Value} {allowsInput : Bool} {flags : RunOptions} {host : Host σ} {env : Setup σ}

structure Routed (readers : Readers) (service operationId : String) (operation : OperationSchema)
    (args : String → Option String) (value : Value) (host : Host σ) (env : Setup σ)
    (step : CompiledStep) : Prop where
  oneStep : OneStep service operationId operation env.compiled step
  preSupplied : env.preSupplied = preSupplied readers env.compiled operation args (some value)
  host : env.host = host
  explicitBody : env.options.explicitBody = some value
  reviewSteps : env.options.reviewSteps = false

end Route

section Concrete

def userInput : WorkflowInputSpec :=
  { name := "userId", description := none, schema := some (typeSchema "string"), required := true
    default := none, sensitive := false, optionsSource := none, filePicker := none
    location := .path }

def userArgs (flag : Option String) (name : String) : Option String :=
  if name = "userId" then flag else none

end Concrete

end ExplicitBody
