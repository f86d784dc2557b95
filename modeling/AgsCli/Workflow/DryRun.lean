import AgsCli.Workflow.AutoDerive
import AgsCli.Protocol.Request

/-! # Dry-run placeholders

The values a dry run stands in for an API step's captures. -/
namespace DryRun

open OrderedMap Json CatalogueTypes ProtocolError WorkflowTypes AutoDerive

def placeholderFor (stepId : String) (capture : StepOutputCapture) : Value :=
  match capture.default with
  | some default => default
  | none => .string s!"<placeholder-{stepId}-{capture.name}>"

def placeholders (step : CompiledStep) : BTreeMap String Value :=
  .ofList (step.outputs.map fun c => (c.name, placeholderFor step.id c))

def synthesiseDryRunOutputs (step : CompiledStep) (opRef : OperationReference)
    (serviceSchema : ServiceSchema) : Except RuntimeError (BTreeMap String Value) := do
  let _ ← findOperationOrError serviceSchema opRef s!"step '{step.id}'"
  .ok (placeholders step)

end DryRun
