import AgsCli.Workflow.CompileFacts
import AgsCli.Workflow.ExecutorMoves

/-! # Scripted hosts

A host without a state, whose answers a concrete run replaces one by one, and a small compiled
workflow to run on it. -/
namespace Executor

open OrderedMap Json CatalogueTypes ProtocolError WorkflowTypes RequestTypes Assemble

/-- Accepts the briefing, declines every other prompt and fails every service call. -/
def idleHost : Host Unit where
  onEvent _ _ := ()
  presentBriefing _ _ _ := (.ok true, ())
  collectWorkflowInputs _ _ _ := (.ok none, ())
  reviewStep _ _ := (.ok .cancel, ())
  gatherWorkflowInputs _ _ _ _ := (.ok ⟨.empty, .empty⟩, ())
  confirmStep _ _ _ := (.ok .cancel, ())
  resolveStepFailure _ _ _ _ := (.ok .cancel, ())
  getOrLoad service _ := (.error (.internal s!"service '{service}' is not loaded"), ())
  contextNamespace _ := none
  files _ _ := .missing
  previewCommand _ _ := (.error (.internal "no preview"), ())
  dryRunCommand _ _ := (.error (.internal "no dry run"), ())
  runCommand _ _ := ([], .error (.internal "no service"), ())
  runLocal _ _ _ _ := ([], .ok .null, ())

def after (env : Setup Unit) (n : Nat) : Config Unit := (advance env)^[n] (.init env ())

theorem after_reaches (env : Setup Unit) (n : Nat) :
    Runs.Reaches (Step env) (.init env ()) (after env n) :=
  Runs.Reaches.iterate (advance env) n (.init env ())

section Export

def csmOperation (id path : String) (requestBody : Option BodySchema) : OperationSchema :=
  { id, name := id, summary := id, description := none, mutationClass := .mutating
    httpMethod := .post, pathTemplate := path, parameters := [], requestBody, permissions := []
    scope := "admin", apiVersion := 1, deprecated := false, responseContentType := none }

def exportOperation : OperationSchema := csmOperation "Export" "/csm/export" none

def notifyOperation : OperationSchema :=
  csmOperation "Notify" "/csm/notify"
    (some ⟨"Notification", [⟨"url", .string, true, none, [], none⟩], false, none⟩)

def csmSchema : ServiceSchema :=
  ⟨"csm", "", [⟨"app", "", [⟨"app", "", some "admin", [⟨"admin", 1,
    [exportOperation, notifyOperation]⟩]⟩]⟩]⟩

def csmCatalogue : Catalogue := ⟨fun _ => .ok csmSchema⟩

def apiStep (id operation : String) (inputs : List StepInputBinding)
    (outputs : List StepOutputCapture) : StepDefinition :=
  { id, description := none, kind := .api, action := none
    operation := some ⟨"csm", operation⟩, dependencies := [], confirm := false
    isOptional := false, continueOnFailure := false, skipIfExists := false, isReviewed := none
    inputs, outputs }

def exportDefinition : WorkflowDefinition :=
  { id := "export", name := "Export", briefing := none, inputs := [], isReviewedByDefault := false
    steps := [apiStep "export" "Export" [] [⟨"url", ⟨"$.url"⟩, none, false⟩],
      apiStep "notify" "Notify" [⟨"url", .reference ⟨.step "export", some "url", none⟩, true, none⟩]
        []]
    outputs := [], completion := none }

def exportCompiled : CompiledWorkflow :=
  { id := "export", name := "Export", briefing := none, inputs := [], isReviewedByDefault := false
    steps := exportDefinition.steps.zipIdx.map fun p => Compile.compiledStep p.1 p.2 []
    outputs := [], completion := none }

theorem export_compiles :
    Compile.compileWorkflow exportDefinition csmCatalogue = .ok exportCompiled := rfl

def exportStep : CompiledStep :=
  Compile.compiledStep (apiStep "export" "Export" [] [⟨"url", ⟨"$.url"⟩, none, false⟩]) 0 []

def notifyStep : CompiledStep :=
  Compile.compiledStep (apiStep "notify" "Notify"
    [⟨"url", .reference ⟨.step "export", some "url", none⟩, true, none⟩] []) 1 []

end Export

end Executor
