import AgsCli.Library.Runs
import AgsCli.Workflow.Assemble
import AgsCli.Workflow.DryRun
import AgsCli.Workflow.RunInputs

/-! # Workflow executor

`Executor::execute` as a machine whose phases are the program points of the step loop. What the
executor calls (frontend, catalogue, dispatch, local actions) is an arbitrary host; every call
on the frontend is logged. -/
namespace Executor

open OrderedMap Json CatalogueTypes ProtocolError WorkflowTypes RequestTypes WorkflowContext
  AutoDerive Resolve Assemble ReviewPlan RunInputs DryRun

structure Host (σ : Type) where
  onEvent : WorkflowEvent → σ → σ
  presentBriefing : WorkflowBriefing → String → σ → Except RuntimeError Bool × σ
  collectWorkflowInputs :
    List WorkflowInputSpec → Values → σ → Except RuntimeError (Option CollectOutcome) × σ
  reviewStep : StepFieldPlan → σ → Except RuntimeError StepReviewOutcome × σ
  gatherWorkflowInputs : List WorkflowInputNeeded → CompiledStep → List SuppliedInputView →
    σ → Except RuntimeError GatherResult × σ
  confirmStep : CompiledStep → StepPreview → σ → Except RuntimeError StepConfirmOutcome × σ
  resolveStepFailure :
    CompiledStep → RuntimeError → Bool → σ → Except RuntimeError StepFailureAction × σ
  getOrLoad : String → σ → Except RuntimeError ServiceSchema × σ
  contextNamespace : σ → Option String
  files : σ → String → FileStatus
  previewCommand : CommandRequest → σ → Except RuntimeError CommandPreview × σ
  dryRunCommand : CommandRequest → σ → Except RuntimeError DryRunResult × σ
  runCommand : CommandRequest → σ → List ProgressEvent × Except RuntimeError DispatchOutput × σ
  runLocal : String → Values → Bool → σ → List ProgressEvent × Except RuntimeError Value × σ

inductive FrontendCall
  | event (e : WorkflowEvent)
  | presentBriefing
  | collectWorkflowInputs (specs : List WorkflowInputSpec)
  | reviewStep (plan : StepFieldPlan)
  | gatherWorkflowInputs (needed : List WorkflowInputNeeded) (step : CompiledStep)
  | confirmStep (step : CompiledStep)
  | resolveStepFailure (step : CompiledStep) (error : RuntimeError) (allowSkip : Bool)
  deriving DecidableEq

structure Setup (σ : Type) where
  compiled : CompiledWorkflow
  options : RunOptions
  preSupplied : Values
  host : Host σ

structure RunState (σ : Type) where
  hostState : σ
  log : List FrontendCall
  supplied : Values
  ctx : Context
  stepSummaries : List String
  previews : List StepDryRunPreview
  runMode : RunMode
  facts : RunFacts
  pendingError : Option RuntimeError

/-- One dispatch attempt: a request or a local action with its inputs. -/
inductive Attempt
  | api (request : CommandRequest)
  | local (action : String) (inputs : Values)

structure Verdict where
  outcome : StepOutcome
  summary : String
  reason : Option StepOutcomeReason
  error : Option StepErrorFacts

/-- Program points between a step's `StepStarted` and its `StepFinished`. -/
inductive StepPoint
  | entered
  | loading
  | collecting (schema : ServiceSchema)
  | assembling (schema : ServiceSchema) (stepLocal : Values)
  | confirming (request : CommandRequest)
  | previewing (request : CommandRequest)
  | attempting (attempt : Attempt) (attempts : Nat)
  | failing (attempt : Attempt) (error : RuntimeError) (stage : StepOutcomeReason) (attempts : Nat)
  | concluding (attempts : Nat) (verdict : Verdict)

inductive Phase
  | opening
  | briefing
  | inputGather (outcome : RunOutcome)
  | stepLoop (rest : List CompiledStep)
  | inStep (step : CompiledStep) (rest : List CompiledStep) (point : StepPoint)
  | finalising (outcome : RunOutcome)
  | finished (outcome : RunOutcome) (output : Option CommandOutput)
      (pendingError : Option RuntimeError)
  /-- `execute` returned `Err`. -/
  | raised (error : RuntimeError)

structure Config (σ : Type) where
  phase : Phase
  run : RunState σ

variable {σ : Type} (env : Setup σ)

namespace Setup

def flagNames : List String := env.preSupplied.keys
def initialSupplied : Values := (seedDefaults env.compiled.inputs env.preSupplied []).1
def defaultAdded : List String := (seedDefaults env.compiled.inputs env.preSupplied []).2

end Setup

namespace RunState

def init (s : σ) : RunState σ :=
  { hostState := s, log := [], supplied := env.initialSupplied, ctx := .new, stepSummaries := []
    previews := [], runMode := .reviewInputSteps, facts := .zero, pendingError := none }

variable (s : RunState σ)

def called (call : FrontendCall) (hostState : σ) : RunState σ :=
  { s with log := s.log ++ [call], hostState }

def emit (e : WorkflowEvent) : RunState σ := s.called (.event e) (env.host.onEvent e s.hostState)

/-- Forward a dispatch's progress events with the step index attached. -/
def emitProgress (stepIndex : Nat) (events : List ProgressEvent) : RunState σ :=
  events.foldl (fun s e => s.emit env (.progress (some stepIndex) e)) s

end RunState

def tallyStepOutcome (facts : RunFacts) : StepOutcome → RunFacts
  | .success => { facts with stepsSucceeded := facts.stepsSucceeded + 1 }
  | .failed => { facts with stepsFailed := facts.stepsFailed + 1 }
  | .skipped => { facts with stepsSkipped := facts.stepsSkipped + 1 }
  | .cancelled => { facts with stepsCancelled := facts.stepsCancelled + 1 }

def finishStepTerminal (s : RunState σ) (step : CompiledStep) (attempts : Nat)
    (verdict : Verdict) : RunState σ :=
  let s := { s with
    stepSummaries := s.stepSummaries ++ [verdict.summary]
    facts := tallyStepOutcome s.facts verdict.outcome }
  s.emit env (.stepFinished step.index step.id verdict.summary verdict.outcome verdict.reason
    attempts verdict.error)

/-- The early exits that fail the step and halt the run with a pending error. -/
def failStep (s : RunState σ) (step : CompiledStep) (reason : StepOutcomeReason)
    (error : RuntimeError) (facts : Option StepErrorFacts) : Config σ :=
  let s := finishStepTerminal env s step 0 ⟨.failed, s!"{step.id} failed", some reason, facts⟩
  ⟨.finalising .failed, { s with pendingError := some error }⟩

def cancelStep (s : RunState σ) (step : CompiledStep) (reason : StepOutcomeReason) : Config σ :=
  ⟨.finalising .cancelled,
    finishStepTerminal env s step 0 ⟨.cancelled, s!"{step.id} cancelled", some reason, none⟩⟩

/-- Bind a skipped step's outputs to their defaults and finish it; an output without a default
makes `execute` itself return the error. -/
def skipStep (s : RunState σ) (step : CompiledStep) (rest : List CompiledStep)
    (reason : StepOutcomeReason) (summaryTail : Option String) (attempts : Nat)
    (error : Option StepErrorFacts) : Config σ :=
  let bound := s.ctx.bindSkippedOutputs step.id step.outputs
  let s := { s with ctx := bound.1 }
  match bound.2 with
  | .error e => ⟨.raised e, s⟩
  | .ok () =>
    let summary := match summaryTail with
      | some tail => s!"{step.id} skipped — {tail}"
      | none => s!"{step.id} skipped"
    ⟨.stepLoop rest, finishStepTerminal env s step attempts ⟨.skipped, summary, some reason, error⟩⟩

/-- Run-start: the precheck of a non-interactive run, then `WorkflowStarted`. -/
def openRun (s : RunState σ) : Config σ :=
  let violations := noInputPrecheck env.compiled s.supplied env.options.dryRun env.options.assumeYes
  if env.options.noInput && !violations.isEmpty then
    ⟨.raised (noInputViolationsToError violations (isSynthesisedSingleCommand env.compiled.id)), s⟩
  else ⟨.briefing, s.emit env (.workflowStarted env.compiled)⟩

def presentBriefing (s : RunState σ) : Config σ :=
  match env.compiled.briefing with
  | none => ⟨.inputGather .success, s⟩
  | some briefing =>
    if env.options.assumeYes then ⟨.inputGather .success, s⟩
    else
      let (answer, hostState) := env.host.presentBriefing briefing env.compiled.name s.hostState
      let s := s.called .presentBriefing hostState
      match answer with
      | .ok true => ⟨.inputGather .success, s⟩
      | .ok false =>
        ⟨.inputGather .cancelled, { s with facts := { s.facts with reason := some .atBriefing } }⟩
      | .error e => ⟨.inputGather .failed, { s with pendingError := some e }⟩

/-- The run-start form's answer replaces every declared input. -/
def replaceInputs (specs : List WorkflowInputSpec) (supplied inputs : Values) : Values :=
  (specs.foldl (fun m spec => m.erase spec.name) supplied).extend inputs

/-- Phase 1 of an interactive run with a form: collect the declared inputs once. -/
def collectInputs (outcome : RunOutcome) (s : RunState σ) : RunOutcome × RunState σ :=
  if outcome = .success && env.options.reviewSteps then
    let specs := gatherInputsForSurface env.compiled.inputs env.compiled.steps
      env.options.pickersAvailable
    let (answer, hostState) := env.host.collectWorkflowInputs specs s.supplied s.hostState
    let s := s.called (.collectWorkflowInputs specs) hostState
    match answer with
    | .ok (some chosen) => (.success,
        { s with
          supplied := replaceInputs env.compiled.inputs s.supplied chosen.inputs
          runMode := chosen.runMode
          facts := { s.facts with runMode := some chosen.runMode } })
    | .ok none => (.cancelled, { s with facts := { s.facts with reason := some .atInputGather } })
    | .error e => (.failed, { s with pendingError := some e })
  else (outcome, s)

/-- Count how one declared input arrived, and whether the form changed it. -/
def countProvenance (supplied : Values) (facts : RunFacts) (spec : WorkflowInputSpec) : RunFacts :=
  match supplied.get? spec.name with
  | none => facts
  | some current =>
    let facts := if env.flagNames.contains spec.name then
        { facts with inputsFromFlag := facts.inputsFromFlag + 1 }
      else if env.defaultAdded.contains spec.name then
        { facts with inputsFromDefault := facts.inputsFromDefault + 1 }
      else { facts with inputsFromPrompt := facts.inputsFromPrompt + 1 }
    if env.initialSupplied.get? spec.name ≠ some current then
      { facts with inputsEditedInForm := facts.inputsEditedInForm + 1 }
    else facts

def gatherRunInputs (outcome : RunOutcome) (s : RunState σ) : Config σ :=
  let (outcome, s) := collectInputs env outcome s
  let s := { s with facts := env.compiled.inputs.foldl (countProvenance env s.supplied) s.facts }
  if outcome = .success then ⟨.stepLoop env.compiled.steps, s⟩ else ⟨.finalising outcome, s⟩

def startStep (step : CompiledStep) (rest : List CompiledStep) (s : RunState σ) : Config σ :=
  let s := s.emit env (.stepStarted step.index step.id)
  ⟨.inStep step rest .entered, { s with facts := { s.facts with
    stepsStarted := s.facts.stepsStarted + 1
    lastStepIndex := some step.index } }⟩

/-- The inputs a local action is run with: its bindings over the supplied inputs. -/
def localInputs (step : CompiledStep) (s : RunState σ) : Except RuntimeError Values := do
  let resolved ← resolveLocalStepBindings step s.ctx s.supplied
  .ok (s.supplied.extend resolved)

def boundOutputs (ctx : Context) (step : CompiledStep) : Values :=
  .ofList (step.outputs.filterMap fun c =>
    (ctx.resolveStepReference step.id c.name).map fun v => (c.name, v))

def nullOutputs (step : CompiledStep) : Values :=
  .ofList (step.outputs.map fun c => (c.name, .null))

/-- The context once a local dry run's value is stored and its outputs bound from it. -/
def dryRunContext (step : CompiledStep) (produced : Value) (ctx : Context) : Context :=
  let ctx := ctx.storeLocalStepBody step.id produced
  (ctx.bindStepOutputs step.id step.outputs (ctx.stepBodyJson step.id)).1

/-- A local action's dry run: bind its outputs, show them, then inject nulls for them. -/
def previewLocal (step : CompiledStep) (rest : List CompiledStep) (action : String)
    (inputs : Values) (s : RunState σ) : Config σ :=
  let (events, answer, hostState) := env.host.runLocal action inputs true s.hostState
  let s := ({ s with hostState } : RunState σ).emitProgress env step.index events
  match answer with
  | .error e => failStep env s step .dispatch e (some (.fromError e))
  | .ok produced =>
    let ctx := dryRunContext step produced s.ctx
    let preview : StepDryRunPreview :=
      { stepId := step.id, stepIndex := step.index, action := .local action produced
        synthesisedOutputs := boundOutputs ctx step }
    let s := { s with
      previews := s.previews ++ [preview]
      ctx := ctx.injectStepCapturesForDryRun step.id (nullOutputs step) }
    ⟨.stepLoop rest,
      finishStepTerminal env s step 1 ⟨.success, s!"{step.id} dry-run", none, none⟩⟩

/-- A local step after `StepStarted`: find the action and resolve its bindings. -/
def enterLocal (step : CompiledStep) (rest : List CompiledStep) (s : RunState σ) : Config σ :=
  match step.action with
  | none => ⟨.raised (.internal
      s!"step '{step.id}': local step reached executor without an action"), s⟩
  | some action =>
    if (LocalActions.lookup action).isNone then
      ⟨.raised (.internal s!"step '{step.id}': unknown local action '{action}'"), s⟩
    else
      match localInputs step s with
      | .error e => failStep env s step .assembly e none
      | .ok inputs =>
        if env.options.dryRun then previewLocal env step rest action inputs s
        else ⟨.inStep step rest (.attempting (.local action inputs) 0), s⟩

def enterStep (step : CompiledStep) (rest : List CompiledStep) (s : RunState σ) : Config σ :=
  match step.kind with
  | .local => enterLocal env step rest s
  | .api => ⟨.inStep step rest .loading, s⟩

def loadSchema (step : CompiledStep) (rest : List CompiledStep) (s : RunState σ) : Config σ :=
  match step.operation with
  | none => ⟨.raised (.internal
      s!"step '{step.id}': API step reached executor without an operation"), s⟩
  | some opRef =>
    let (answer, hostState) := env.host.getOrLoad opRef.service s.hostState
    let s := { s with hostState }
    match answer with
    | .error e => failStep env s step .schemaLoad e (some (.fromError e))
    | .ok schema => ⟨.inStep step rest (.collecting schema), s⟩

def resolvedStepReview (step : CompiledStep) (compiled : CompiledWorkflow) : Bool :=
  step.isReviewed.getD compiled.isReviewedByDefault

def planHasReviewableFields (plan : StepFieldPlan) : Bool :=
  plan.fields.any fun f => f.showInReview || (f.required && f.source = .unset)

def shouldPauseForReview (runMode : RunMode) (reviewSteps stepReviewed forcePause : Bool)
    (plan : StepFieldPlan) : Bool :=
  if !reviewSteps || !stepReviewed || runMode = .runWithoutStopping then false
  else if forcePause then true
  else
    match runMode with
    | .reviewEveryStep => true
    | .reviewInputSteps => planHasReviewableFields plan
    | .runWithoutStopping => false

def takeReviewPath (step : CompiledStep) (runMode : RunMode) : Bool :=
  env.options.reviewSteps &&
    (resolvedStepReview step env.compiled || (step.isOptional && !step.confirm)) &&
    runMode ≠ .runWithoutStopping

def unexpectedSkip (step : CompiledStep) : RuntimeError :=
  .internal s!"frontend returned Skip for non-optional step '{step.id}'"

def reviewStep (step : CompiledStep) (rest : List CompiledStep) (schema : ServiceSchema)
    (s : RunState σ) : Config σ :=
  match resolveStepFields step s.ctx s.supplied .empty env.compiled.inputs schema
      env.defaultAdded with
  | .error e => ⟨.raised e, s⟩
  | .ok plan =>
    if !shouldPauseForReview s.runMode true true (step.isOptional && !step.confirm) plan then
      ⟨.inStep step rest (.assembling schema .empty), s⟩
    else
      let (answer, hostState) := env.host.reviewStep plan s.hostState
      let s := s.called (.reviewStep plan) hostState
      match answer with
      | .ok (.proceed edits) =>
        ⟨.inStep step rest (.assembling schema (applyStepReviewEdits plan edits .empty)), s⟩
      | .ok .skip =>
        if step.isOptional then skipStep env s step rest .declinedAtReview none 0 none
        else
          let error := unexpectedSkip step
          failStep env s step .frontendContract error (some (.fromError error))
      | .ok .cancel => cancelStep env s step .atReview
      | .error e => failStep env s step .gather e (some (.fromError e))

def gatherStep (step : CompiledStep) (rest : List CompiledStep) (schema : ServiceSchema)
    (s : RunState σ) : Config σ :=
  let needed := computeNeededInputs step s.supplied env.compiled.inputs
  if needed.isEmpty then ⟨.inStep step rest (.assembling schema .empty), s⟩
  else
    let views := buildSuppliedViews env.compiled s.supplied env.flagNames env.defaultAdded
    let (answer, hostState) := env.host.gatherWorkflowInputs needed step views s.hostState
    let s := s.called (.gatherWorkflowInputs needed step) hostState
    match answer with
    | .error e => failStep env s step .gather e (some (.fromError e))
    | .ok result =>
      let gathered := applyGathered needed result s.supplied .empty
      ⟨.inStep step rest (.assembling schema gathered.stepLocal),
        { s with supplied := gathered.supplied }⟩

def collectStep (step : CompiledStep) (rest : List CompiledStep) (schema : ServiceSchema)
    (s : RunState σ) : Config σ :=
  if takeReviewPath env step s.runMode then reviewStep env step rest schema s
  else gatherStep env step rest schema s

def assembleStep (step : CompiledStep) (rest : List CompiledStep) (schema : ServiceSchema)
    (stepLocal : Values) (s : RunState σ) : Config σ :=
  match assembleCommandRequest (env.host.files s.hostState) step s.ctx s.supplied stepLocal
      env.compiled.inputs schema (env.host.contextNamespace s.hostState) env.options with
  | .error e => failStep env s step .assembly e (some (.fromError e))
  | .ok request => ⟨.inStep step rest (.confirming request), s⟩

/-- Where a confirmed request goes: the dry-run preview or the first dispatch. -/
def dispatchPoint (request : CommandRequest) : StepPoint :=
  if env.options.dryRun then .previewing request else .attempting (.api request) 0

def buildStepPreview (step : CompiledStep) (command : CommandPreview) : StepPreview :=
  { workflowName := env.compiled.name, stepId := step.id
    stepLabel := step.description.getD step.id, stepIndex := step.index
    stepTotal := env.compiled.steps.length, command }

def askConfirmation (step : CompiledStep) (rest : List CompiledStep) (request : CommandRequest)
    (command : CommandPreview) (s : RunState σ) : Config σ :=
  let (answer, hostState) :=
    env.host.confirmStep step (buildStepPreview env step command) s.hostState
  let s := s.called (.confirmStep step) hostState
  match answer with
  | .ok .proceed => ⟨.inStep step rest (dispatchPoint env request), s⟩
  | .ok .skip =>
    if step.isOptional then skipStep env s step rest .declinedAtConfirm none 0 none
    else
      let error := unexpectedSkip step
      failStep env s step .frontendContract error (some (.fromError error))
  | .ok .cancel => cancelStep env s step .atConfirm
  | .error e => failStep env s step .confirm e (some (.fromError e))

def confirmStep (step : CompiledStep) (rest : List CompiledStep) (request : CommandRequest)
    (s : RunState σ) : Config σ :=
  if !(step.confirm && !env.options.assumeYes && !env.options.dryRun) then
    ⟨.inStep step rest (dispatchPoint env request), s⟩
  else
    let (preview, hostState) := env.host.previewCommand request s.hostState
    let s := { s with hostState }
    match preview with
    | .error e => failStep env s step .preview e (some (.fromError e))
    | .ok command => askConfirmation env step rest request command s

def failedVerdict (step : CompiledStep) (reason : StepOutcomeReason) (error : RuntimeError) :
    Verdict :=
  ⟨.failed, s!"{step.id} failed", some reason, some (.fromError error)⟩

/-- A failed attempt or preview: keep the error and conclude the step as failed. -/
def concludeFailed (step : CompiledStep) (rest : List CompiledStep) (attempts : Nat)
    (reason : StepOutcomeReason) (error : RuntimeError) (s : RunState σ) : Config σ :=
  ⟨.inStep step rest (.concluding attempts (failedVerdict step reason error)),
    { s with pendingError := some error }⟩

def missingOperation (step : CompiledStep) : RuntimeError :=
  .internal
    s!"step '{step.id}': API step reached synthesise_dry_run_outputs without an operation"

/-- `synthesise_dry_run_outputs`: look the operation up again and build the placeholders. -/
def synthesise (step : CompiledStep) (s : RunState σ) : Except RuntimeError Values × σ :=
  match step.operation with
  | none => (.error (missingOperation step), s.hostState)
  | some opRef =>
    let (answer, hostState) := env.host.getOrLoad opRef.service s.hostState
    match answer with
    | .error e => (.error e, hostState)
    | .ok schema => (synthesiseDryRunOutputs step opRef schema, hostState)

/-- Inject the placeholders for later steps, then build the request without sending it. -/
def previewRequest (step : CompiledStep) (rest : List CompiledStep) (request : CommandRequest)
    (outputs : Values) (s : RunState σ) : Config σ :=
  let s := { s with ctx := s.ctx.injectStepCapturesForDryRun step.id outputs }
  let (answer, hostState) := env.host.dryRunCommand request s.hostState
  let s := { s with hostState }
  match answer with
  | .error e => concludeFailed step rest 1 .preview e s
  | .ok command =>
    let preview : StepDryRunPreview :=
      { stepId := step.id, stepIndex := step.index, action := .request command
        synthesisedOutputs := outputs }
    ⟨.inStep step rest (.concluding 1 ⟨.success, s!"{step.id} dry-run", none, none⟩),
      { s with previews := s.previews ++ [preview] }⟩

def previewStep (step : CompiledStep) (rest : List CompiledStep) (request : CommandRequest)
    (s : RunState σ) : Config σ :=
  let (synthesised, hostState) := synthesise env step s
  let s := { s with hostState }
  match synthesised with
  | .error e => concludeFailed step rest 1 .preview e s
  | .ok outputs => previewRequest env step rest request outputs s

def maxAttempts : Nat := 2 ^ 32 - 1

/-- Bind a successful attempt's outputs: done, or a capture failure. -/
def captureOutputs (step : CompiledStep) (rest : List CompiledStep) (attempt : Attempt)
    (attempts : Nat) (ctx : Context) (s : RunState σ) : Config σ :=
  let bound := ctx.bindStepOutputs step.id step.outputs (ctx.stepBodyJson step.id)
  let s := { s with ctx := bound.1 }
  match bound.2 with
  | .ok () => ⟨.inStep step rest
      (.concluding attempts ⟨.success, s!"{step.id} ok", none, none⟩), s⟩
  | .error e => ⟨.inStep step rest (.failing attempt e .capture attempts), s⟩

def unexpectedEnvelope (step : CompiledStep) (discriminant : Nat) : RuntimeError :=
  .internal (s!"step '{step.id}' dispatch returned unexpected envelope " ++
    s!"Discriminant({discriminant})")

def dispatchApi (step : CompiledStep) (rest : List CompiledStep) (request : CommandRequest)
    (attempts : Nat) (s : RunState σ) : Config σ :=
  let (events, answer, hostState) := env.host.runCommand request s.hostState
  let s := ({ s with hostState } : RunState σ).emitProgress env step.index events
  match answer with
  | .ok (.service output) =>
    captureOutputs step rest (.api request) attempts (s.ctx.storeStepOutput step.id output) s
  | .ok (.binaryWritten output) =>
    ⟨.inStep step rest (.concluding attempts ⟨.success, s!"{step.id} ok", none, none⟩),
      { s with ctx := s.ctx.storeBinaryOutput step.id output }⟩
  | .ok (.other discriminant) =>
    ⟨.inStep step rest (.failing (.api request) (unexpectedEnvelope step discriminant)
      .frontendContract attempts), s⟩
  | .error e => ⟨.inStep step rest (.failing (.api request) e .dispatch attempts), s⟩

def runLocalAction (step : CompiledStep) (rest : List CompiledStep) (action : String)
    (inputs : Values) (attempts : Nat) (s : RunState σ) : Config σ :=
  let (events, answer, hostState) := env.host.runLocal action inputs false s.hostState
  let s := ({ s with hostState } : RunState σ).emitProgress env step.index events
  match answer with
  | .ok body =>
    captureOutputs step rest (.local action inputs) attempts (s.ctx.storeLocalStepBody step.id body)
      s
  | .error e =>
    ⟨.inStep step rest (.failing (.local action inputs) e .dispatch attempts), s⟩

/-- One turn of the retry loop. -/
def attemptStep (step : CompiledStep) (rest : List CompiledStep) (attempt : Attempt)
    (attempts : Nat) (s : RunState σ) : Config σ :=
  let attempts := min (attempts + 1) maxAttempts
  match attempt with
  | .api request => dispatchApi env step rest request attempts s
  | .local action inputs => runLocalAction env step rest action inputs attempts s

def isWhitespace (c : Char) : Bool :=
  (9 ≤ c.toNat && c.toNat ≤ 13) || c.toNat = 0x20 || c.toNat = 0x85 || c.toNat = 0xA0 ||
    c.toNat = 0x1680 || (0x2000 ≤ c.toNat && c.toNat ≤ 0x200A) || c.toNat = 0x2028 ||
    c.toNat = 0x2029 || c.toNat = 0x202F || c.toNat = 0x205F || c.toNat = 0x3000

def trim (s : String) : String :=
  String.ofList (((s.toList.dropWhile isWhitespace).reverse.dropWhile isWhitespace).reverse)

/-- The trimmed reason when there is one, else the message. -/
def errorReasonTail (error : RuntimeError) : String :=
  match (error.details.bind (·.reason)).map trim with
  | some reason => if reason.isEmpty then error.message else reason
  | none => error.message

def containsText (pattern : List Char) : List Char → Bool
  | [] => pattern.isEmpty
  | c :: rest => pattern.isPrefixOf (c :: rest) || containsText pattern rest

def saysAlreadyExists (s : String) : Bool :=
  containsText "already exists".toList (s.toList.map Char.toLower)

def isConflict (error : RuntimeError) : Bool :=
  match error.kind with
  | .upstream 409 _ =>
    saysAlreadyExists error.message ||
      (match error.details with
        | some d => (d.reason.map saysAlreadyExists).getD false ||
            (d.detail.map saysAlreadyExists).getD false
        | none => false)
  | _ => false

def isSafelySkippable (step : CompiledStep) : Bool := step.outputs.all (·.default.isSome)

inductive FailureDisposition
  | skip (reason : StepOutcomeReason) (summaryTail : Option String)
  | retry
  | fatal (reason : StepOutcomeReason)
  deriving DecidableEq

/-- What the gate's answer means; an unsafe skip is refused. -/
def dispositionOf (step : CompiledStep) : StepFailureAction → FailureDisposition
  | .retry => .retry
  | .skip =>
    if isSafelySkippable step then .skip .declinedAfterFailure none else .fatal .frontendContract
  | .cancel => .fatal .atFailureGate

def askFailureGate (step : CompiledStep) (error : RuntimeError) (s : RunState σ) :
    Except RuntimeError FailureDisposition × RunState σ :=
  let safe := isSafelySkippable step
  let (answer, hostState) := env.host.resolveStepFailure step error safe s.hostState
  (answer.map (dispositionOf step), s.called (.resolveStepFailure step error safe) hostState)

def decideStepFailure (step : CompiledStep) (error : RuntimeError) (stage : StepOutcomeReason)
    (s : RunState σ) : Except RuntimeError FailureDisposition × RunState σ :=
  if step.continueOnFailure then
    (.ok (.skip .toleratedFailure (some (errorReasonTail error))), s)
  else if step.skipIfExists && isConflict error then
    (.ok (.skip .alreadyExists (some "already exists")), s)
  else if env.options.noInput then (.ok (.fatal stage), s)
  else askFailureGate env step error s

def passFailureGate (step : CompiledStep) (rest : List CompiledStep) (attempt : Attempt)
    (error : RuntimeError) (stage : StepOutcomeReason) (attempts : Nat) (s : RunState σ) :
    Config σ :=
  let (decision, s) := decideStepFailure env step error stage s
  match decision with
  | .error e => ⟨.raised e, s⟩
  | .ok (.skip reason summaryTail) =>
    skipStep env s step rest reason summaryTail attempts (some (.fromError error))
  | .ok .retry => ⟨.inStep step rest (.attempting attempt attempts), s⟩
  | .ok (.fatal reason) => concludeFailed step rest attempts reason error s

def concludeStep (step : CompiledStep) (rest : List CompiledStep) (attempts : Nat)
    (verdict : Verdict) (s : RunState σ) : Config σ :=
  let s := finishStepTerminal env s step attempts verdict
  if verdict.outcome = .failed then ⟨.finalising .failed, s⟩ else ⟨.stepLoop rest, s⟩

def singleRequest? (previews : List StepDryRunPreview) : Option DryRunResult :=
  match previews with
  | { action := .request command, .. } :: _ => some command
  | _ => none

def buildFinalOutput (s : RunState σ) : Option CommandOutput :=
  let compiled := env.compiled
  if env.options.dryRun then
    match (if compiled.steps.length = 1 then singleRequest? s.previews else none) with
    | some command => some (.dryRun command)
    | none => some (.workflowDryRun compiled.id s.previews)
  else
    match compiled.steps with
    | [] => none
    | step :: others =>
      if others.isEmpty && compiled.outputs.isEmpty then
        match s.ctx.binaryOutputs.get? step.id with
        | some binary => some (.binaryWritten binary)
        | none => (s.ctx.stepOutputs.get? step.id).map .service
      else
        let hasView := compiled.outputs.any fun a => a.section.isSome || a.label.isSome
        some (.workflow compiled.id (s.ctx.resolveWorkflowOutputs compiled.outputs)
          s.stepSummaries (resolveCompletion compiled.completion s.supplied)
          (if hasView then some (s.ctx.resolveWorkflowOutputView compiled.outputs) else none))

def finaliseRun (outcome : RunOutcome) (s : RunState σ) : Config σ :=
  let output := if outcome = .success then buildFinalOutput env s else none
  ⟨.finished outcome output s.pendingError, s.emit env (.workflowFinished outcome s.facts)⟩

def advanceStep (step : CompiledStep) (rest : List CompiledStep) (s : RunState σ) :
    StepPoint → Config σ
  | .entered => enterStep env step rest s
  | .loading => loadSchema env step rest s
  | .collecting schema => collectStep env step rest schema s
  | .assembling schema stepLocal => assembleStep env step rest schema stepLocal s
  | .confirming request => confirmStep env step rest request s
  | .previewing request => previewStep env step rest request s
  | .attempting attempt attempts => attemptStep env step rest attempt attempts s
  | .failing attempt error stage attempts =>
    passFailureGate env step rest attempt error stage attempts s
  | .concluding attempts verdict => concludeStep env step rest attempts verdict s

/-- One move of the executor; a returned run stays where it is. -/
def advance (c : Config σ) : Config σ :=
  match c.phase with
  | .opening => openRun env c.run
  | .briefing => presentBriefing env c.run
  | .inputGather outcome => gatherRunInputs env outcome c.run
  | .stepLoop [] => ⟨.finalising .success, c.run⟩
  | .stepLoop (step :: rest) => startStep env step rest c.run
  | .inStep step rest point => advanceStep env step rest c.run point
  | .finalising outcome => finaliseRun env outcome c.run
  | .finished .. | .raised _ => c

def Config.init (s : σ) : Config σ := ⟨.opening, .init env s⟩

def Step (c d : Config σ) : Prop := d = advance env c

def Reachable (c : Config σ) : Prop := ∃ s, Runs.Reaches (Step env) (.init env s) c

/-- A configuration of a run all of whose moves start where `guard` holds. -/
def ReachableUnder (guard : Config σ → Prop) (c : Config σ) : Prop :=
  ∃ s, Runs.ReachesUnder guard (Step env) (.init env s) c

inductive Returned
  | ok (outcome : RunOutcome) (output : Option CommandOutput) (pendingError : Option RuntimeError)
  | err (error : RuntimeError)

def returned? : Phase → Option Returned
  | .finished outcome output pendingError => some (.ok outcome output pendingError)
  | .raised error => some (.err error)
  | _ => none

/-- `Executor::execute` with a bound on its moves; nothing while the run has not returned. -/
def execute (fuel : Nat) (s : σ) : Option Returned :=
  returned? ((advance env)^[fuel] (.init env s)).phase

end Executor
