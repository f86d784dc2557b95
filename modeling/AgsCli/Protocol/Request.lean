import AgsCli.Protocol.Workflow
import AgsCli.Protocol.Catalogue

/-! # Requests and outputs

What a step dispatches and what a dispatch or a whole run answers. -/
namespace RequestTypes

open OrderedMap Json CatalogueTypes WorkflowTypes

inductive OutputFormat
  | human
  | json
  deriving DecidableEq, Repr

inductive PaginationHint
  | auto
  | firstPageOnly
  | all
  | limit (n : Nat)
  deriving DecidableEq, Repr

inductive Verbosity
  | quiet
  | normal
  | verbose
  deriving DecidableEq, Repr

inductive OutputDestination
  | stdout
  | file (path : String)
  deriving DecidableEq, Repr

inductive FormPart
  | text (name value : String)
  | file (name path filename : String)
  deriving DecidableEq, Repr

inductive RequestBody
  | json (value : Value)
  | multipart (parts : List FormPart)
  deriving DecidableEq

structure CommandRequest where
  service : String
  operationId : String
  «namespace» : Option String
  pathParams : BTreeMap String String
  queryParams : BTreeMap String String
  headerParams : BTreeMap String String
  body : Option RequestBody
  outputFormat : OutputFormat
  pagination : PaginationHint
  verbosity : Verbosity
  output : Option OutputDestination
  deriving DecidableEq

structure CommandPreview where
  service : String
  operationId : String
  summary : String
  httpMethod : HttpMethod
  url : String
  deriving DecidableEq, Repr

structure DryRunResult where
  httpMethod : HttpMethod
  url : String
  headers : List (String × String)
  query : List (String × String)
  body : Option RequestBody
  deriving DecidableEq

inductive ApiBody
  | shaped
  | text (s : String)
  | empty
  deriving DecidableEq, Repr

/-- The parts of a service response that captures read. -/
structure ApiOutput where
  body : ApiBody
  rawBody : Option Value
  deriving DecidableEq

structure BinaryWrittenOutput where
  destination : OutputDestination
  bytesWritten : Nat
  contentType : String
  deriving DecidableEq, Repr

/-- A dispatch's envelope: the two a step accepts, and any other by its discriminant. -/
inductive DispatchOutput
  | service (output : ApiOutput)
  | binaryWritten (output : BinaryWrittenOutput)
  | other (discriminant : Nat)
  deriving DecidableEq

structure StepPreview where
  workflowName : String
  stepId : String
  stepLabel : String
  stepIndex : Nat
  stepTotal : Nat
  command : CommandPreview
  deriving DecidableEq, Repr

inductive StepDryRunAction
  | request (result : DryRunResult)
  | local (action : String) (preview : Value)
  deriving DecidableEq

structure StepDryRunPreview where
  stepId : String
  stepIndex : Nat
  action : StepDryRunAction
  synthesisedOutputs : BTreeMap String Value
  deriving DecidableEq

inductive WorkflowOutputProvenance
  | captured
  | missing
  | skipped
  deriving DecidableEq, Repr

structure WorkflowOutputItem where
  name : String
  «section» : Option String
  label : Option String
  value : Value
  provenance : WorkflowOutputProvenance
  itemFields : Option (List String)
  deriving DecidableEq

structure WorkflowCompletionView where
  created : List CompletionResource
  nextSteps : List CompletionStep
  deriving DecidableEq, Repr

inductive CommandOutput
  | service (output : ApiOutput)
  | binaryWritten (output : BinaryWrittenOutput)
  | dryRun (result : DryRunResult)
  | workflowDryRun (workflowId : String) (stepPreviews : List StepDryRunPreview)
  | workflow (workflowId : String) (outputs : BTreeMap String Value)
      (stepSummaries : List String) (completion : Option WorkflowCompletionView)
      (outputView : Option (List WorkflowOutputItem))
  deriving DecidableEq

/-- `RunOptions`, without the telemetry gate. -/
structure RunOptions where
  dryRun : Bool
  assumeYes : Bool
  noInput : Bool
  reviewSteps : Bool
  pickersAvailable : Bool
  outputFormat : OutputFormat
  output : Option OutputDestination
  verbosity : Verbosity
  pagination : PaginationHint
  explicitBody : Option Value
  deriving DecidableEq

def RunOptions.default : RunOptions :=
  { dryRun := false, assumeYes := false, noInput := false, reviewSteps := false
    pickersAvailable := false, outputFormat := .human, output := none, verbosity := .normal
    pagination := .auto, explicitBody := none }

inductive ProgressEvent
  | started (message : String)
  | page (current : Nat) (total : Option Nat)
  | message (text : String)
  | finished
  deriving DecidableEq, Repr

/-- Lifecycle events, without wall-clock durations and display captures. -/
inductive WorkflowEvent
  | workflowStarted (compiled : CompiledWorkflow)
  | stepStarted (index : Nat) (id : String)
  | stepFinished (index : Nat) (id : String) (summary : String) (outcome : StepOutcome)
      (reason : Option StepOutcomeReason) (attempts : Nat) (error : Option StepErrorFacts)
  | workflowFinished (outcome : RunOutcome) (facts : RunFacts)
  | progress (stepIndex : Option Nat) (event : ProgressEvent)
  deriving DecidableEq

end RequestTypes
