import AgsCli.Protocol.Json
import AgsCli.Protocol.Error

/-! # Workflow types

Author-declared definitions, their compiled form and the values exchanged with the frontend. -/
namespace WorkflowTypes

open OrderedMap Json ProtocolError

structure OperationReference where
  service : String
  operation : String
  deriving DecidableEq, Repr

structure LiteralBinding where
  value : Value
  sensitive : Bool
  deriving DecidableEq

structure FormatBinding where
  template : String
  deriving DecidableEq, Repr

structure MirrorBinding where
  mirrorOf : String
  deriving DecidableEq, Repr

inductive ArithmeticOp
  | mul
  | add
  deriving DecidableEq, Repr

inductive ArithmeticOperand
  | workflowInput (name : String)
  | integer (n : Int)
  deriving DecidableEq, Repr

structure ArithmeticTransform where
  op : ArithmeticOp
  operand : ArithmeticOperand
  deriving DecidableEq, Repr

inductive TransformKind
  | jsonPath (path : String)
  | arithmetic (transform : ArithmeticTransform)
  deriving DecidableEq, Repr

inductive ReferenceTarget
  | workflow (input : String)
  | step (id : String)
  deriving DecidableEq, Repr

structure ReferenceBinding where
  source : ReferenceTarget
  output : Option String
  transform : Option TransformKind
  deriving DecidableEq, Repr

inductive BindingSource
  | literal (binding : LiteralBinding)
  | reference (binding : ReferenceBinding)
  | format (binding : FormatBinding)
  | mirror (binding : MirrorBinding)
  deriving DecidableEq

def BindingSource.isMirror : BindingSource → Bool
  | .mirror _ => true
  | _ => false

structure StepInputBinding where
  field : String
  source : BindingSource
  showInReview : Bool
  description : Option String
  deriving DecidableEq

/-- `CaptureSource::ResponseBody { path }`, the only source there is. -/
structure CaptureSource where
  path : String
  deriving DecidableEq, Repr

structure StepOutputCapture where
  name : String
  source : CaptureSource
  default : Option Value
  sensitive : Bool
  deriving DecidableEq

inductive AutoDeriveScope
  | workflowInput (name : String)
  | stepLocal (fieldName : String)
  deriving DecidableEq, Repr

inductive StepFieldLocation
  | path
  | query
  | header
  | body
  | formData
  deriving DecidableEq, Repr

structure AutoDerivedField where
  field : String
  schema : Value
  required : Bool
  sensitive : Bool
  description : Option String
  scope : AutoDeriveScope
  location : StepFieldLocation
  deriving DecidableEq

inductive OptionParameterBinding
  | fromInput (name : String)
  | fromInputOptional (name : String)
  | literal (value : Value)
  deriving DecidableEq

structure OptionFilter where
  path : String
  equals : Value
  deriving DecidableEq

inductive LabelDetail
  | path (path : String)
  | byInput (input : String) (paths : List (String × String))
  deriving DecidableEq, Repr

/-- `parameters` lists the entries of the source's map in key order. -/
structure OptionsSource where
  operation : OperationReference
  parameters : List (String × OptionParameterBinding)
  itemsPath : String
  value : String
  label : Option String
  labelDetail : Option LabelDetail
  fallbackDescription : Option String
  filter : Option OptionFilter
  deriving DecidableEq

structure FilePickerSpec where
  extensions : Option (List String)
  startDir : Option String
  deriving DecidableEq, Repr

structure WorkflowInputSpec where
  name : String
  description : Option String
  schema : Option Value
  required : Bool
  default : Option Value
  sensitive : Bool
  optionsSource : Option OptionsSource
  filePicker : Option FilePickerSpec
  location : StepFieldLocation
  deriving DecidableEq

abbrev GatherSlotId := Nat

structure WorkflowInputNeeded where
  id : GatherSlotId
  label : String
  description : Option String
  schema : Value
  default : Option Value
  required : Bool
  sensitive : Bool
  scope : AutoDeriveScope
  location : StepFieldLocation
  deriving DecidableEq

inductive SuppliedSource
  | fromFlag
  | default
  deriving DecidableEq, Repr

structure SuppliedInputView where
  label : String
  value : Value
  schema : Value
  description : Option String
  source : SuppliedSource
  location : StepFieldLocation
  deriving DecidableEq

structure GatherResult where
  slotValues : BTreeMap GatherSlotId Value
  inputOverrides : BTreeMap String Value

structure WorkflowOutputAlias where
  name : String
  fromStepId : String
  output : String
  sensitive : Bool
  «section» : Option String
  label : Option String
  itemFields : Option (List String)
  deriving DecidableEq, Repr

structure CompletionResource where
  label : String
  value : String
  deriving DecidableEq, Repr

structure CompletionStep where
  description : String
  command : String
  deriving DecidableEq, Repr

structure WorkflowCompletion where
  created : List CompletionResource
  nextSteps : List CompletionStep
  deriving DecidableEq, Repr

structure WorkflowBriefing where
  overview : String
  prerequisites : List String
  creates : List String
  deriving DecidableEq, Repr

inductive StepKind
  | api
  | «local»
  deriving DecidableEq, Repr

structure StepDefinition where
  id : String
  description : Option String
  kind : StepKind
  action : Option String
  operation : Option OperationReference
  dependencies : List String
  confirm : Bool
  isOptional : Bool
  continueOnFailure : Bool
  skipIfExists : Bool
  isReviewed : Option Bool
  inputs : List StepInputBinding
  outputs : List StepOutputCapture
  deriving DecidableEq

structure WorkflowDefinition where
  id : String
  name : String
  briefing : Option WorkflowBriefing
  inputs : List WorkflowInputSpec
  isReviewedByDefault : Bool
  steps : List StepDefinition
  outputs : List WorkflowOutputAlias
  completion : Option WorkflowCompletion
  deriving DecidableEq

structure CompiledStep where
  id : String
  index : Nat
  description : Option String
  kind : StepKind
  action : Option String
  operation : Option OperationReference
  dependencies : List String
  confirm : Bool
  isOptional : Bool
  continueOnFailure : Bool
  skipIfExists : Bool
  isReviewed : Option Bool
  inputs : List StepInputBinding
  outputs : List StepOutputCapture
  autoDerived : List AutoDerivedField
  deriving DecidableEq

structure CompiledWorkflow where
  id : String
  name : String
  briefing : Option WorkflowBriefing
  inputs : List WorkflowInputSpec
  isReviewedByDefault : Bool
  steps : List CompiledStep
  outputs : List WorkflowOutputAlias
  completion : Option WorkflowCompletion
  deriving DecidableEq

abbrev StepFieldId := Nat

inductive StepFieldSource
  | workflowInput (name : String)
  | default (name : String)
  | priorOutput
  | literal
  | unset
  | derived (sources : List String)
  deriving DecidableEq, Repr

structure StepField where
  id : StepFieldId
  field : String
  label : String
  description : Option String
  location : StepFieldLocation
  schema : Value
  value : Value
  source : StepFieldSource
  required : Bool
  workflowInput : Option String
  bodyOverflow : Bool
  showInReview : Bool
  deriving DecidableEq

structure StepFieldPlan where
  stepIndex : Nat
  stepLabel : String
  stepDescription : Option String
  fields : List StepField
  optional : Bool
  deriving DecidableEq

inductive RunMode
  | reviewInputSteps
  | reviewEveryStep
  | runWithoutStopping
  deriving DecidableEq, Repr

structure CollectOutcome where
  inputs : BTreeMap String Value
  runMode : RunMode

inductive StepConfirmOutcome
  | proceed
  | skip
  | cancel
  deriving DecidableEq, Repr

inductive StepReviewOutcome
  | proceed (edits : BTreeMap StepFieldId Value)
  | skip
  | cancel

inductive StepFailureAction
  | retry
  | skip
  | cancel
  deriving DecidableEq, Repr

inductive StepOutcomeReason
  | alreadyExists
  | toleratedFailure
  | declinedAtReview
  | declinedAtConfirm
  | declinedAfterFailure
  | schemaLoad
  | gather
  | assembly
  | preview
  | confirm
  | dispatch
  | capture
  | frontendContract
  | atBriefing
  | atInputGather
  | atReview
  | atConfirm
  | atFailureGate
  | noInput
  deriving DecidableEq, Repr

inductive StepOutcome
  | success
  | failed
  | cancelled
  | skipped
  deriving DecidableEq, Repr

inductive RunOutcome
  | success
  | failed
  | cancelled
  deriving DecidableEq, Repr

structure StepErrorFacts where
  errorClass : String
  httpStatus : Option Nat
  code : Option String
  deriving DecidableEq, Repr

def StepErrorFacts.fromError (error : RuntimeError) : StepErrorFacts :=
  let (httpStatus, kindCode) := match error.kind with
    | .upstream status code => (some status, code)
    | _ => (none, none)
  { errorClass := error.kind.telemetryClass
    httpStatus
    code := kindCode.or (error.details.bind (·.code)) }

structure RunFacts where
  runMode : Option RunMode
  reason : Option StepOutcomeReason
  stepsStarted : Nat
  stepsSucceeded : Nat
  stepsFailed : Nat
  stepsSkipped : Nat
  stepsCancelled : Nat
  lastStepIndex : Option Nat
  inputsFromFlag : Nat
  inputsFromPrompt : Nat
  inputsFromDefault : Nat
  inputsEditedInForm : Nat
  deriving DecidableEq, Repr

def RunFacts.zero : RunFacts :=
  ⟨none, none, 0, 0, 0, 0, 0, none, 0, 0, 0, 0⟩

end WorkflowTypes
