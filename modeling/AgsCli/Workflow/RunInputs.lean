import AgsCli.Workflow.Resolve
import AgsCli.Workflow.ReviewPlan
import Mathlib.Data.List.Sort

/-! # Run inputs

What a run knows about its inputs: the seeding with defaults, the `--no-input` precheck, the
order and selection of the run-start form, and the views and edits exchanged with a frontend. -/
namespace RunInputs

open OrderedMap Json ProtocolError WorkflowTypes RequestTypes Compile Resolve

/-- Layer declared defaults over the names not supplied, remembering which were added. -/
def seedDefaults : List WorkflowInputSpec → Values → List String → Values × List String
  | [], supplied, added => (supplied, added)
  | spec :: rest, supplied, added =>
    match supplied.contains spec.name, spec.default with
    | false, some default =>
      seedDefaults rest (supplied.insert spec.name default) (added ++ [spec.name])
    | _, _ => seedDefaults rest supplied added

inductive NoInputViolation
  | missingInput (name firstSeenAt : String)
  | confirmRequired (step : String)
  | stepLocalGather (step field : String)
  deriving DecidableEq, Repr

def violationOf (step : CompiledStep) (entry : WorkflowInputNeeded) : NoInputViolation :=
  match entry.scope with
  | .workflowInput name => .missingInput name step.id
  | .stepLocal fieldName => .stepLocalGather step.id fieldName

def markSupplied (supplied : Values) (entry : WorkflowInputNeeded) : Values :=
  match entry.scope with
  | .workflowInput name => supplied.insert name .null
  | .stepLocal _ => supplied

def confirmViolations (dryRun assumeYes : Bool) (step : CompiledStep) : List NoInputViolation :=
  if step.confirm && !dryRun && !assumeYes then [.confirmRequired step.id] else []

def precheckSteps (specs : List WorkflowInputSpec) (dryRun assumeYes : Bool) :
    List CompiledStep → Values → List NoInputViolation
  | [], _ => []
  | step :: rest, simSupplied =>
    let needed := computeNeededInputs step simSupplied specs
    needed.map (violationOf step) ++ confirmViolations dryRun assumeYes step ++
      precheckSteps specs dryRun assumeYes rest (needed.foldl markSupplied simSupplied)

def noInputPrecheck (compiled : CompiledWorkflow) (supplied : Values) (dryRun assumeYes : Bool) :
    List NoInputViolation :=
  precheckSteps compiled.inputs dryRun assumeYes compiled.steps supplied

def noInputViolationCode : NoInputViolation → String
  | .missingInput .. => "no_input.missing_input"
  | .confirmRequired .. => "no_input.confirm_required"
  | .stepLocalGather .. => "no_input.step_local_gather"

def violationLine (singleCommand : Bool) : NoInputViolation → String
  | .missingInput name firstSeenAt =>
    if singleCommand then s!"input '{name}' is required"
    else s!"workflow input '{name}' is required (first referenced by step '{firstSeenAt}')"
  | .confirmRequired step =>
    if singleCommand then "confirmation is required"
    else s!"step '{step}' requires confirmation; cannot run under --no-input"
  | .stepLocalGather step field =>
    if singleCommand then s!"field '{field}' is unbound; cannot gather under --no-input"
    else s!"step '{step}' field '{field}' is unbound; cannot gather under --no-input"

/-- The first three lines and a tail, when that hides at least two. -/
def cappedLines (lines : List String) : List String :=
  if lines.length > 4 then lines.take 3 ++ [s!"(+ {lines.length - 3} more)"] else lines

def noInputViolationsToError (violations : List NoInputViolation) (singleCommand : Bool) :
    RuntimeError :=
  let headline := if singleCommand then "This command cannot run non-interactively:"
    else "Cannot run this workflow non-interactively:"
  let lines := Strings.join "\n  " (cappedLines (violations.map (violationLine singleCommand)))
  { kind := .validation
    message := s!"{headline}\n  {lines}"
    details := some
      { code := violations.head?.map noInputViolationCode
        reason := some ("The run is non-interactive (--no-input, or stdin and stderr are not " ++
          "terminals).")
        detail := none }
    hint := some ("Pass the missing inputs as --<name> flags (use --yes to skip confirmations), " ++
      "or run interactively with stdin and stderr attached to a terminal.") }

def isSynthesisedSingleCommand (id : String) : Bool := "synth(".toList.isPrefixOf id.toList

def usizeMax : Nat := 2 ^ 64 - 1

def autoDerivedInputs (step : CompiledStep) : List String :=
  step.autoDerived.filterMap fun f =>
    match f.scope with
    | .workflowInput name => some name
    | .stepLocal _ => none

def stepReferencedInputs (step : CompiledStep) : List String :=
  bindingWorkflowInputs step.inputs ++ autoDerivedInputs step

def firstUse (steps : List CompiledStep) (name : String) : Nat :=
  match steps.findIdx? fun step => (stepReferencedInputs step).contains name with
  | some i => i
  | none => usizeMax

def pickerDependencies (source : OptionsSource) : List String :=
  source.parameters.filterMap fun p =>
    match p.2 with
    | .fromInput dep | .fromInputOptional dep => some dep
    | .literal _ => none

def pullUp (pickerUse : Nat) (key : BTreeMap String Nat) (dep : String) : BTreeMap String Nat :=
  match key.get? dep with
  | some slot => key.insert dep (min slot pickerUse)
  | none => key

def pullDependencies (key : BTreeMap String Nat) (spec : WorkflowInputSpec) :
    BTreeMap String Nat :=
  match spec.optionsSource with
  | some source =>
    (pickerDependencies source).foldl (pullUp ((key.get? spec.name).getD usizeMax)) key
  | none => key

def orderInputsByFirstUse (inputs : List WorkflowInputSpec) (steps : List CompiledStep) :
    List WorkflowInputSpec :=
  let firstUses := BTreeMap.ofList (inputs.map fun s => (s.name, firstUse steps s.name))
  let key := inputs.foldl pullDependencies firstUses
  let indexed := inputs.map fun s => ((key.get? s.name).getD usizeMax, s)
  (indexed.insertionSort fun a b => a.1 ≤ b.1).map (·.2)

def pickerReferenced (inputs : List WorkflowInputSpec) : List String :=
  inputs.flatMap fun spec =>
    match spec.optionsSource with
    | some source =>
      pickerDependencies source ++
        match source.labelDetail with
        | some (.byInput input _) => [input]
        | _ => []
    | none => []

def pickerSupportInputNames (inputs : List WorkflowInputSpec) (steps : List CompiledStep) :
    List String :=
  let stepReferenced := steps.flatMap stepReferencedInputs
  (pickerReferenced inputs).filter fun name => !stepReferenced.contains name

def withFallbackDescription (spec : WorkflowInputSpec) : WorkflowInputSpec :=
  match spec.optionsSource.bind (·.fallbackDescription) with
  | some fallback => { spec with description := some fallback }
  | none => spec

def gatherInputsForSurface (inputs : List WorkflowInputSpec) (steps : List CompiledStep)
    (pickersAvailable : Bool) : List WorkflowInputSpec :=
  let ordered := orderInputsByFirstUse inputs steps
  if pickersAvailable then ordered
  else
    let support := pickerSupportInputNames inputs steps
    (ordered.filter fun spec => !support.contains spec.name).map withFallbackDescription

def suppliedView? (supplied : Values) (flagNames defaultAdded : List String)
    (spec : WorkflowInputSpec) : Option SuppliedInputView := do
  let value ← supplied.get? spec.name
  if value.isNull then none
  else
    let source ← if flagNames.contains spec.name then some SuppliedSource.fromFlag
      else if defaultAdded.contains spec.name then some SuppliedSource.default else none
    some { label := spec.name, value, schema := spec.schema.getD .null
           description := spec.description, source, location := spec.location }

def buildSuppliedViews (compiled : CompiledWorkflow) (supplied : Values)
    (flagNames defaultAdded : List String) : List SuppliedInputView :=
  compiled.inputs.filterMap (suppliedView? supplied flagNames defaultAdded)

/-- One review edit: an overflow object spreads its members, another edit sets its field. -/
def applyEdit (plan : StepFieldPlan) (stepLocal : Values) (edit : StepFieldId × Value) : Values :=
  match (BTreeMap.ofList (plan.fields.map fun f => (f.id, f))).get? edit.1 with
  | none => stepLocal
  | some field =>
    if field.bodyOverflow then
      match edit.2.asObject? with
      | some members => stepLocal.insertAll members
      | none => stepLocal
    else stepLocal.insert field.field edit.2

def applyStepReviewEdits (plan : StepFieldPlan) (edits : BTreeMap StepFieldId Value)
    (stepLocal : Values) : Values :=
  edits.entries.foldl (applyEdit plan) stepLocal

structure Gathered where
  supplied : Values
  stepLocal : Values

/-- Route one slot's value by the slot's scope; an unanswered slot adds nothing. -/
def routeSlot (slotValues : BTreeMap GatherSlotId Value) (acc : Gathered)
    (entry : WorkflowInputNeeded) : Gathered :=
  match slotValues.get? entry.id with
  | none => acc
  | some value =>
    match entry.scope with
    | .workflowInput name => { acc with supplied := acc.supplied.insert name value }
    | .stepLocal fieldName => { acc with stepLocal := acc.stepLocal.insert fieldName value }

def applyGathered (needed : List WorkflowInputNeeded) (result : GatherResult)
    (supplied stepLocal : Values) : Gathered :=
  let routed := needed.foldl (routeSlot result.slotValues) ⟨supplied, stepLocal⟩
  { routed with supplied := routed.supplied.extend result.inputOverrides }

end RunInputs
