import AgsCli.Invocation.FlagValues
import AgsCli.Terminal.JsonEditor

/-! # Forms

The fields of a step review and of the inputs phase, the text behind a field, and the value a text
is read as by the schema of its field. -/
namespace Forms

open Json OrderedMap WorkflowTypes CliInputs FlagValues
open JsonEditor (Serde)

inductive FieldKey
  | slot (id : GatherSlotId)
  | input (name : String)
  | review (id : StepFieldId)
  deriving DecidableEq

inductive FieldType
  | scalar
  | enum (variants : List String)
  | bool
  | jsonBody
  | dynamicEnum
  | dateTime
  | filePicker
  deriving DecidableEq

inductive FieldValue
  | scalar (s : String)
  | enum (s : Option String)
  | bool (b : Option Bool)
  | jsonBody (s : String)
  | empty
  deriving DecidableEq

inductive FieldSource
  | fromFlag
  | userInput
  | default
  | optional
  | workflowInput
  | literal
  | priorOutput
  | derived (sources : List String)
  deriving DecidableEq

/-- Nothing is resolved yet when a form is built. -/
structure DynamicEnumState where
  source : OptionsSource
  deps : List String
  optionalDeps : List String

structure FormField where
  label : String
  fieldType : FieldType
  required : Bool
  value : FieldValue
  description : String
  source : FieldSource
  key : FieldKey
  schema : Value
  readOnly : Bool
  dynamic : Option DynamicEnumState
  filePicker : Option FilePickerSpec

/-- The printer and the readers of texts; `parse::<f64>` gives the text of a finite number and
`some none` for an infinity or a NaN. -/
structure Texts extends Serde where
  parseFloat : String → Option (Option String)

def schemaToFieldType (schema : Value) : FieldType :=
  match (schema.get? "enum").bind JsonEditor.asArray? with
  | some variants => .enum (variants.filterMap Value.asStr?)
  | none =>
    let typeStr := ((schema.get? "type").bind Value.asStr?).getD ""
    if typeStr = "object" ∨ typeStr = "array" ∨ (schema.get? "properties").isSome then .jsonBody
    else if typeStr = "boolean" then .bool
    else .scalar

def fieldValueString : FieldValue → Option String
  | .scalar s | .jsonBody s => if s = "" then none else some s
  | .enum (some s) => some s
  | .bool (some b) => some (if b then "true" else "false")
  | .enum none | .bool none | .empty => none

section Reading

variable (texts : Texts)

def prettyText (v : Value) : String := (texts.toStringPretty v).getD ""

def valueToFieldValue : Value → FieldValue
  | .string s => .scalar s
  | .bool b => .bool (some b)
  | .number n => .scalar n.render
  | .array items => .jsonBody (prettyText texts (.array items))
  | .object members => .jsonBody (prettyText texts (.object members))
  | .null => .empty

/-- `parse::<i64>`, the text itself when it is no integer. -/
def readInteger (raw : String) : Value :=
  ((parseI64 raw).map fun n => .number (.int n)).getD (.string raw)

/-- `json!` of `parse::<f64>`: an infinity and a NaN are nulls. -/
def readFloat (raw : String) : Value :=
  match texts.parseFloat raw with
  | some (some text) => .number (.float text)
  | some none => .null
  | none => .string raw

def readBoolean (raw : String) : Value :=
  match Strings.asciiLower raw with
  | "true" => .bool true
  | "false" => .bool false
  | _ => .string raw

def readJson (raw : String) : Value :=
  match texts.fromStr raw with
  | .ok v => v
  | .error _ => .string raw

def coerceToSchema (raw : String) (schema : Value) : Value :=
  match typeHint (some schema) with
  | "string" => .string raw
  | "integer" => readInteger raw
  | "number" => readFloat texts raw
  | "boolean" => readBoolean raw
  | "array" | "object" => readJson texts raw
  | "null" => .null
  | _ => .string raw

end Reading

section StepReview

variable (texts : Texts)

def isShown (f : StepField) : Bool :=
  if f.bodyOverflow then false
  else match f.source with
    | .literal => f.showInReview
    | _ => true

def isReadOnly (f : StepField) : Bool :=
  f.workflowInput.isSome || match f.source with
    | .priorOutput | .derived _ => true
    | _ => false

/-- The value of a row in the carrier its type is edited in. -/
def stepFieldValue (fieldType : FieldType) (v : Value) : FieldValue :=
  if v.isNull then .empty
  else match fieldType, v with
    | .bool, .bool b => .bool (some b)
    | .enum _, .string s => .enum (some s)
    | .jsonBody, v => .jsonBody (prettyText texts v)
    | _, .object members => .jsonBody (prettyText texts (.object members))
    | _, .array items => .jsonBody (prettyText texts (.array items))
    | _, .string s => .scalar s
    | _, other => .scalar other.render

def stepFieldSource : StepFieldSource → FieldSource
  | .workflowInput _ => .workflowInput
  | .default _ => .default
  | .literal => .literal
  | .priorOutput => .priorOutput
  | .unset => .userInput
  | .derived sources => .derived sources

def stepFormField (f : StepField) : FormField where
  label := f.label
  fieldType := schemaToFieldType f.schema
  required := f.required
  value := stepFieldValue texts (schemaToFieldType f.schema) f.value
  description := f.description.getD ""
  source := stepFieldSource f.source
  key := .review f.id
  schema := f.schema
  readOnly := isReadOnly f
  dynamic := none
  filePicker := none

/-- The fields of `from_step_plan`: the stable sort puts the read-only ones in front. -/
def fromStepPlan (plan : StepFieldPlan) : List FormField :=
  let fields := (plan.fields.filter isShown).map (stepFormField texts)
  fields.filter (·.readOnly) ++ fields.filter (!·.readOnly)

def planById (plan : StepFieldPlan) : BTreeMap StepFieldId StepField :=
  .ofList (plan.fields.map fun f => (f.id, f))

def stepEdit? (plan : StepFieldPlan) (field : FormField) : Option (StepFieldId × Value) :=
  if field.readOnly then none
  else match field.key with
    | .review id => do
      let planField ← (planById plan).get? id
      let raw ← fieldValueString field.value
      let newValue := coerceToSchema texts raw field.schema
      if newValue ≠ planField.value then some (id, newValue) else none
    | .slot _ | .input _ => none

def projectStepEdits (fields : List FormField) (plan : StepFieldPlan) :
    BTreeMap StepFieldId Value :=
  .ofList (fields.filterMap (stepEdit? texts plan))

end StepReview

section Inputs

variable (texts : Texts) (dynamicEnums filePickers : Bool)

def inputSchema (spec : WorkflowInputSpec) : Value :=
  spec.schema.getD (Value.ofPairs [("type", .string "string")])

def isStringInput (spec : WorkflowInputSpec) : Bool :=
  ((inputSchema spec).get? "type").bind Value.asStr? == some "string"

def dynamicState (source : OptionsSource) : DynamicEnumState where
  source := source
  deps := source.parameters.filterMap fun p => match p.2 with
    | .fromInput n => some n
    | _ => none
  optionalDeps := source.parameters.filterMap fun p => match p.2 with
    | .fromInputOptional n => some n
    | _ => none

/-- The carrier of both pickers. -/
def pickedValue : Option Value → FieldValue
  | some (.string s) => .enum (some s)
  | _ => .enum none

def plainFieldType (spec : WorkflowInputSpec) : FieldType :=
  if isStringInput spec ∧
      ((inputSchema spec).get? "format").bind Value.asStr? = some "date-time" then .dateTime
  else schemaToFieldType (inputSchema spec)

def plainValue (fieldType : FieldType) : Option Value → FieldValue
  | some v =>
    match fieldType, v with
    | .bool, .bool b => .bool (some b)
    | .enum _, .string s => .enum (some s)
    | _, v => valueToFieldValue texts v
  | none =>
    match fieldType with
    | .jsonBody => .jsonBody ""
    | _ => .empty

/-- The picker of a string input, on a surface that can drive it. -/
def pickerType? (spec : WorkflowInputSpec) : Option FieldType :=
  if dynamicEnums && isStringInput spec && spec.optionsSource.isSome then some .dynamicEnum
  else if filePickers && isStringInput spec && spec.filePicker.isSome then some .filePicker
  else none

def inputFormField (current : BTreeMap String Value) (spec : WorkflowInputSpec) : FormField :=
  let picker := pickerType? dynamicEnums filePickers spec
  { label := Strings.kebabLabel spec.name
    fieldType := picker.getD (plainFieldType spec)
    required := spec.required
    value := if picker.isSome then pickedValue (current.get? spec.name)
      else plainValue texts (plainFieldType spec) (current.get? spec.name)
    description := spec.description.getD ""
    source := .userInput
    key := .input spec.name
    schema := inputSchema spec
    readOnly := false
    dynamic := if picker = some .dynamicEnum then spec.optionsSource.map dynamicState else none
    filePicker := if picker = some .filePicker then spec.filePicker else none }

def buildInputsForm (specs : List WorkflowInputSpec) (current : BTreeMap String Value) :
    List FormField :=
  specs.map (inputFormField texts dynamicEnums filePickers current)

def inputPair? (field : FormField) : Option (String × Value) :=
  match field.key with
  | .input name =>
    (fieldValueString field.value).map fun raw => (name, coerceToSchema texts raw field.schema)
  | .slot _ | .review _ => none

def projectInputs (fields : List FormField) : BTreeMap String Value :=
  .ofList (fields.filterMap (inputPair? texts))

end Inputs

end Forms
