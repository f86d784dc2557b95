import AgsCli.Workflow.AutoDerive
import AgsCli.Workflow.JsonPath
import AgsCli.Workflow.LocalActions

/-! # Workflow compilation

`compile_workflow`: every validation rule in source order, the resolution of input schemas, and
the auto-derived fields of each step. -/
namespace Compile

open OrderedMap Json CatalogueTypes ProtocolError WorkflowTypes AutoDerive NestedPath JsonPath

inductive TemplateMode
  | text
  | opened
  | closed
  | name (run : List Char)
  deriving DecidableEq, Repr

def scanPlaceholders (template : String) : List Char → TemplateMode → List String →
    Except RuntimeError (List String)
  | [], .opened, _ | [], .name _, _ =>
    .error (.internal s!"Format template '{template}' has an unclosed `\x7b`")
  | [], _, out => .ok out
  | c :: rest, .opened, out =>
    if c = '{' then scanPlaceholders template rest .text out
    else if c = '}' then
      .error (.internal s!"Format template '{template}' has an empty `\x7b\x7d` placeholder")
    else scanPlaceholders template rest (.name [c]) out
  | c :: rest, .name run, out =>
    if c = '}' then
      let name := String.ofList run
      scanPlaceholders template rest .text (if out.contains name then out else out ++ [name])
    else scanPlaceholders template rest (.name (run ++ [c])) out
  | c :: rest, mode, out =>
    if c = '{' then scanPlaceholders template rest .opened out
    else if c = '}' && mode ≠ .closed then scanPlaceholders template rest .closed out
    else scanPlaceholders template rest .text out

/-- `{name}` placeholders in order of first appearance; doubled braces are literal. -/
def formatPlaceholders (template : String) : Except RuntimeError (List String) :=
  scanPlaceholders template template.toList .text []

def placeholdersOrEmpty (template : String) : List String :=
  match formatPlaceholders template with
  | .ok names => names
  | .error _ => []

/-- The workflow inputs one binding reads, in order of occurrence. -/
def sourceWorkflowInputs : BindingSource → List String
  | .reference r =>
    (match r.source with
      | .workflow input => [input]
      | .step _ => []) ++
    (match r.transform with
      | some (.arithmetic arith) =>
        match arith.operand with
        | .workflowInput operand => [operand]
        | .integer _ => []
      | _ => [])
  | .format f => placeholdersOrEmpty f.template
  | .literal _ => []
  | .mirror _ => []

/-- `visit_binding_workflow_inputs`: the names in the order they are visited. -/
def bindingWorkflowInputs (inputs : List StepInputBinding) : List String :=
  inputs.flatMap fun b => sourceWorkflowInputs b.source

def uniqueStepIdsFrom (definition : WorkflowDefinition) (seen : List String) :
    List StepDefinition → Except RuntimeError Unit
  | [] => .ok ()
  | step :: rest =>
    if seen.contains step.id then
      .error (.internal s!"workflow '{definition.id}' has duplicate step id '{step.id}'")
    else uniqueStepIdsFrom definition (step.id :: seen) rest

def validateUniqueStepIds (definition : WorkflowDefinition) : Except RuntimeError Unit :=
  uniqueStepIdsFrom definition [] definition.steps

def checkLocalFlag (step : StepDefinition) (flag : String × Bool) : Except RuntimeError Unit :=
  let rationale := if flag.1 = "skip_if_exists" then
      " (it responds to HTTP 409, which local actions do not produce)" else ""
  Checks.ensure (!flag.2)
    (.internal s!"step '{step.id}': '{flag.1}' is not supported on kind 'local' steps{rationale}")

def checkStepKind (step : StepDefinition) : Except RuntimeError Unit := do
  match step.kind with
  | .api =>
    Checks.ensure step.operation.isSome
      (.internal s!"step '{step.id}': kind 'api' requires an 'operation' field")
    Checks.ensure step.action.isNone
      (.internal s!"step '{step.id}': kind 'api' must not have an 'action' field")
  | .local =>
    Checks.ensure step.action.isSome
      (.internal s!"step '{step.id}': kind 'local' requires an 'action' field")
    Checks.ensure step.operation.isNone
      (.internal s!"step '{step.id}': kind 'local' must not have an 'operation' field")
    Checks.each [("confirm", step.confirm), ("is_optional", step.isOptional),
      ("continue_on_failure", step.continueOnFailure), ("skip_if_exists", step.skipIfExists)]
      (checkLocalFlag step)

def validateStepKinds (definition : WorkflowDefinition) : Except RuntimeError Unit :=
  Checks.each definition.steps checkStepKind

def stepPositions (definition : WorkflowDefinition) : BTreeMap String Nat :=
  .ofList (definition.steps.zipIdx.map fun p => (p.1.id, p.2))

def checkDependency (positions : BTreeMap String Nat) (i : Nat) (step : StepDefinition)
    (dep : String) : Except RuntimeError Unit :=
  match positions.get? dep with
  | some j => Checks.ensure (j < i)
      (.internal s!"step '{step.id}' depends on '{dep}' which is not declared earlier")
  | none => .error (.internal s!"step '{step.id}' depends on unknown step '{dep}'")

def validateDependencies (definition : WorkflowDefinition) : Except RuntimeError Unit :=
  Checks.each definition.steps.zipIdx fun p =>
    Checks.each p.1.dependencies (checkDependency (stepPositions definition) p.2 p.1)

def outputsByStep (definition : WorkflowDefinition) : BTreeMap String (List String) :=
  .ofList (definition.steps.map fun s => (s.id, s.outputs.map (·.name)))

def checkOutputReference (definition : WorkflowDefinition) (i : Nat) (step : StepDefinition)
    (binding : StepInputBinding) : Except RuntimeError Unit :=
  match binding.source with
  | .reference { source := .step id, output, .. } =>
    match (stepPositions definition).get? id with
    | none => .error (.internal
        s!"step '{step.id}' input '{binding.field}' references unknown step '{id}'")
    | some j =>
      if j ≥ i then .error (.internal
        (s!"step '{step.id}' input '{binding.field}' references step '{id}' " ++
          "which is not declared earlier"))
      else
        match output with
        | none => .error (.internal
            (s!"step '{step.id}' input '{binding.field}' references step '{id}' " ++
              "without naming an output"))
        | some outputName =>
          Checks.ensure (((outputsByStep definition).get? id).getD [] |>.contains outputName)
            (.internal (s!"step '{step.id}' input '{binding.field}' references undeclared " ++
              s!"output '{outputName}' of step '{id}'"))
  | _ => .ok ()

def validateStepOutputReferences (definition : WorkflowDefinition) : Except RuntimeError Unit :=
  Checks.each definition.steps.zipIdx fun p =>
    Checks.each p.1.inputs (checkOutputReference definition p.2 p.1)

def declaredInputs (definition : WorkflowDefinition) : List String :=
  definition.inputs.map (·.name)

def checkWorkflowReference (definition : WorkflowDefinition) (step : StepDefinition)
    (binding : StepInputBinding) : Except RuntimeError Unit := do
  match binding.source with
  | .reference { source := .workflow input, output, .. } =>
    Checks.ensure ((declaredInputs definition).contains input)
      (.internal (s!"step '{step.id}' input '{binding.field}' references undeclared " ++
        s!"workflow input '{input}'"))
    Checks.ensure output.isNone
      (.internal (s!"step '{step.id}' input '{binding.field}' may not name an `output:` when " ++
        "targeting a workflow input"))
  | _ => .ok ()

def validateWorkflowReferences (definition : WorkflowDefinition) : Except RuntimeError Unit :=
  Checks.each definition.steps fun step =>
    Checks.each step.inputs (checkWorkflowReference definition step)

def checkFormatBinding (definition : WorkflowDefinition) (binding : StepInputBinding) :
    Except RuntimeError Unit := do
  match binding.source with
  | .format f =>
    let placeholders ← formatPlaceholders f.template
    Checks.each placeholders fun name =>
      Checks.ensure ((declaredInputs definition).contains name) (.internal
        s!"Format template '{f.template}' references undeclared workflow input '{name}'")
  | _ => .ok ()

def validateFormatBindings (definition : WorkflowDefinition) : Except RuntimeError Unit :=
  Checks.each definition.steps fun step => Checks.each step.inputs (checkFormatBinding definition)

/-- A strict prefix that ends at a segment boundary of `other`. -/
def isPathPrefix (path other : String) : Bool :=
  path.toList.isPrefixOf other.toList &&
    match other.toList.drop path.toList.length with
    | c :: _ => c = '.' || c = '['
    | [] => false

def bindingsByField (inputs : List StepInputBinding) : BTreeMap String BindingSource :=
  .ofList (inputs.map fun b => (b.field, b.source))

def checkMirrorBinding (step : StepDefinition) (binding : StepInputBinding) :
    Except RuntimeError Unit := do
  match binding.source with
  | .mirror m =>
    Checks.ensure (m.mirrorOf ≠ binding.field)
      (.internal s!"step '{step.id}' input '{binding.field}' mirrors itself")
    Checks.ensure (!binding.showInReview)
      (.internal (s!"step '{step.id}' input '{binding.field}' is a mirror binding and must not " ++
        "set show_in_review (the mirrored target field owns the review row; edit it there " ++
        "instead)"))
    match (bindingsByField step.inputs).get? m.mirrorOf with
    | none =>
      let hint := (step.inputs.map (·.field)).find? fun field =>
        isPathPrefix m.mirrorOf field || isPathPrefix field m.mirrorOf
      match hint with
      | some candidate => .error (.internal
          (s!"step '{step.id}' input '{binding.field}' mirrors '{m.mirrorOf}', which is not " ++
            s!"bound in that step (did you mean '{candidate}'?)"))
      | none => .error (.internal
          (s!"step '{step.id}' input '{binding.field}' mirrors '{m.mirrorOf}', which is not " ++
            "bound in that step"))
    | some target =>
      Checks.ensure (!target.isMirror)
        (.internal (s!"step '{step.id}' input '{binding.field}' mirrors '{m.mirrorOf}', which " ++
          "is itself a mirror; mirrors must target a non-mirror binding"))
  | _ => .ok ()

def validateMirrorBindings (definition : WorkflowDefinition) : Except RuntimeError Unit :=
  Checks.each definition.steps fun step => Checks.each step.inputs (checkMirrorBinding step)

def completionTemplates (completion : WorkflowCompletion) : List String :=
  completion.created.map (·.value) ++ completion.nextSteps.map (·.command)

def validateCompletion (definition : WorkflowDefinition) : Except RuntimeError Unit := do
  match definition.completion with
  | none => .ok ()
  | some completion =>
    Checks.ensure (2 ≤ definition.steps.length)
      (.internal (s!"workflow '{definition.id}' declares a completion, which requires at least " ++
        "two steps; single-step workflows do not surface one"))
    Checks.ensure (!(completion.created.isEmpty && completion.nextSteps.isEmpty))
      (.internal (s!"workflow '{definition.id}' declares a completion with no content; at least " ++
        "one of `created` or `next_steps` must be non-empty"))
    Checks.each (completionTemplates completion) fun template => do
      let names ← formatPlaceholders template
      Checks.each names fun name =>
        Checks.ensure ((declaredInputs definition).contains name)
          (.internal (s!"workflow '{definition.id}' completion references undeclared workflow " ++
            s!"input '{name}'"))

def schemaType? (schema : Option Value) : Option String :=
  (schema.bind (·.get? "type")).bind (·.asStr?)

def isIntegerSchema (schema : Option Value) : Bool := schemaType? schema = some "integer"

def schemaTypeName (schema : Option Value) : String := (schemaType? schema).getD "<unspecified>"

def declaredInputSpecs (definition : WorkflowDefinition) : BTreeMap String WorkflowInputSpec :=
  .ofList (definition.inputs.map fun i => (i.name, i))

def checkArithmeticBinding (definition : WorkflowDefinition) (binding : StepInputBinding) :
    Except RuntimeError Unit := do
  match binding.source with
  | .reference { source, transform := some (.arithmetic arith), .. } =>
    match source with
    | .step _ => .error (.internal
        (s!"Arithmetic transform on field '{binding.field}' requires a workflow-input source " ++
          "(step references not supported)"))
    | .workflow srcName =>
      match (declaredInputSpecs definition).get? srcName with
      | none => .error (.internal
          (s!"Arithmetic transform on field '{binding.field}' references undeclared workflow " ++
            s!"input '{srcName}'"))
      | some srcInput =>
        Checks.ensure (isIntegerSchema srcInput.schema)
          (.internal (s!"Arithmetic transform on field '{binding.field}' requires an " ++
            s!"integer-typed source input ('{srcName}' is {schemaTypeName srcInput.schema})"))
        match arith.operand with
        | .integer _ => .ok ()
        | .workflowInput opName =>
          match (declaredInputSpecs definition).get? opName with
          | none => .error (.internal
              (s!"Arithmetic transform on field '{binding.field}' references undeclared " ++
                s!"workflow input '{opName}' as operand"))
          | some opInput =>
            Checks.ensure (isIntegerSchema opInput.schema)
              (.internal (s!"Arithmetic transform on field '{binding.field}' requires an " ++
                s!"integer-typed operand input ('{opName}' is {schemaTypeName opInput.schema})"))
  | _ => .ok ()

def validateArithmeticBindings (definition : WorkflowDefinition) : Except RuntimeError Unit :=
  Checks.each definition.steps fun step =>
    Checks.each step.inputs (checkArithmeticBinding definition)

def BindingSource.isSensitiveLiteral : BindingSource → Bool
  | .literal l => l.sensitive
  | _ => false

def hasSensitive (definition : WorkflowDefinition) : Bool :=
  definition.inputs.any (·.sensitive) || definition.outputs.any (·.sensitive) ||
    definition.steps.any fun step =>
      step.outputs.any (·.sensitive) ||
        step.inputs.any fun b => BindingSource.isSensitiveLiteral b.source

def validateNoSensitive (definition : WorkflowDefinition) : Except RuntimeError Unit :=
  Checks.ensure (!hasSensitive definition) (.internal
    s!"workflow '{definition.id}' declares a sensitive value, which is not yet supported")

def checkSkippableOutputs (step : StepDefinition) : Except RuntimeError Unit :=
  if !(step.isOptional || step.continueOnFailure || step.skipIfExists) then .ok ()
  else Checks.each step.outputs fun out => Checks.ensure out.default.isSome (.internal
    s!"step '{step.id}' is skippable but its output '{out.name}' has no default")

def validateSkippableOutputsHaveDefaults (definition : WorkflowDefinition) :
    Except RuntimeError Unit :=
  Checks.each definition.steps checkSkippableOutputs

/-- A no-op in the source too: array order already rules cycles out. -/
def validateNoCycles (_ : WorkflowDefinition) : Except RuntimeError Unit := .ok ()

def inputReferencedByFormat (input : WorkflowInputSpec) (definition : WorkflowDefinition) :
    Bool :=
  definition.steps.any fun step => step.inputs.any fun b =>
    match b.source with
    | .format f => (placeholdersOrEmpty f.template).contains input.name
    | _ => false

/-- One step's use sites of an input: explicit references to it, then an auto-bound field. -/
def stepUseSites (input : WorkflowInputSpec) (step : StepDefinition)
    (operation : OperationSchema) : List Value :=
  (step.inputs.filterMap fun b =>
    match b.source with
    | .reference { source := .workflow target, .. } =>
      if target = input.name then operationFieldSchema operation b.field else none
    | _ => none) ++
  (if (step.inputs.map (·.field)).contains input.name then []
    else (operationFieldSchema operation input.name).toList)

def collectUseSiteSchemas (input : WorkflowInputSpec) (definition : WorkflowDefinition)
    (catalogue : Catalogue) : Except RuntimeError (List Value) := do
  let sites ← Checks.collect (fun step : StepDefinition =>
    match step.operation with
    | none => .ok []
    | some opRef => do
      let serviceSchema ← catalogue.getOrLoad opRef.service
      let operation ← findOperationOrError serviceSchema opRef s!"step '{step.id}'"
      .ok (stepUseSites input step operation)) definition.steps
  .ok sites.flatten

def reconcileUseSiteSchemas (inputName : String) (candidates : List Value) :
    Except RuntimeError (Option Value) :=
  match candidates with
  | [] => .ok none
  | first :: others =>
    if others.any (· ≠ first) then .error (.internal
      (s!"workflow input '{inputName}' has conflicting schemas across use sites; declare an " ++
        "explicit `schema:` to disambiguate"))
    else .ok (some first)

def inferSchemaFromValue : Value → Value
  | .null => typeSchema "null"
  | .bool _ => typeSchema "boolean"
  | .number (.int _) => typeSchema "integer"
  | .number (.float _) => typeSchema "number"
  | .string _ => typeSchema "string"
  | .array _ => typeSchema "array"
  | .object _ => typeSchema "object"

def resolveInputSchema (definition : WorkflowDefinition) (catalogue : Catalogue)
    (input : WorkflowInputSpec) : Except RuntimeError WorkflowInputSpec := do
  if input.schema.isSome then return input
  let candidates ← collectUseSiteSchemas input definition catalogue
  match ← reconcileUseSiteSchemas input.name candidates with
  | some schema => .ok { input with schema := some schema }
  | none =>
    match input.default with
    | some default => .ok { input with schema := some (inferSchemaFromValue default) }
    | none =>
      if inputReferencedByFormat input definition then
        .ok { input with schema := some (typeSchema "string") }
      else .error (.internal
        (s!"workflow input '{input.name}' has no resolvable schema; bind it to a step field, " ++
          "declare a schema, or provide a default"))

def resolveInputSchemas (definition : WorkflowDefinition) (catalogue : Catalogue) :
    Except RuntimeError (List WorkflowInputSpec) :=
  Checks.collect (resolveInputSchema definition catalogue) definition.inputs

def literalMatchesSchemaType (value schema : Value) : Bool :=
  match (schema.get? "type").bind (·.asStr?) with
  | none => true
  | some expected =>
    if expected = "string" then value.isString
    else if expected = "integer" then value.isInteger
    else if expected = "number" then value.isNumber
    else if expected = "boolean" then value.isBoolean
    else if expected = "array" then value.isArray
    else if expected = "object" then value.isObject
    else true

def checkOptionParameter (definition : WorkflowDefinition) (input : WorkflowInputSpec)
    (source : OptionsSource) (operation : OperationSchema)
    (param : String × OptionParameterBinding) : Except RuntimeError Unit := do
  match operationFieldSchema operation param.1 with
  | none => .error (.internal
      (s!"input '{input.name}' options_source binds unknown parameter '{param.1}' on operation " ++
        s!"'{source.operation.operation}'"))
  | some fieldSchema =>
    match param.2 with
    | .literal value =>
      Checks.ensure (literalMatchesSchemaType value fieldSchema)
        (.internal (s!"input '{input.name}' options_source Literal for parameter '{param.1}' is " ++
          "type-incompatible with the operation field schema"))
    | .fromInput name | .fromInputOptional name =>
      Checks.ensure ((declaredInputs definition).contains name)
        (.internal (s!"input '{input.name}' options_source FromInput('{name}') references an " ++
          "undeclared workflow input"))

def checkOptionPath (input : WorkflowInputSpec) (label path : String) :
    Except RuntimeError Unit :=
  Checks.ensure (jsonpathIsValid path) (.internal
    (s!"input '{input.name}' options_source {label} '{path}' is not a valid JSONPath subset " ++
      "expression"))

/-- `$`, or `$.` and one key. -/
def isMergeableItemsPath (path : String) : Bool :=
  path = "$" ||
    match path.toList with
    | '$' :: '.' :: key => !key.isEmpty && key.all fun c => !(c = '.' || c = '[')
    | _ => false

def checkOptionsSource (definition : WorkflowDefinition) (catalogue : Catalogue)
    (input : WorkflowInputSpec) : Except RuntimeError Unit := do
  match input.optionsSource with
  | none => .ok ()
  | some source =>
    Checks.ensure (schemaType? input.schema = some "string")
      (.internal (s!"input '{input.name}' declares an options_source but is not string-typed; " ++
        "options_source attaches only to \x7b\"type\":\"string\"\x7d inputs"))
    let serviceSchema ← catalogue.getOrLoad source.operation.service
    let operation ← findOperationOrError serviceSchema source.operation
      s!"input '{input.name}' options_source"
    Checks.ensure (operation.httpMethod = .get)
      (.internal (s!"input '{input.name}' options_source operation " ++
        s!"'{source.operation.operation}' is {operation.httpMethod.asStr}, not GET; " ++
        "a dynamic-enum fetch must never run a mutating operation"))
    Checks.each source.parameters (checkOptionParameter definition input source operation)
    checkOptionPath input "items_path" source.itemsPath
    checkOptionPath input "value" source.value
    Checks.each source.label.toList (checkOptionPath input "label")
    Checks.each source.filter.toList fun filter =>
      checkOptionPath input "filter path" filter.path
    Checks.ensure (isMergeableItemsPath source.itemsPath)
      (.internal (s!"input '{input.name}' options_source items_path '{source.itemsPath}' must " ++
        "be `$` (root array) or a single-segment path like `$.images` (nested item-array paths " ++
        "are not supported in v1)"))

def validateOptionsSources (definition : WorkflowDefinition)
    (resolvedInputs : List WorkflowInputSpec) (catalogue : Catalogue) :
    Except RuntimeError Unit :=
  Checks.each resolvedInputs (checkOptionsSource definition catalogue)

def checkFilePicker (input : WorkflowInputSpec) : Except RuntimeError Unit := do
  match input.filePicker with
  | none => .ok ()
  | some picker =>
    Checks.ensure (schemaType? input.schema = some "string")
      (.internal (s!"input '{input.name}' declares a file_picker but is not string-typed; " ++
        "file_picker attaches only to \x7b\"type\":\"string\"\x7d inputs"))
    Checks.ensure input.optionsSource.isNone
      (.internal (s!"input '{input.name}' declares both a file_picker and an options_source; " ++
        "these are alternate value-resolution mechanisms and cannot combine"))
    Checks.each (picker.extensions.getD []) fun ext =>
      Checks.ensure (!(ext.isEmpty || ext.toList.head? = some '.'))
        (.internal (s!"input '{input.name}' file_picker extension '{ext}' must be non-empty and " ++
          "must not start with '.' (write \"png\", not \".png\")"))
    Checks.each picker.startDir.toList fun startDir =>
      Checks.ensure (!startDir.isEmpty) (.internal
        s!"input '{input.name}' file_picker start_dir must not be empty when present")

def validateFilePickers (resolvedInputs : List WorkflowInputSpec) : Except RuntimeError Unit :=
  Checks.each resolvedInputs checkFilePicker

def checkNestedPath (rootFields : List BodyField) (binding : StepInputBinding) :
    Except RuntimeError Unit :=
  match parse binding.field with
  | .error e => .error (.internal
      s!"Binding field '{binding.field}' is not a valid path: {e.message}")
  | .ok path =>
    if path.length > 1 then
      match resolveAgainstSchema path rootFields with
      | .ok _ => .ok ()
      | .error e => .error (.internal
          (s!"Binding field '{binding.field}' could not be resolved against the operation " ++
            s!"schema: {e.message}"))
    else .ok ()

def validateNestedPaths (definition : WorkflowDefinition) (catalogue : Catalogue) :
    Except RuntimeError Unit :=
  Checks.each definition.steps fun step =>
    match step.operation with
    | none => .ok ()
    | some opRef => do
      let serviceSchema ← catalogue.getOrLoad opRef.service
      let operation ← findOperationOrError serviceSchema opRef s!"step '{step.id}'"
      Checks.each step.inputs (checkNestedPath operation.bodyFields)

mutual

/-- `walk_value_leaves`: the path text of every scalar or empty container. -/
def walkValueLeaves : Value → String → List String
  | .object members, path => if members.isEmpty then [path] else walkMembers members path
  | .array items, path => if items.isEmpty then [path] else walkItems items path 0
  | .null, path | .bool _, path | .number _, path | .string _, path => [path]

def walkMembers : List (String × Value) → String → List String
  | [], _ => []
  | (k, v) :: rest, path => walkValueLeaves v s!"{path}.{k}" ++ walkMembers rest path

def walkItems : List Value → String → Nat → List String
  | [], _, _ => []
  | v :: rest, path, i => walkValueLeaves v s!"{path}[{i}]" ++ walkItems rest path (i + 1)

end

def bindingClaimedLeaves (binding : StepInputBinding) : List String :=
  match binding.source with
  | .literal l =>
    let leaves := walkValueLeaves l.value binding.field
    if leaves.isEmpty then [binding.field] else leaves
  | _ => [binding.field]

/-- The (leaf, claiming field) pairs of a step, in claiming order. -/
def claimedLeaves (inputs : List StepInputBinding) : List (String × String) :=
  inputs.flatMap fun b => (bindingClaimedLeaves b).map fun leaf => (leaf, b.field)

def checkLeafCollisions (step : StepDefinition) (claimed : BTreeMap String String) :
    List (String × String) → Except RuntimeError Unit
  | [] => .ok ()
  | (leaf, field) :: rest =>
    match claimed.get? leaf with
    | some existing => .error (.internal
        (s!"Step '{step.id}': leaf '{leaf}' is bound by both binding '{existing}' and binding " ++
          s!"'{field}' — each leaf must be bound at most once across literal-base and nested " ++
          "bindings"))
    | none => checkLeafCollisions step (claimed.insert leaf field) rest

def validateLeafCollisions (definition : WorkflowDefinition) : Except RuntimeError Unit :=
  Checks.each definition.steps fun step =>
    checkLeafCollisions step .empty (claimedLeaves step.inputs)

def checkActionInput (step : StepDefinition) (action : String)
    (declared : List LocalActions.LocalActionInput) (binding : StepInputBinding) :
    Except RuntimeError Unit :=
  Checks.ensure (declared.any (·.name = rootName binding.field)) (.internal
    (s!"step '{step.id}' binds '{binding.field}', which local action '{action}' does not " ++
      "accept"))

def checkActionRequired (step : StepDefinition) (action : String)
    (input : LocalActions.LocalActionInput) : Except RuntimeError Unit :=
  Checks.ensure (step.inputs.any fun b =>
      b.field = input.name || (input.name ++ ".").toList.isPrefixOf b.field.toList)
    (.internal (s!"step '{step.id}' leaves required input '{input.name}' of local action " ++
      s!"'{action}' unbound"))

def checkLocalAction (step : StepDefinition) : Except RuntimeError Unit := do
  match step.action with
  | none => .error (.internal
      s!"step '{step.id}': local step reached compile_workflow without an action")
  | some action =>
    match LocalActions.lookup action with
    | none =>
      let known := LocalActions.knownNames
      let names := if known.isEmpty then "(none)" else Strings.join ", " known
      .error (.internal
        s!"step '{step.id}': unknown local action '{action}'; known actions: {names}")
    | some declared =>
      Checks.each step.inputs (checkActionInput step action declared)
      Checks.each (declared.filter (·.required)) (checkActionRequired step action)

def compileAutoDerived (catalogue : Catalogue) (resolvedInputs : List WorkflowInputSpec)
    (step : StepDefinition) : Except RuntimeError (List AutoDerivedField) := do
  match step.kind with
  | .api =>
    match step.operation with
    | none => .error (.internal
        s!"step '{step.id}': API step reached compile_workflow without an operation")
    | some opRef =>
      let serviceSchema ← catalogue.getOrLoad opRef.service
      autoDeriveStep step serviceSchema resolvedInputs
  | .local =>
    checkLocalAction step
    .ok []

def compiledStep (step : StepDefinition) (index : Nat) (autoDerived : List AutoDerivedField) :
    CompiledStep :=
  { id := step.id, index, description := step.description, kind := step.kind
    action := step.action, operation := step.operation, dependencies := step.dependencies
    confirm := step.confirm, isOptional := step.isOptional
    continueOnFailure := step.continueOnFailure, skipIfExists := step.skipIfExists
    isReviewed := step.isReviewed, inputs := step.inputs, outputs := step.outputs, autoDerived }

def compileStep (catalogue : Catalogue) (resolvedInputs : List WorkflowInputSpec)
    (p : StepDefinition × Nat) : Except RuntimeError CompiledStep := do
  let autoDerived ← compileAutoDerived catalogue resolvedInputs p.1
  .ok (compiledStep p.1 p.2 autoDerived)

def compileWorkflow (definition : WorkflowDefinition) (catalogue : Catalogue) :
    Except RuntimeError CompiledWorkflow := do
  validateUniqueStepIds definition
  validateStepKinds definition
  validateDependencies definition
  validateStepOutputReferences definition
  validateWorkflowReferences definition
  validateFormatBindings definition
  validateMirrorBindings definition
  validateCompletion definition
  validateArithmeticBindings definition
  validateNoSensitive definition
  validateSkippableOutputsHaveDefaults definition
  validateNoCycles definition
  let resolvedInputs ← resolveInputSchemas definition catalogue
  validateOptionsSources definition resolvedInputs catalogue
  validateFilePickers resolvedInputs
  validateNestedPaths definition catalogue
  validateLeafCollisions definition
  let steps ← Checks.collect (compileStep catalogue resolvedInputs) definition.steps.zipIdx
  .ok { id := definition.id, name := definition.name, briefing := definition.briefing
        inputs := resolvedInputs, isReviewedByDefault := definition.isReviewedByDefault
        steps, outputs := definition.outputs, completion := definition.completion }

end Compile
