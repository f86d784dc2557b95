import AgsCli.Workflow.CompileFacts
import AgsCli.Workflow.NeededInputs

/-! # Synthesised workflows

`synthesise_workflow_definition`: the one-step workflow of a command. An input is declared for
each parameter and body field, one for a parameter and a field of the same name. -/
namespace Synthesised

open OrderedMap Json CatalogueTypes ProtocolError WorkflowTypes AutoDerive

def containsText (pattern : List Char) : List Char → Bool
  | [] => pattern.isEmpty
  | c :: rest => pattern.isPrefixOf (c :: rest) || containsText pattern rest

def riskyKeywords : List String :=
  ["delete", "ban", "revoke", "reset", "disable", "remove", "force", "stop"]

def requiresConfirmation (httpMethod : HttpMethod) (operationName : String) : Bool :=
  match httpMethod with
  | .delete => true
  | .post | .put | .patch =>
    riskyKeywords.any fun keyword =>
      containsText keyword.toList (Strings.asciiLower operationName).toList
  | .get => false

/-- `parameter_schema_value`: the type alone for arrays. -/
def parameterSchemaValue (param : ParameterSchema) : Value :=
  match param.valueType with
  | .string => typeSchema "string"
  | .integer => typeSchema "integer"
  | .number => typeSchema "number"
  | .boolean => typeSchema "boolean"
  | .array _ => typeSchema "array"
  | .enum values => enumSchema values

def parameterSpec (param : ParameterSchema) : WorkflowInputSpec :=
  { name := param.name
    description := param.description
    schema := some (parameterSchemaValue param)
    required := param.required
    default := param.default
    sensitive := false
    optionsSource := none
    filePicker := none
    location := locationOf param.location }

def bodyFieldSpec (operation : OperationSchema) (field : BodyField) : WorkflowInputSpec :=
  { name := field.name
    description := field.description
    schema := some ((operationFieldSchema operation field.name).getD (typeSchema "string"))
    required := field.required
    default := field.default
    sensitive := false
    optionsSource := none
    filePicker := none
    location := .body }

/-- A body field of a name already declared: the parameter's schema and location stay. -/
def couple (spec : WorkflowInputSpec) (field : BodyField) : WorkflowInputSpec :=
  { spec with
    required := spec.required || field.required
    description := spec.description.or field.description
    default := spec.default.or field.default }

def declares (specs : List WorkflowInputSpec) (name : String) : Bool := specs.any (·.name = name)

def addParameters (service operationId : String) :
    List ParameterSchema → List WorkflowInputSpec → Except RuntimeError (List WorkflowInputSpec)
  | [], specs => .ok specs
  | param :: rest, specs =>
    if param.location = .body then addParameters service operationId rest specs
    else if declares specs param.name then .error (.internal
      (s!"cannot synthesise single-command workflow for {service}.{operationId}: " ++
        s!"two parameters share the name '{param.name}'"))
    else addParameters service operationId rest (specs ++ [parameterSpec param])

def addBodyField (operation : OperationSchema) (specs : List WorkflowInputSpec)
    (field : BodyField) : List WorkflowInputSpec :=
  if declares specs field.name then
    specs.map fun spec => if spec.name = field.name then couple spec field else spec
  else specs ++ [bodyFieldSpec operation field]

def synthesisedStep (service operationId : String) (operation : OperationSchema) : StepDefinition :=
  { id := "main", description := none, kind := .api, action := none
    operation := some ⟨service, operationId⟩, dependencies := []
    confirm := requiresConfirmation operation.httpMethod operation.name
    isOptional := false, continueOnFailure := false, skipIfExists := false, isReviewed := none
    inputs := [], outputs := [] }

def synthesiseWorkflowDefinition (service operationId : String) (schema : ServiceSchema) :
    Except RuntimeError WorkflowDefinition :=
  match findOperation schema operationId with
  | none => .error (.internal
      s!"cannot synthesise workflow: operation '{service}.{operationId}' not found")
  | some operation => do
    let specs ← addParameters service operationId operation.parameters []
    .ok { id := s!"synth({service}.{operationId})"
          name := s!"{service} {operationId}"
          briefing := none
          inputs := operation.bodyFields.foldl (addBodyField operation) specs
          isReviewedByDefault := true
          steps := [synthesisedStep service operationId operation]
          outputs := []
          completion := none }

section Inputs

variable {service operationId : String} {operation : OperationSchema}
  {specs : List WorkflowInputSpec}

theorem declares_iff {name : String} : declares specs name = true ↔ name ∈ specs.map (·.name) := by
  rw [declares, List.any_eq_true, List.mem_map]
  exact exists_congr fun spec => and_congr_right fun _ => decide_eq_true_iff

theorem nodup_declare {spec : WorkflowInputSpec} (hnodup : (specs.map (·.name)).Nodup)
    (hfresh : declares specs spec.name ≠ true) : ((specs ++ [spec]).map (·.name)).Nodup := by
  rw [List.map_append, List.nodup_append]
  refine ⟨hnodup, List.nodup_singleton _, ?_⟩
  intro name hname other hother heq
  have hlast : other = spec.name := List.mem_singleton.mp hother
  rw [heq, hlast] at hname
  exact hfresh (declares_iff.mpr hname)

structure Parameters (params : List ParameterSchema) (specs : List WorkflowInputSpec) : Prop where
  nodup : (specs.map (·.name)).Nodup
  schema : ∀ spec ∈ specs, spec.schema.isSome = true
  declared : ∀ p ∈ params, p.location ≠ .body → parameterSpec p ∈ specs

theorem Parameters.sameName {params : List ParameterSchema} (h : Parameters params specs)
    (p : ParameterSchema) (hp : p ∈ params) (hplocation : p.location ≠ .body) (q : ParameterSchema)
    (hq : q ∈ params) (hqlocation : q.location ≠ .body) (hname : p.name = q.name) :
    parameterSpec p = parameterSpec q :=
  List.inj_on_of_nodup_map h.nodup (h.declared p hp hplocation) (h.declared q hq hqlocation) hname

theorem addParameters_ok {params : List ParameterSchema} {before : List WorkflowInputSpec}
    (h : addParameters service operationId params before = .ok specs)
    (hnodup : (before.map (·.name)).Nodup)
    (hschema : ∀ spec ∈ before, spec.schema.isSome = true) :
    Parameters params specs ∧ before ⊆ specs := by
  induction params generalizing before with
  | nil =>
    obtain rfl := Except.ok.inj h
    exact ⟨⟨hnodup, hschema, fun p hp => absurd hp List.not_mem_nil⟩, List.Subset.refl _⟩
  | cons param rest ih =>
    rw [addParameters] at h
    split_ifs at h with hbody hdeclared
    · obtain ⟨⟨hspecs, hsome, hrest⟩, hsub⟩ := ih h hnodup hschema
      refine ⟨⟨hspecs, hsome, fun p hp hlocation => ?_⟩, hsub⟩
      rcases List.mem_cons.mp hp with rfl | hp
      · exact absurd hbody hlocation
      · exact hrest p hp hlocation
    · have hnext : ∀ spec ∈ before ++ [parameterSpec param], spec.schema.isSome = true := by
        intro spec hspec
        rcases List.mem_append.mp hspec with hspec | hspec
        · exact hschema spec hspec
        · rw [List.mem_singleton.mp hspec]
          rfl
      obtain ⟨⟨hspecs, hsome, hrest⟩, hsub⟩ := ih h (nodup_declare hnodup hdeclared) hnext
      have hbefore := List.append_subset.mp hsub
      refine ⟨⟨hspecs, hsome, fun p hp hlocation => ?_⟩, hbefore.1⟩
      rcases List.mem_cons.mp hp with rfl | hp
      · exact hbefore.2 List.mem_cons_self
      · exact hrest p hp hlocation

/-- What the body fields keep of an input: its name and schema, and its default unless a field of
its name has one. -/
structure Kept (fields : List BodyField) (before after : WorkflowInputSpec) : Prop where
  name : after.name = before.name
  schema : after.schema = before.schema
  default : before.name ∉ fields.map (·.name) → after.default = before.default

theorem addBodyField_kept (field : BodyField) {spec : WorkflowInputSpec} (h : spec ∈ specs) :
    ∃ after ∈ addBodyField operation specs field, Kept [field] spec after := by
  rw [addBodyField]
  split_ifs with hdeclared
  · refine ⟨_, List.mem_map_of_mem h, ?_⟩
    split_ifs with hname
    · refine ⟨rfl, rfl, fun hnot => absurd ?_ hnot⟩
      rw [hname]
      exact List.mem_cons_self
    · exact ⟨rfl, rfl, fun _ => rfl⟩
  · exact ⟨spec, List.mem_append_left _ h, rfl, rfl, fun _ => rfl⟩

theorem addBodyField_names (field : BodyField) (hnodup : (specs.map (·.name)).Nodup) :
    ((addBodyField operation specs field).map (·.name)).Nodup ∧
      field.name ∈ (addBodyField operation specs field).map (·.name) := by
  rw [addBodyField]
  split_ifs with hdeclared
  · have hsame : (specs.map fun spec =>
        if spec.name = field.name then couple spec field else spec).map (·.name) =
        specs.map (·.name) := by
      rw [List.map_map]
      refine List.map_congr_left fun spec _ => ?_
      by_cases hname : spec.name = field.name
      · simp [hname, couple]
      · simp [hname]
    rw [hsame]
    exact ⟨hnodup, declares_iff.mp hdeclared⟩
  · refine ⟨nodup_declare hnodup hdeclared, ?_⟩
    rw [List.map_append]
    exact List.mem_append_right _ List.mem_cons_self

theorem bodyFields_schema {fields : List BodyField}
    (hschema : ∀ spec ∈ specs, spec.schema.isSome = true) :
    ∀ spec ∈ fields.foldl (addBodyField operation) specs, spec.schema.isSome = true := by
  induction fields generalizing specs with
  | nil => exact hschema
  | cons field rest ih =>
    refine ih fun spec hspec => ?_
    rw [addBodyField] at hspec
    split_ifs at hspec with hdeclared
    · obtain ⟨before, hbefore, rfl⟩ := List.mem_map.mp hspec
      split_ifs
      · exact hschema before hbefore
      · exact hschema before hbefore
    · rcases List.mem_append.mp hspec with hspec | hspec
      · exact hschema spec hspec
      · rw [List.mem_singleton.mp hspec]
        rfl

theorem bodyFields_kept {fields : List BodyField} (hnodup : (specs.map (·.name)).Nodup) :
    ((fields.foldl (addBodyField operation) specs).map (·.name)).Nodup ∧
      (∀ spec ∈ specs, ∃ after ∈ fields.foldl (addBodyField operation) specs,
        Kept fields spec after) ∧
      ∀ field ∈ fields, field.name ∈ (fields.foldl (addBodyField operation) specs).map (·.name) := by
  induction fields generalizing specs with
  | nil =>
    exact ⟨hnodup, fun spec h => ⟨spec, h, rfl, rfl, fun _ => rfl⟩,
      fun field h => absurd h List.not_mem_nil⟩
  | cons field rest ih =>
    obtain ⟨hnames, hmem⟩ := @addBodyField_names operation specs field hnodup
    obtain ⟨hrestNodup, hrestKept, hrestNames⟩ := ih hnames
    have hkept : ∀ spec ∈ specs, ∃ after ∈ (field :: rest).foldl (addBodyField operation) specs,
        Kept (field :: rest) spec after := by
      intro spec h
      obtain ⟨next, hnext, hname, hschema, hdefault⟩ := @addBodyField_kept operation specs field _ h
      obtain ⟨after, hafter, hname', hschema', hdefault'⟩ := hrestKept next hnext
      refine ⟨after, hafter, hname'.trans hname, hschema'.trans hschema, fun hnot => ?_⟩
      rw [List.map_cons, List.mem_cons, not_or] at hnot
      rw [hdefault' (hname ▸ hnot.2), hdefault (by simpa using hnot.1)]
    refine ⟨hrestNodup, hkept, fun other hother => ?_⟩
    rcases List.mem_cons.mp hother with rfl | hother
    · obtain ⟨spec, hspec, heq⟩ := List.mem_map.mp hmem
      obtain ⟨after, hafter, hname, -⟩ := hrestKept spec hspec
      exact List.mem_map.mpr ⟨after, hafter, hname.trans heq⟩
    · exact hrestNames other hother

end Inputs

section Compiled

variable {service operationId : String} {schema : ServiceSchema} {operation : OperationSchema}
  {catalogue : Catalogue} {definition : WorkflowDefinition} {compiled : CompiledWorkflow}

/-- A compiled command: its one step binds nothing, and every field is an input. -/
structure OneStep (service operationId : String) (operation : OperationSchema)
    (compiled : CompiledWorkflow) (step : CompiledStep) : Prop where
  steps : compiled.steps = [step]
  reference : step.operation = some ⟨service, operationId⟩
  kind : step.kind = .api
  inputs : step.inputs = []
  derived : step.autoDerived =
    operation.requiredParameters.map (derivedParameter compiled.inputs) ++
      operation.requiredBodyFields.map (derivedBodyField compiled.inputs)
  nodup : (compiled.inputs.map (·.name)).Nodup
  sameName : ∀ p ∈ operation.parameters, p.location ≠ .body → ∀ q ∈ operation.parameters,
    q.location ≠ .body → p.name = q.name → parameterSpec p = parameterSpec q
  parameters : ∀ p ∈ operation.parameters, p.location ≠ .body → ∃ spec ∈ compiled.inputs,
    Kept operation.bodyFields (parameterSpec p) spec
  fields : ∀ field ∈ operation.bodyFields, field.name ∈ compiled.inputs.map (·.name)

theorem synthesised_ok (hop : findOperation schema operationId = some operation)
    (h : synthesiseWorkflowDefinition service operationId schema = .ok definition) :
    ∃ specs, Parameters operation.parameters specs ∧
      definition.inputs = operation.bodyFields.foldl (addBodyField operation) specs ∧
      definition.steps = [synthesisedStep service operationId operation] := by
  simp only [synthesiseWorkflowDefinition, hop] at h
  obtain ⟨specs, hspecs, h⟩ := Checks.bind_eq_ok.mp h
  obtain rfl := Except.ok.inj h
  exact ⟨specs, (addParameters_ok hspecs List.nodup_nil
    fun spec hspec => absurd hspec List.not_mem_nil).1, rfl, rfl⟩

theorem resolved_inputs {inputs : List WorkflowInputSpec}
    (hschema : ∀ spec ∈ definition.inputs, spec.schema.isSome = true)
    (h : Compile.resolveInputSchemas definition catalogue = .ok inputs) :
    inputs = definition.inputs := by
  have hall := Checks.collect_eq_ok.mp h
  have hsame : ∀ {before after : List WorkflowInputSpec},
      (∀ spec ∈ before, spec.schema.isSome = true) →
      List.Forall₂ (fun spec resolved =>
        Compile.resolveInputSchema definition catalogue spec = .ok resolved) before after →
      after = before := by
    intro before after hbefore hall
    induction hall with
    | nil => rfl
    | @cons spec resolved rest after hspec _ ih =>
      rw [Compile.resolveInputSchema, if_pos (hbefore spec List.mem_cons_self)] at hspec
      obtain rfl := Except.ok.inj hspec
      rw [ih fun spec hmem => hbefore spec (List.mem_cons_of_mem _ hmem)]
  exact hsame hschema hall

/-- Without bindings every required field is left to the inputs. -/
theorem autoDerive_synthesised (hop : findOperation schema operationId = some operation)
    (inputs : List WorkflowInputSpec) :
    autoDeriveStep (synthesisedStep service operationId operation) schema inputs =
      .ok (operation.requiredParameters.map (derivedParameter inputs) ++
        operation.requiredBodyFields.map (derivedBodyField inputs)) := by
  have hfind : ∀ context, findOperationOrError schema ⟨service, operationId⟩ context =
      .ok operation := fun context => by simp only [findOperationOrError, hop]
  have hparams : operation.requiredParameters.filter (fun p => !(boundFields []).contains p.name) =
      operation.requiredParameters := List.filter_eq_self.mpr fun p _ => rfl
  have hfields : operation.requiredBodyFields.filter (fun f => !(boundFields []).contains f.name) =
      operation.requiredBodyFields := List.filter_eq_self.mpr fun f _ => rfl
  refine Checks.bind_eq_ok.mpr ⟨⟨service, operationId⟩, rfl, ?_⟩
  refine Checks.bind_eq_ok.mpr ⟨operation, hfind _, ?_⟩
  simp only [synthesisedStep, hparams, hfields]

theorem oneStep_of_compiled (hop : findOperation schema operationId = some operation)
    (hload : catalogue.getOrLoad service = .ok schema)
    (hsynth : synthesiseWorkflowDefinition service operationId schema = .ok definition)
    (hcompile : Compile.compileWorkflow definition catalogue = .ok compiled) :
    ∃ step, OneStep service operationId operation compiled step := by
  obtain ⟨specs, hparams, hinputs, hsteps⟩ := synthesised_ok hop hsynth
  have haccepted := Compile.compileWorkflow_ok hcompile
  obtain ⟨hnodup, hkept, hfields⟩ :=
    @bodyFields_kept operation specs operation.bodyFields hparams.nodup
  rw [← hinputs] at hnodup hkept hfields
  have hresolved := resolved_inputs (by
    rw [hinputs]
    exact bodyFields_schema hparams.schema) haccepted.inputs
  rw [← hresolved] at hnodup hkept hfields
  have hforall := haccepted.steps
  rw [hsteps] at hforall
  obtain ⟨step, rest, hstep, hrest, heq⟩ := List.forall₂_cons_left_iff.mp hforall
  rw [List.forall₂_nil_left_iff.mp hrest] at heq
  obtain ⟨autoDerived, hauto, rfl⟩ := Compile.compileStep_ok hstep
  have hderived : autoDeriveStep (synthesisedStep service operationId operation) schema
      compiled.inputs = .ok autoDerived := by
    simp only [Compile.compileAutoDerived, synthesisedStep, hload] at hauto
    exact hauto
  rw [autoDerive_synthesised hop] at hderived
  exact ⟨_, heq, rfl, rfl, rfl, (Except.ok.inj hderived).symm, hnodup, hparams.sameName,
    fun p hp hlocation => hkept _ (hparams.declared p hp hlocation), hfields⟩

end Compiled

end Synthesised
