import AgsCli.Dispatch.WireParameters
import AgsCli.Workflow.PlanRows

/-! # The request behind a review

The plan resolves field by field, the request in passes. What a plan shows is what the request
carries on the inputs that keep the two together. -/
namespace ReviewedRequest

open OrderedMap Json CatalogueTypes ProtocolError RequestTypes WorkflowTypes WorkflowContext
  NestedPath AutoDerive Resolve ReviewPlan Assemble WireParameters BindingRoots BindingCollisions
  NestedWrites PlanRows

def formPart (param : ParameterSchema) (text : String) : FormPart :=
  if param.isFile then .file param.name text ((fileName? text).getD "upload")
  else .text param.name text

/-- A member of the JSON body, looked for behind the envelope. -/
def sentMember? (operation : OperationSchema) (request : CommandRequest) (name : String) :
    Option Value :=
  match request.body with
  | some (.json body) => readBody operation (some body) [.key name]
  | _ => none

/-- The field's row shows the value, which is not null. -/
def Reviews (plan : StepFieldPlan) (name : String) (v : Value) : Prop :=
  v ≠ .null ∧ ∃ row, row? plan name = some row ∧ row.value = v

def FormGiven (operation : OperationSchema) (scope : StepScope) : Prop :=
  ∃ param ∈ operation.parameters, param.location = .formData ∧ own scope param.name ≠ none

section Outcomes

variable {files : String → FileStatus} {step : CompiledStep} {scope : StepScope}
  {operation : OperationSchema} {options : RunOptions} {name : String}

theorem mem_formParts {params : List ParameterSchema} {parts : List FormPart} {part : FormPart}
    (h : collectFormParts files step scope params = .ok parts) :
    part ∈ parts ↔ ∃ param ∈ params, param.location = .formData ∧
      ∃ v, own scope param.name = some v ∧ part = formPart param (jsonToParamString v) := by
  induction params generalizing parts with
  | nil =>
    obtain rfl := Except.ok.inj h
    simp
  | cons param rest ih =>
    rw [collectFormParts] at h
    by_cases hform : param.location = .formData
    · rw [if_neg (not_not_intro hform)] at h
      cases hvalue : resolveFieldValue scope param.name with
      | error e =>
        rw [hvalue] at h
        cases h
      | ok value =>
        rw [hvalue] at h
        have hown := own_of_resolve hvalue
        cases value with
        | none =>
          simp only at h
          split_ifs at h
          rw [ih h]
          simp [hown]
        | some v =>
          have hcons : ∃ others, collectFormParts files step scope rest = .ok others ∧
              parts = formPart param (jsonToParamString v) :: others := by
            unfold formPart
            simp only at h
            split_ifs at h ⊢ with hfile
            · obtain ⟨first, hfirst, h⟩ := Checks.bind_eq_ok.mp h
              obtain ⟨others, hothers, h⟩ := Checks.bind_eq_ok.mp h
              unfold validateAndBuildFilePart at hfirst
              split at hfirst
              · cases hfirst
              · cases hfirst
              · rw [Except.ok.inj hfirst]
                exact ⟨others, hothers, (Except.ok.inj h).symm⟩
            · obtain ⟨first, hfirst, h⟩ := Checks.bind_eq_ok.mp h
              obtain rfl := Except.ok.inj hfirst
              obtain ⟨others, hothers, h⟩ := Checks.bind_eq_ok.mp h
              exact ⟨others, hothers, (Except.ok.inj h).symm⟩
          obtain ⟨others, hothers, rfl⟩ := hcons
          rw [List.mem_cons, ih hothers]
          simp [hform, hown]
    · rw [if_pos hform] at h
      rw [ih h]
      simp [hform]

/-- What the two resolvers give on one state. -/
structure Outcome (operation : OperationSchema) (step : CompiledStep) (scope : StepScope)
    (plan : StepFieldPlan) (request : CommandRequest) : Prop where
  rows : ∀ name, HasRow operation step scope name ∨ name ∈ operation.bodyFields.map (·.name) ∨
    isNestedField name = false → ∀ v, (Reviews plan name v ↔
      HasRow operation step scope name ∧ shown scope step.inputs name = some v ∧ v ≠ .null)
  params : ∀ param ∈ operation.parameters, isNonBody param = true →
    (paramsAt request param.location).get? param.name =
      (own scope param.name).map jsonToParamString
  declared : ∀ location name text, (paramsAt request location).get? name = some text →
    ∃ param ∈ operation.parameters, isNonBody param = true ∧ param.name = name
  values : ∀ location name text, (paramsAt request location).get? name = some text →
    ∃ v, own scope name = some v ∧ text = jsonToParamString v
  parts : ∀ parts, request.body = some (.multipart parts) → ∀ part, part ∈ parts ↔
    ∃ param ∈ operation.parameters, param.location = .formData ∧
      ∃ v, own scope param.name = some v ∧ part = formPart param (jsonToParamString v)
  form : FormGiven operation scope → ∃ parts, request.body = some (.multipart parts)
  members : ¬FormGiven operation scope → ∀ name, sentMember? operation request name =
    overwritten name (editedWrites scope step.inputs)
      (if name ∈ operation.bodyFields.map (·.name) then own scope name else none)

section Assembled

variable {ctx : Context} {supplied stepLocal : Values} {specs : List WorkflowInputSpec}
  {serviceSchema : ServiceSchema} {defaultNames : List String} {«namespace» : Option String}
  {plan : StepFieldPlan} {request : CommandRequest} {opRef : OperationReference}

theorem hasRow_of_bound {field : BodyField} (hfield : field ∈ operation.bodyFields)
    (hbound : field.name ∈ step.inputs.map (·.field)) :
    HasRow operation step (stepScope step ctx supplied stepLocal specs) field.name := by
  have hcontains : ((stepScope step ctx supplied stepLocal specs).bindings.get? field.name).isSome =
      true := by
    obtain ⟨b, hb, hname⟩ := List.mem_map.mp hbound
    exact BTreeMap.contains_ofList.mpr (List.mem_map.mpr ⟨(b.field, b.source),
      List.mem_map.mpr ⟨b, hb, rfl⟩, hname⟩)
  exact Or.inr ⟨field, hfield, rfl, by simp [isIndividual, hcontains]⟩

theorem rows_of_plan (hstep : step.operation = some opRef)
    (hoperation : findOperation serviceSchema opRef.operation = some operation)
    (hplan : resolveStepFields step ctx supplied stepLocal specs serviceSchema defaultNames =
      .ok plan) (hscope : stepScope step ctx supplied stepLocal specs = scope)
    (hname : HasRow operation step scope name ∨ name ∈ operation.bodyFields.map (·.name) ∨
      isNestedField name = false) (v : Value) :
    Reviews plan name v ↔
      HasRow operation step scope name ∧ shown scope step.inputs name = some v ∧ v ≠ .null := by
  obtain ⟨hsome, hnone⟩ := row?_of_plan hstep hoperation hplan hscope name
  by_cases hrow : HasRow operation step scope name
  · obtain ⟨row, hfound, hvalue⟩ := hsome hrow
    constructor
    · rintro ⟨hv, other, hother, rfl⟩
      obtain rfl := Option.some.inj (hfound.symm.trans hother)
      refine ⟨hrow, ?_, hv⟩
      cases hshown : shown scope step.inputs name with
      | none =>
        rw [hshown] at hvalue
        exact absurd hvalue hv
      | some w => rw [hvalue, hshown, Option.getD_some]
    · rintro ⟨-, hshown, hv⟩
      exact ⟨hv, row, hfound, by rw [hvalue, hshown, Option.getD_some]⟩
  · have hfree : isNestedField name = true → name ∉ step.inputs.map (·.field) := by
      intro hnested hmem
      rcases hname with hname | hname | hname
      · exact hrow hname
      · obtain ⟨field, hfield, rfl⟩ := List.mem_map.mp hname
        exact hrow (hscope ▸ hasRow_of_bound hfield hmem)
      · rw [hnested] at hname
        cases hname
    constructor
    · rintro ⟨-, row, hfound, -⟩
      rw [hnone hrow hfree] at hfound
      cases hfound
    · exact fun h => absurd h.1 hrow

theorem formGiven_iff {parts : List FormPart}
    (h : collectFormParts files step scope operation.parameters = .ok parts) :
    FormGiven operation scope ↔ parts.isEmpty = false := by
  rw [List.isEmpty_eq_false_iff_exists_mem]
  constructor
  · rintro ⟨param, hparam, hform, hown⟩
    obtain ⟨v, hv⟩ := Option.ne_none_iff_exists'.mp hown
    exact ⟨_, (mem_formParts h).mpr ⟨param, hparam, hform, v, hv, rfl⟩⟩
  · rintro ⟨part, hpart⟩
    obtain ⟨param, hparam, hform, v, hv, -⟩ := (mem_formParts h).mp hpart
    exact ⟨param, hparam, hform, by rw [hv]; nofun⟩

/-- The plan and the request of one state. -/
theorem outcome (hoptions : options.explicitBody = none) (hstep : step.operation = some opRef)
    (hoperation : findOperation serviceSchema opRef.operation = some operation)
    (hplan : resolveStepFields step ctx supplied stepLocal specs serviceSchema defaultNames =
      .ok plan)
    (hrequest : assembleCommandRequest files step ctx supplied stepLocal specs serviceSchema
      «namespace» options = .ok request)
    (hscope : stepScope step ctx supplied stepLocal specs = scope) :
    Outcome operation step scope plan request := by
  obtain ⟨opRef', found, params, parts, hreference, hfound, -, hfrom⟩ := assembled_parts hrequest
  obtain rfl := Option.some.inj (hstep.symm.trans hreference)
  rw [findOperationOrError, hoperation] at hfound
  obtain rfl := Except.ok.inj hfound
  rw [hscope] at hfrom
  have hcollects := collectParams_collects hfrom.resolved (resolved_empty scope)
  have hbody := hfrom.body
  refine ⟨fun _ hname => rows_of_plan hstep hoperation hplan hscope hname, ?_, ?_, ?_, ?_, ?_, ?_⟩
  · intro param hparam hnonBody
    rw [hfrom.placed]
    cases hget : (locate params param.location).get? param.name with
    | some text =>
      obtain ⟨v, hv, rfl⟩ := hcollects.resolved _ _ _ hget
      rw [own_of_resolve hv, Option.map_some]
    | none =>
      cases hown : own scope param.name with
      | none => rfl
      | some v =>
        have hhas := hcollects.collected param hparam hnonBody (Or.inr ⟨v, own_eq_some.mp hown⟩)
        rw [Has, hget] at hhas
        cases hhas
  · intro location name text hget
    rw [hfrom.placed] at hget
    have hhas : Has params location name := by rw [Has, hget]; rfl
    refine (hcollects.declared location name hhas).resolve_left ?_
    cases location <;> exact Bool.false_ne_true
  · intro location name text hget
    rw [hfrom.placed] at hget
    obtain ⟨v, hv, rfl⟩ := hcollects.resolved _ _ _ hget
    exact ⟨v, own_of_resolve hv, rfl⟩
  · intro sent hsent part
    split_ifs at hbody with hempty
    · obtain ⟨json, -, hjson⟩ := hbody
      rw [hsent] at hjson
      cases json <;> cases hjson
    · rw [hsent] at hbody
      obtain rfl := RequestBody.multipart.inj (Option.some.inj hbody)
      exact mem_formParts hfrom.collected
  · intro hform
    rw [(formGiven_iff hfrom.collected).mp hform] at hbody
    exact ⟨parts, hbody⟩
  · intro hform name
    rw [formGiven_iff hfrom.collected, Bool.not_eq_false] at hform
    rw [hform, if_pos rfl] at hbody
    obtain ⟨json, hjson, hbody⟩ := hbody
    rw [← member_of_assembled hoptions hjson, sentMember?, hbody]
    cases json <;> rfl

end Assembled

end Outcomes

section Comparison

variable {step : CompiledStep} {scope : StepScope} {operation : OperationSchema}
  {plan : StepFieldPlan} {request : CommandRequest} {name : String} {v : Value}

variable (h : Outcome operation step scope plan request)
include h

end Comparison

section Orders

end Orders

end ReviewedRequest
