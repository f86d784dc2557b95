import AgsCli.Workflow.NestedWrites

/-! # Values of plan rows

A declared field has one row, with its own source's value, else with what the nested bindings of
the field give together. -/
namespace PlanRows

open OrderedMap Json CatalogueTypes ProtocolError WorkflowTypes WorkflowContext NestedPath
  NestedMerge AutoDerive Resolve ReviewPlan Assemble SubPaths BindingRoots BindingCollisions
  NestedWrites

/-- The nested bindings of a field, without the edits of their paths. -/
def synthesised (scope : StepScope) (inputs : List StepInputBinding) (name : String) :
    Option Value :=
  let values := deeper [.key name] (boundWrites scope inputs)
  if values.isEmpty then none else some (setAll values .null)

def shown (scope : StepScope) (inputs : List StepInputBinding) (name : String) : Option Value :=
  if HasSource scope name then own scope name else synthesised scope inputs name

/-- The row of a declared field; the rows of nested literals come behind. -/
def row? (plan : StepFieldPlan) (name : String) : Option StepField :=
  plan.fields.find? fun row => row.field = name && !row.bodyOverflow

def HasRow (operation : OperationSchema) (step : CompiledStep) (scope : StepScope)
    (name : String) : Prop :=
  (∃ param ∈ operation.parameters, param.location ≠ .body ∧ param.name = name) ∨
    ∃ field ∈ operation.bodyFields, field.name = name ∧ isIndividual step scope field = true

section Values

variable {scope : StepScope} {inputs : List StepInputBinding} {defaultNames : List String}
  {name : String} {path : FieldPath} {v : Value} {writes : List Write}

theorem deeper_key (hpath : path ≠ []) :
    deeper [.key name] ((.key name :: path, v) :: writes) =
      (path, v) :: deeper [.key name] writes := by
  obtain ⟨s, rest, rfl⟩ := List.exists_cons_of_ne_nil hpath
  simp [deeper, below]

theorem deeper_other (hpath : ∀ rest, path ≠ .key name :: rest) :
    deeper [.key name] ((path, v) :: writes) = deeper [.key name] writes := by
  cases path with
  | nil => rfl
  | cons s rest =>
    have hne : PathSegment.key name ≠ s := fun heq => hpath rest (by rw [heq])
    simp [deeper, below, hne]

theorem subPath?_eq_some {field : String} :
    subPath? name field = some path ↔ nestedPath? field = some (.key name :: path) := by
  rw [nestedPath?_eq_some]
  constructor
  · intro h
    unfold subPath? at h
    split at h
    · next key s rest hparse =>
      split_ifs at h with hkey
      obtain rfl := Option.some.inj h
      obtain rfl := hkey
      refine ⟨?_, hparse, by simp⟩
      by_contra hplain
      cases parse_plain (by simpa using hplain) hparse
    · cases h
  · rintro ⟨-, hparse, hlength⟩
    obtain ⟨s, rest, rfl⟩ := List.exists_cons_of_length_pos (Nat.lt_of_succ_lt_succ hlength)
    simp [subPath?, hparse]

/-- The synthesis makes the writes below the field one after the other. -/
theorem synthesizeFrom_value {acc out : Synthesis}
    (h : synthesizeFrom scope name inputs acc = .ok out) :
    out.value = setAll (deeper [.key name] (boundWrites scope inputs)) acc.value ∧
      (out.hasNested = false →
        acc.hasNested = false ∧ deeper [.key name] (boundWrites scope inputs) = []) := by
  induction inputs generalizing acc with
  | nil =>
    cases h
    exact ⟨rfl, fun hnone => ⟨hnone, rfl⟩⟩
  | cons b rest ih =>
    unfold synthesizeFrom at h
    rw [boundWrites, List.filterMap_cons]
    cases hsub : subPath? name b.field with
    | none =>
      rw [hsub] at h
      have hother : ∀ path, nestedPath? b.field = some path →
          ∀ rest, path ≠ .key name :: rest := by
        rintro path hpath rest rfl
        rw [subPath?_eq_some.mpr hpath] at hsub
        cases hsub
      cases hpath : nestedPath? b.field with
      | none => exact ih h
      | some path =>
        cases hbound : bound scope b.source with
        | none => exact ih h
        | some v =>
          simp only [Option.bind_some, Option.map_some, deeper_other (hother path hpath)]
          exact ih h
    | some path =>
      rw [hsub] at h
      have hpath := subPath?_eq_some.mp hsub
      have hne : path ≠ [] := by
        rintro rfl
        have hlength := (nestedPath?_eq_some.mp hpath).2.2
        simp at hlength
      cases hvalue : scope.resolveBinding b.source with
      | error e =>
        rw [hvalue] at h
        cases h
      | ok v =>
        rw [hvalue] at h
        obtain ⟨hout, hnone⟩ := ih h
        rw [hpath, Option.bind_some, bound_of_resolve hvalue]
        cases v with
        | none => exact ⟨hout, fun hout => absurd (hnone hout).1 Bool.noConfusion⟩
        | some v =>
          refine ⟨?_, fun hout => absurd (hnone hout).1 Bool.noConfusion⟩
          rw [hout, Option.map_some, deeper_key hne]
          simp only [mergeNestedBinding_eq hne]
          rfl

theorem synthesizeNestedField_value {r : Option FieldResolution}
    (h : synthesizeNestedField scope name inputs = .ok r) :
    r.bind (·.value) = synthesised scope inputs name := by
  unfold synthesizeNestedField at h
  cases hacc : synthesizeFrom scope name inputs ⟨.null, [], false, true⟩ with
  | error e =>
    rw [hacc] at h
    cases h
  | ok acc =>
    rw [hacc] at h
    obtain ⟨hvalue, hnone⟩ := synthesizeFrom_value hacc
    unfold synthesised
    cases hnested : acc.hasNested with
    | false =>
      simp only [hnested, Bool.not_false, if_true] at h
      obtain rfl := Except.ok.inj h
      rw [(hnone hnested).2]
      rfl
    | true =>
      simp only [hnested, Bool.not_true, Bool.false_eq_true, if_false] at h
      obtain rfl := Except.ok.inj h
      rw [Option.bind_some, hvalue]
      by_cases hempty : deeper [.key name] (boundWrites scope inputs) = []
      · rw [hempty]
        rfl
      · have hne : setAll (deeper [.key name] (boundWrites scope inputs)) .null ≠ .null :=
          setAll_ne_null (fun write hwrite => (of_mem_deeper (p := [.key name]) hwrite).1) hempty
        simp [hempty, hne]

theorem boundResolution_value (defaultNames : List String) (source : BindingSource)
    (value : Option Value) : (boundResolution defaultNames source value).value = value := by
  unfold boundResolution
  cases source with
  | literal | format | mirror => rfl
  | reference r =>
    simp only
    split <;> rfl

theorem resolveFieldWithSource_value {r : FieldResolution}
    (h : resolveFieldWithSource scope inputs defaultNames name = .ok r) :
    r.value = shown scope inputs name := by
  unfold resolveFieldWithSource at h
  unfold shown HasSource own
  cases hedit : scope.stepLocal.get? name with
  | some v =>
    rw [hedit] at h
    obtain rfl := Except.ok.inj h
    simp [BTreeMap.contains, hedit]
  | none =>
    rw [hedit] at h
    cases hbinding : scope.bindings.get? name with
    | some source =>
      rw [hbinding] at h
      simp only at h
      split at h
      · cases h
      · next value hvalue =>
        obtain rfl := Except.ok.inj h
        simp [BTreeMap.contains, hbinding, boundResolution_value, bound_of_resolve hvalue]
    | none =>
      rw [hbinding] at h
      simp only at h
      split_ifs at h with hinput
      · rw [List.contains_iff_mem] at hinput
        split at h
        · next v hv =>
          obtain rfl := Except.ok.inj h
          simp [hinput, hv]
        · next hv =>
          obtain rfl := Except.ok.inj h
          simp [hinput, hv]
      · have hnone : name ∉ scope.workflowInputNames := by simpa using hinput
        simp only [BTreeMap.contains, hedit, hbinding, hnone, Option.isSome_none,
          Bool.false_eq_true, or_self, if_false]
        split at h
        · cases h
        · next result hresult =>
          obtain rfl := Except.ok.inj h
          exact synthesizeNestedField_value hresult
        · next hresult =>
          obtain rfl := Except.ok.inj h
          exact synthesizeNestedField_value hresult

end Values

section Rows

variable {step : CompiledStep} {scope : StepScope} {specs : List WorkflowInputSpec}
  {defaultNames : List String} {operation : OperationSchema} {name : String}

def Shows (scope : StepScope) (inputs : List StepInputBinding) (acc : PlanState) : Prop :=
  ∀ row ∈ acc.fields, row.value = (shown scope inputs row.field).getD .null

theorem pushField_shows {acc acc' : PlanState} {description : Option String}
    {location : StepFieldLocation} {schema : Value} {required showInReview : Bool}
    (h : pushField scope step.inputs defaultNames acc name description location schema required
      showInReview = .ok acc') (hacc : Shows scope step.inputs acc) :
    Shows scope step.inputs acc' := by
  unfold pushField at h
  split at h
  · obtain rfl := Except.ok.inj h
    exact hacc
  · split at h
    · cases h
    · next r hr =>
      obtain rfl := Except.ok.inj h
      intro row hrow
      rcases List.mem_append.mp hrow with hrow | hrow
      · exact hacc row hrow
      · rw [List.mem_singleton.mp hrow, resolveFieldWithSource_value hr]

theorem pushParams_shows {params : List ParameterSchema} {acc acc' : PlanState}
    (h : pushParams step scope specs defaultNames params acc = .ok acc')
    (hacc : Shows scope step.inputs acc) : Shows scope step.inputs acc' := by
  induction params generalizing acc with
  | nil =>
    obtain rfl := Except.ok.inj h
    exact hacc
  | cons param params ih =>
    unfold pushParams at h
    split at h
    · exact ih h hacc
    · extract_lets description at h
      split at h
      · cases h
      · next mid hpush => exact ih h (pushField_shows hpush hacc)

/-- Every individual body field is seen. -/
theorem pushBodyFields_shows {fields : List BodyField} {acc acc' : PlanState}
    {overflow overflow' : List BodyField}
    (h : pushBodyFields step scope specs defaultNames fields acc overflow = .ok (acc', overflow'))
    (htracked : Tracked acc) (hacc : Shows scope step.inputs acc) :
    Shows scope step.inputs acc' ∧ ∀ k, k ∈ acc'.seen ↔
      k ∈ acc.seen ∨ ∃ field ∈ fields, field.name = k ∧ isIndividual step scope field = true := by
  induction fields generalizing acc overflow with
  | nil =>
    cases Except.ok.inj h
    exact ⟨hacc, fun k => by simp⟩
  | cons field fields ih =>
    unfold pushBodyFields at h
    split at h
    · next hown =>
      split at h
      · cases h
      · next mid hpush =>
        obtain ⟨hmid, hname⟩ := pushField_tracked hpush htracked
        obtain ⟨hshows, hseen⟩ := ih h hmid (pushField_shows hpush hacc)
        refine ⟨hshows, fun k => ?_⟩
        have hself : k = field.name ↔ field.name = k ∧ isIndividual step scope field = true := by
          rw [and_iff_left hown, eq_comm]
        rw [hseen, hname, or_assoc, hself]
        simp only [List.mem_cons, exists_eq_or_imp]
    · next hown =>
      have hrest : ∀ k, (∃ other ∈ field :: fields, other.name = k ∧
          isIndividual step scope other = true) ↔ ∃ other ∈ fields, other.name = k ∧
            isIndividual step scope other = true := fun k => by simp [hown]
      split at h
      · obtain ⟨hshows, hseen⟩ := ih h htracked hacc
        exact ⟨hshows, fun k => by rw [hseen, hrest]⟩
      · obtain ⟨hshows, hseen⟩ := ih h htracked hacc
        exact ⟨hshows, fun k => by rw [hseen, hrest]⟩

/-- A row of an undeclared field is a nested literal's. -/
theorem row?_of_fields {plan : StepFieldPlan} {acc : PlanState} {overflow : List BodyField}
    {stepLocal : Values} (htracked : Tracked acc) (hshows : Shows scope step.inputs acc)
    (hfields : plan.fields = pushNestedLiterals stepLocal step.inputs (withOverflow acc overflow)) :
    (name ∈ acc.seen → ∃ row, row? plan name = some row ∧
      row.value = (shown scope step.inputs name).getD .null) ∧
    (name ∉ acc.seen → (isNestedField name = true → name ∉ step.inputs.map (·.field)) →
      row? plan name = none) := by
  obtain ⟨literals, hliterals, hnested⟩ :=
    pushNestedLiterals_append stepLocal step.inputs (withOverflow acc overflow)
  have hplan : ∃ others, plan.fields = acc.fields ++ others ∧ ∀ row ∈ others,
      row.bodyOverflow = false →
        row.field ∈ step.inputs.map (·.field) ∧ isNestedField row.field = true := by
    rw [hfields, hliterals]
    unfold withOverflow
    split_ifs
    · exact ⟨literals, rfl, fun row hrow _ => ⟨(hnested row hrow).1, (hnested row hrow).2.1⟩⟩
    · refine ⟨_, List.append_assoc _ _ _, fun row hrow hown => ?_⟩
      rcases List.mem_cons.mp hrow with rfl | hrow
      · cases hown
      · exact ⟨(hnested row hrow).1, (hnested row hrow).2.1⟩
  obtain ⟨others, hplan, hothers⟩ := hplan
  unfold row?
  rw [hplan, List.find?_append]
  constructor
  · intro hseen
    obtain ⟨row, hrow, hname⟩ := (htracked.seen name).mp hseen
    have hsome : (acc.fields.find? fun row => row.field = name && !row.bodyOverflow).isSome := by
      rw [List.find?_isSome]
      exact ⟨row, hrow, by simp [hname, htracked.own row hrow]⟩
    obtain ⟨found, hfound⟩ := Option.isSome_iff_exists.mp hsome
    have hfield : found.field = name := by
      have hfits := List.find?_some hfound
      simp only [Bool.and_eq_true, decide_eq_true_eq] at hfits
      exact hfits.1
    refine ⟨found, by rw [hfound, Option.some_or], ?_⟩
    rw [hshows found (List.mem_of_find?_eq_some hfound), hfield]
  · intro hseen hfree
    rw [Option.or_eq_none_iff, List.find?_eq_none, List.find?_eq_none]
    constructor
    · intro row hrow hfits
      simp only [Bool.and_eq_true, decide_eq_true_eq] at hfits
      exact hseen ((htracked.seen name).mpr ⟨row, hrow, hfits.1⟩)
    · intro row hrow hfits
      simp only [Bool.and_eq_true, decide_eq_true_eq, Bool.not_eq_true'] at hfits
      obtain ⟨hmem, hnestedField⟩ := hothers row hrow hfits.2
      rw [hfits.1] at hmem hnestedField
      exact hfree hnestedField hmem

/-- The rows of a plan: one for each declared field that has one, with the value shown. -/
theorem row?_of_plan {ctx : Context} {supplied stepLocal : Values} {serviceSchema : ServiceSchema}
    {plan : StepFieldPlan} {opRef : OperationReference} (hstep : step.operation = some opRef)
    (hoperation : findOperation serviceSchema opRef.operation = some operation)
    (hplan : resolveStepFields step ctx supplied stepLocal specs serviceSchema defaultNames =
      .ok plan) (hscope : stepScope step ctx supplied stepLocal specs = scope) (name : String) :
    (HasRow operation step scope name → ∃ row, row? plan name = some row ∧
      row.value = (shown scope step.inputs name).getD .null) ∧
    (¬HasRow operation step scope name →
      (isNestedField name = true → name ∉ step.inputs.map (·.field)) → row? plan name = none) := by
  obtain ⟨params, acc, overflow, hparams, hbody, hfields⟩ :=
    resolveStepFields_ok hstep hoperation hplan
  rw [hscope] at hparams hbody
  obtain ⟨htracked, hseenParams⟩ := pushParams_tracked hparams ⟨by simp, by simp⟩
  have hempty : Shows scope step.inputs ⟨[], []⟩ := fun row hrow => absurd hrow List.not_mem_nil
  obtain ⟨hshows, hseen⟩ := pushBodyFields_shows hbody htracked (pushParams_shows hparams hempty)
  have hrow : HasRow operation step scope name ↔ name ∈ acc.seen := by
    rw [hseen, hseenParams, HasRow]
    simp
  rw [hrow]
  exact row?_of_fields (pushBodyFields_tracked hbody htracked).1 hshows hfields

end Rows

end PlanRows
