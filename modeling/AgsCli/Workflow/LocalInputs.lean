import AgsCli.Workflow.NestedMerge
import AgsCli.Workflow.ScriptedHost

/-! # Inputs of local actions

Compilation counts a nested binding as one of its input. A run hands the action every value under
the field its binding was written with, so only bindings of the input itself reach it. -/
namespace LocalInputs

open OrderedMap Json CatalogueTypes ProtocolError WorkflowTypes WorkflowContext NestedPath
  NestedMerge Resolve Compile LocalActions Executor

def value (step : CompiledStep) (ctx : Context) (supplied : Values) (source : BindingSource) :
    Value :=
  match resolveBinding ctx supplied (bindingsByField step.inputs) .empty source with
  | .ok (some v) => v
  | _ => .null

def Resolves (step : CompiledStep) (ctx : Context) (supplied : Values) : Prop :=
  ∀ b ∈ step.inputs,
    ∃ v, resolveBinding ctx supplied (bindingsByField step.inputs) .empty b.source = .ok (some v)

def SetsBelow (binding : StepInputBinding) (name : String) (rest : FieldPath) : Prop :=
  parse binding.field = .ok (.key name :: rest) ∧ rest ≠ []

/-- Every required input is there, and nested bindings are parts of their input's value. -/
structure Given (declared : List LocalActionInput) (step : CompiledStep) (ctx : Context)
    (supplied inputs : Values) : Prop where
  required : ∀ input ∈ declared, input.required = true → inputs.contains input.name = true
  structured : ∀ b ∈ step.inputs, ∀ name rest, SetsBelow b name rest →
    ∃ v, inputs.get? name = some v ∧ readAt v rest = some (value step ctx supplied b.source)

/-- What is bound to, or else supplied for, the very name of an input. -/
def direct (step : CompiledStep) (ctx : Context) (supplied : Values) (name : String) :
    Option Value :=
  (((bindingsByField step.inputs).get? name).map (value step ctx supplied)).or (supplied.get? name)

/-- An input whose members are bound has a value of its own too, and a nested binding repeats a
part of it. -/
structure Whole (declared : List LocalActionInput) (step : CompiledStep) (ctx : Context)
    (supplied : Values) : Prop where
  required : ∀ input ∈ declared, input.required = true →
    (∃ b ∈ step.inputs, (input.name ++ ".").toList.isPrefixOf b.field.toList = true) →
    (∃ b ∈ step.inputs, b.field = input.name) ∨ supplied.contains input.name = true
  repeated : ∀ b ∈ step.inputs, ∀ name rest, SetsBelow b name rest →
    ∃ v, direct step ctx supplied name = some v ∧
      readAt v rest = some (value step ctx supplied b.source)

section Maps

variable {κ ν μ : Type*} [LinearOrder κ]

theorem lookup_map (f : ν → μ) (k : κ) (l : List (κ × ν)) :
    Entries.lookup k (l.map fun e => (e.1, f e.2)) = (Entries.lookup k l).map f := by
  induction l with
  | nil => rfl
  | cons e rest ih =>
    rw [List.map_cons, Entries.lookup_cons, ih]
    obtain ⟨k', v⟩ := e
    rw [Entries.lookup_cons]
    split_ifs <;> rfl

end Maps

section Inputs

variable {definition : WorkflowDefinition} {catalogue : Catalogue} {compiled : CompiledWorkflow}
  {step : CompiledStep} {ctx : Context} {supplied resolved : Values}

theorem resolveBinding_value (h : Resolves step ctx supplied) {b : StepInputBinding}
    (hb : b ∈ step.inputs) :
    resolveBinding ctx supplied (bindingsByField step.inputs) .empty b.source =
      .ok (some (value step ctx supplied b.source)) := by
  obtain ⟨v, hv⟩ := h b hb
  rw [hv, value, hv]

/-- Each value is handed on under its binding's field. -/
theorem resolved_eq (h : Resolves step ctx supplied)
    (hresolved : resolveLocalStepBindings step ctx supplied = .ok resolved) :
    resolved = .ofList (step.inputs.map fun b => (b.field, value step ctx supplied b.source)) := by
  unfold resolveLocalStepBindings at hresolved
  obtain ⟨pairs, hpairs, hresolved⟩ := Checks.bind_eq_ok.mp hresolved
  cases hresolved
  have hpair : ∀ b ∈ step.inputs, (do
      let v ← resolveBinding ctx supplied (bindingsByField step.inputs) .empty b.source
      .ok (v.map fun v => (b.field, v)) : Except RuntimeError _) =
        .ok (some (b.field, value step ctx supplied b.source)) := by
    intro b hb
    rw [resolveBinding_value h hb]
    rfl
  rw [Checks.collect_eq_map hpair] at hpairs
  cases hpairs
  rw [List.filterMap_map]
  exact congrArg BTreeMap.ofList (congrFun List.filterMap_eq_map' _)

theorem get?_resolved (h : Resolves step ctx supplied)
    (hresolved : resolveLocalStepBindings step ctx supplied = .ok resolved) (name : String) :
    (supplied.extend resolved).get? name = direct step ctx supplied name := by
  rw [BTreeMap.get?_extend, resolved_eq h hresolved, BTreeMap.get?_ofList, direct, bindingsByField,
    BTreeMap.get?_ofList, ← lookup_map, List.map_reverse, List.map_map]
  rfl

theorem contains_direct (name : String) :
    (direct step ctx supplied name).isSome = true ↔
      (∃ b ∈ step.inputs, b.field = name) ∨ supplied.contains name = true := by
  have hbound : ((bindingsByField step.inputs).get? name).isSome = true ↔
      ∃ b ∈ step.inputs, b.field = name := by
    refine BTreeMap.contains_ofList.trans ?_
    simp only [List.map_map, List.mem_map, Function.comp_apply]
  rw [direct, Option.isSome_or, Option.isSome_map, Bool.or_eq_true, hbound]
  rfl

/-- Compilation has found a binding of each required input, or of a member of it. -/
theorem bound_of_accepted (hok : compileWorkflow definition catalogue = .ok compiled)
    (hstep : step ∈ compiled.steps) (hkind : step.kind = .local) {action : String}
    (haction : step.action = some action) {declared : List LocalActionInput}
    (hdeclared : lookup action = some declared) {input : LocalActionInput}
    (hinput : input ∈ declared) (hrequired : input.required = true) :
    ∃ b ∈ step.inputs, b.field = input.name ∨
      (input.name ++ ".").toList.isPrefixOf b.field.toList = true := by
  obtain ⟨source, index, autoDerived, -, hauto, rfl⟩ :=
    (compileWorkflow_ok hok).definition_of_mem hstep
  have hkind' : source.kind = .local := hkind
  have haction' : source.action = some action := haction
  unfold compileAutoDerived at hauto
  rw [hkind'] at hauto
  obtain ⟨_, hcheck, -⟩ := Checks.bind_eq_ok.mp hauto
  unfold checkLocalAction at hcheck
  simp only [haction', hdeclared] at hcheck
  obtain ⟨_, -, hcheck⟩ := Checks.bind_eq_ok.mp hcheck
  have hbound := Checks.each_eq_ok.mp hcheck input (List.mem_filter.mpr ⟨hinput, hrequired⟩)
  have hany := Checks.ensure_eq_ok.mp hbound
  obtain ⟨b, hb, hfield⟩ := List.any_eq_true.mp hany
  refine ⟨b, hb, ?_⟩
  simpa only [Bool.or_eq_true, decide_eq_true_eq] using hfield

/-- A local action gets its required inputs, with their members in place, exactly when what is
bound below an input is also part of a value of the input itself. -/
theorem local_inputs_given (hok : compileWorkflow definition catalogue = .ok compiled)
    (hstep : step ∈ compiled.steps) (hkind : step.kind = .local) {action : String}
    (haction : step.action = some action) {declared : List LocalActionInput}
    (hdeclared : lookup action = some declared) (h : Resolves step ctx supplied)
    (hresolved : resolveLocalStepBindings step ctx supplied = .ok resolved) :
    Given declared step ctx supplied (supplied.extend resolved) ↔
      Whole declared step ctx supplied := by
  have hcontains (name : String) : (supplied.extend resolved).contains name = true ↔
      (∃ b ∈ step.inputs, b.field = name) ∨ supplied.contains name = true := by
    rw [← contains_direct, ← get?_resolved h hresolved]
    rfl
  constructor
  · intro hgiven
    refine ⟨fun input hinput hrequired _ => ?_, fun b hb name rest hbelow => ?_⟩
    · exact (hcontains _).mp (hgiven.required input hinput hrequired)
    · rw [← get?_resolved h hresolved]
      exact hgiven.structured b hb name rest hbelow
  · intro hwhole
    refine ⟨fun input hinput hrequired => ?_, fun b hb name rest hbelow => ?_⟩
    · rw [hcontains]
      obtain ⟨b, hb, hfield | hbelow⟩ :=
        bound_of_accepted hok hstep hkind haction hdeclared hinput hrequired
      · exact .inl ⟨b, hb, hfield⟩
      · exact hwhole.required input hinput hrequired ⟨b, hb, hbelow⟩
    · rw [get?_resolved h hresolved]
      exact hwhole.repeated b hb name rest hbelow

end Inputs

section Login

/-- A docker login whose registry is bound as given. -/
def loginDefinition (registry : StepInputBinding) : WorkflowDefinition :=
  { id := "login", name := "Login", briefing := none, inputs := [], isReviewedByDefault := false
    steps := [
      { id := "login", description := none, kind := .local, action := some "docker-login"
        operation := none, dependencies := [], confirm := false, isOptional := false
        continueOnFailure := false, skipIfExists := false, isReviewed := none
        inputs := [registry, ⟨"username", .literal ⟨.string "ci", false⟩, true, none⟩,
          ⟨"password", .literal ⟨.string "token", false⟩, true, none⟩]
        outputs := [] }]
    outputs := [], completion := none }

def loginCompiled (registry : StepInputBinding) : CompiledWorkflow :=
  { id := "login", name := "Login", briefing := none, inputs := []
    isReviewedByDefault := false
    steps := (loginDefinition registry).steps.zipIdx.map fun p => compiledStep p.1 p.2 []
    outputs := [], completion := none }

def wholeRegistry : StepInputBinding :=
  ⟨"registry", .literal ⟨.string "registry.example", false⟩, true, none⟩

def registryHost : StepInputBinding :=
  ⟨"registry.host", .literal ⟨.string "registry.example", false⟩, true, none⟩

theorem resolves_login (registry : StepInputBinding)
    (hregistry : registry = wholeRegistry ∨ registry = registryHost) {step : CompiledStep}
    (hstep : step ∈ (loginCompiled registry).steps) : Resolves step .new .empty := by
  obtain rfl := List.mem_singleton.mp hstep
  intro b hb
  rcases List.mem_cons.mp hb with rfl | hb
  · rcases hregistry with rfl | rfl <;> exact ⟨_, rfl⟩
  · rcases List.mem_cons.mp hb with rfl | hb
    · exact ⟨_, rfl⟩
    · obtain rfl := List.mem_singleton.mp hb
      exact ⟨_, rfl⟩

theorem whole_login {step : CompiledStep} (hstep : step ∈ (loginCompiled wholeRegistry).steps) :
    Whole dockerLoginInputs step .new .empty := by
  obtain rfl := List.mem_singleton.mp hstep
  refine ⟨fun input hinput _ _ => .inl ?_, fun b hb name rest hbelow => ?_⟩
  · have hname : input.name ∈ dockerLoginInputs.map (·.name) := List.mem_map_of_mem hinput
    exact List.mem_map.mp hname
  · obtain ⟨hparse, hrest⟩ := hbelow
    rcases List.mem_cons.mp hb with rfl | hb
    · cases hparse
      exact absurd rfl hrest
    · rcases List.mem_cons.mp hb with rfl | hb
      · cases hparse
        exact absurd rfl hrest
      · obtain rfl := List.mem_singleton.mp hb
        cases hparse
        exact absurd rfl hrest

theorem local_inputs_given_login : ∃ step ∈ (loginCompiled wholeRegistry).steps,
    ∃ resolved, resolveLocalStepBindings step .new .empty = .ok resolved ∧
      Given dockerLoginInputs step .new .empty (BTreeMap.extend .empty resolved) := by
  have hcompiled : compileWorkflow (loginDefinition wholeRegistry) csmCatalogue =
      .ok (loginCompiled wholeRegistry) := rfl
  refine ⟨_, List.mem_cons_self, _, rfl, ?_⟩
  have hresolves := resolves_login wholeRegistry (.inl rfl) List.mem_cons_self
  exact (local_inputs_given hcompiled List.mem_cons_self rfl rfl rfl hresolves rfl).mpr
    (whole_login List.mem_cons_self)

/-- Bound as `registry.host`, the required registry passes compilation and never reaches the
action. -/
theorem registry_missing :
    compileWorkflow (loginDefinition registryHost) csmCatalogue =
      .ok (loginCompiled registryHost) ∧
    ∃ step ∈ (loginCompiled registryHost).steps, step.kind = .local ∧
      step.action = some "docker-login" ∧ Resolves step .new .empty ∧
      ∃ resolved, resolveLocalStepBindings step .new .empty = .ok resolved ∧
        (BTreeMap.extend .empty resolved : Values).contains "registry" = false ∧
        ¬Given dockerLoginInputs step .new .empty (BTreeMap.extend .empty resolved) := by
  refine ⟨rfl, _, List.mem_cons_self, rfl, rfl,
    resolves_login registryHost (.inr rfl) List.mem_cons_self, _, rfl, rfl, fun hgiven => ?_⟩
  have hregistry := hgiven.required _ List.mem_cons_self rfl
  cases hregistry

end Login

end LocalInputs
