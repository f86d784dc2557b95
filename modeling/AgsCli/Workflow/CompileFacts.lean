import AgsCli.Workflow.Compile
import AgsCli.Workflow.Context
import Mathlib.Data.List.Forall2
import Mathlib.Data.List.Nodup

/-! # Accepted workflows

What a successful compilation says about the compiled steps: distinct ids, references to
declared outputs of earlier steps, defaults for skippable outputs, collision-free bindings. -/
namespace Compile

open OrderedMap Json CatalogueTypes ProtocolError WorkflowTypes

variable {definition : WorkflowDefinition} {catalogue : Catalogue} {compiled : CompiledWorkflow}

/-- The checks a compiled definition has passed, and what its parts were compiled from. -/
structure Accepted (definition : WorkflowDefinition) (catalogue : Catalogue)
    (compiled : CompiledWorkflow) : Prop where
  uniqueIds : validateUniqueStepIds definition = .ok ()
  stepKinds : validateStepKinds definition = .ok ()
  outputReferences : validateStepOutputReferences definition = .ok ()
  workflowReferences : validateWorkflowReferences definition = .ok ()
  formats : validateFormatBindings definition = .ok ()
  mirrors : validateMirrorBindings definition = .ok ()
  arithmetic : validateArithmeticBindings definition = .ok ()
  skippable : validateSkippableOutputsHaveDefaults definition = .ok ()
  inputs : resolveInputSchemas definition catalogue = .ok compiled.inputs
  nestedPaths : validateNestedPaths definition catalogue = .ok ()
  leafCollisions : validateLeafCollisions definition = .ok ()
  steps : List.Forall₂ (fun p step => compileStep catalogue compiled.inputs p = .ok step)
    definition.steps.zipIdx compiled.steps

theorem compileWorkflow_ok (h : compileWorkflow definition catalogue = .ok compiled) :
    Accepted definition catalogue compiled := by
  unfold compileWorkflow at h
  obtain ⟨_, huniqueIds, h⟩ := Checks.bind_eq_ok.mp h
  obtain ⟨_, hstepKinds, h⟩ := Checks.bind_eq_ok.mp h
  obtain ⟨_, -, h⟩ := Checks.bind_eq_ok.mp h
  obtain ⟨_, houtputReferences, h⟩ := Checks.bind_eq_ok.mp h
  obtain ⟨_, hworkflowReferences, h⟩ := Checks.bind_eq_ok.mp h
  obtain ⟨_, hformats, h⟩ := Checks.bind_eq_ok.mp h
  obtain ⟨_, hmirrors, h⟩ := Checks.bind_eq_ok.mp h
  obtain ⟨_, -, h⟩ := Checks.bind_eq_ok.mp h
  obtain ⟨_, harithmetic, h⟩ := Checks.bind_eq_ok.mp h
  obtain ⟨_, -, h⟩ := Checks.bind_eq_ok.mp h
  obtain ⟨_, hskippable, h⟩ := Checks.bind_eq_ok.mp h
  obtain ⟨_, -, h⟩ := Checks.bind_eq_ok.mp h
  obtain ⟨inputs, hinputs, h⟩ := Checks.bind_eq_ok.mp h
  obtain ⟨_, -, h⟩ := Checks.bind_eq_ok.mp h
  obtain ⟨_, -, h⟩ := Checks.bind_eq_ok.mp h
  obtain ⟨_, hnestedPaths, h⟩ := Checks.bind_eq_ok.mp h
  obtain ⟨_, hleafCollisions, h⟩ := Checks.bind_eq_ok.mp h
  obtain ⟨steps, hsteps, h⟩ := Checks.bind_eq_ok.mp h
  cases h
  exact ⟨huniqueIds, hstepKinds, houtputReferences, hworkflowReferences, hformats, hmirrors,
    harithmetic, hskippable, hinputs, hnestedPaths, hleafCollisions,
    Checks.collect_eq_ok.mp hsteps⟩

theorem nodup_of_uniqueStepIdsFrom {seen : List String} {steps : List StepDefinition}
    (h : uniqueStepIdsFrom definition seen steps = .ok ()) :
    (steps.map (·.id)).Nodup ∧ ∀ step ∈ steps, step.id ∉ seen := by
  induction steps generalizing seen with
  | nil => simp
  | cons step rest ih =>
    unfold uniqueStepIdsFrom at h
    split at h
    · cases h
    · next hfresh =>
      rw [List.contains_iff_mem] at hfresh
      obtain ⟨hnodup, hunseen⟩ := ih h
      constructor
      · refine List.nodup_cons.mpr ⟨fun hmem => ?_, hnodup⟩
        obtain ⟨other, hother, heq⟩ := List.mem_map.mp hmem
        exact hunseen other hother (heq ▸ List.mem_cons_self)
      · intro other hother
        rcases List.mem_cons.mp hother with rfl | hrest
        · exact hfresh
        · exact fun hmem => hunseen other hrest (List.mem_cons_of_mem _ hmem)

theorem position_of_get? {id : String} {j : Nat}
    (h : (stepPositions definition).get? id = some j) :
    ∃ source, definition.steps[j]? = some source ∧ source.id = id := by
  obtain ⟨p, hp, heq⟩ := List.mem_map.mp (BTreeMap.mem_of_get?_ofList h)
  obtain ⟨rfl, rfl⟩ := Prod.mk.inj heq
  exact ⟨p.1, List.mem_zipIdx_iff_getElem?.mp hp, rfl⟩

theorem outputs_of_contains {id name : String}
    (h : ((outputsByStep definition).get? id).getD [] |>.contains name) :
    ∃ source ∈ definition.steps, source.id = id ∧ ∃ c ∈ source.outputs, c.name = name := by
  cases hget : (outputsByStep definition).get? id with
  | none => simp [hget] at h
  | some names =>
    obtain ⟨source, hsource, heq⟩ := List.mem_map.mp (BTreeMap.mem_of_get?_ofList hget)
    obtain ⟨rfl, rfl⟩ := Prod.mk.inj heq
    rw [hget, Option.getD_some, List.contains_iff_mem] at h
    exact ⟨source, hsource, rfl, List.mem_map.mp h⟩

theorem compileStep_ok {p : StepDefinition × Nat} {step : CompiledStep}
    {inputs : List WorkflowInputSpec} (h : compileStep catalogue inputs p = .ok step) :
    ∃ autoDerived, compileAutoDerived catalogue inputs p.1 = .ok autoDerived ∧
      step = compiledStep p.1 p.2 autoDerived := by
  obtain ⟨autoDerived, hauto, h⟩ := Checks.bind_eq_ok.mp h
  exact ⟨autoDerived, hauto, (Except.ok.inj h).symm⟩

theorem name_of_resolveInputSchema {input resolved : WorkflowInputSpec}
    (h : resolveInputSchema definition catalogue input = .ok resolved) :
    resolved.name = input.name := by
  unfold resolveInputSchema at h
  split at h
  · cases h
    rfl
  · obtain ⟨candidates, -, h⟩ := Checks.bind_eq_ok.mp h
    obtain ⟨schema, -, h⟩ := Checks.bind_eq_ok.mp h
    split at h
    · cases h
      rfl
    · split at h
      · cases h
        rfl
      · split at h
        · cases h
          rfl
        · cases h

theorem declared_of_checkArithmetic {binding : StepInputBinding} {r : ReferenceBinding}
    {arith : ArithmeticTransform} {name : String}
    (h : checkArithmeticBinding definition binding = .ok ())
    (hr : binding.source = .reference r) (harith : r.transform = some (.arithmetic arith))
    (hname : arith.operand = .workflowInput name) : name ∈ declaredInputs definition := by
  obtain ⟨target, output, transform⟩ := r
  simp only at harith
  subst harith
  simp only [checkArithmeticBinding, hr, hname] at h
  split at h
  · cases h
  · split at h
    · cases h
    · obtain ⟨_, -, h⟩ := Checks.bind_eq_ok.mp h
      split at h
      · cases h
      · next spec hget =>
        obtain ⟨p, hp, heq⟩ := List.mem_map.mp (BTreeMap.mem_of_get?_ofList hget)
        exact List.mem_map.mpr ⟨p, hp, (Prod.mk.inj heq).1⟩

namespace Accepted

variable (h : Accepted definition catalogue compiled)
include h

theorem length_steps : definition.steps.length = compiled.steps.length := by
  simpa using h.steps.length_eq

theorem definition_of_get {i : Nat} {step : CompiledStep} (hi : compiled.steps[i]? = some step) :
    ∃ source autoDerived, definition.steps[i]? = some source ∧
      compileAutoDerived catalogue compiled.inputs source = .ok autoDerived ∧
      step = compiledStep source i autoDerived := by
  obtain ⟨hlt, rfl⟩ := List.getElem?_eq_some_iff.mp hi
  have hlt' : i < definition.steps.length := h.length_steps ▸ hlt
  have hp := h.steps.get (by simpa using hlt') hlt
  simp only [List.get_eq_getElem, List.getElem_zipIdx, Nat.zero_add] at hp
  obtain ⟨autoDerived, hauto, hstep⟩ := compileStep_ok hp
  exact ⟨_, autoDerived, List.getElem?_eq_getElem hlt', hauto, hstep⟩

theorem definition_of_mem {step : CompiledStep} (hstep : step ∈ compiled.steps) :
    ∃ source index autoDerived, source ∈ definition.steps ∧
      compileAutoDerived catalogue compiled.inputs source = .ok autoDerived ∧
      step = compiledStep source index autoDerived := by
  obtain ⟨i, hi⟩ := List.mem_iff_getElem?.mp hstep
  obtain ⟨source, autoDerived, hsource, hauto, hstep⟩ := h.definition_of_get hi
  exact ⟨source, i, autoDerived, List.mem_of_getElem? hsource, hauto, hstep⟩

theorem get_id (i : Nat) :
    (compiled.steps[i]?).map (·.id) = (definition.steps[i]?).map (·.id) := by
  cases hi : compiled.steps[i]? with
  | none =>
    rw [List.getElem?_eq_none_iff, ← h.length_steps] at hi
    rw [List.getElem?_eq_none hi]
    rfl
  | some step =>
    obtain ⟨source, autoDerived, hsource, -, rfl⟩ := h.definition_of_get hi
    rw [hsource]
    rfl

theorem ids_eq : compiled.steps.map (·.id) = definition.steps.map (·.id) := by
  refine List.ext_getElem? fun i => ?_
  simp only [List.getElem?_map]
  exact h.get_id i

theorem nodup_ids : (compiled.steps.map (·.id)).Nodup := by
  rw [h.ids_eq]
  exact (nodup_of_uniqueStepIdsFrom h.uniqueIds).1

theorem skippable_defaults {step : CompiledStep} (hstep : step ∈ compiled.steps)
    (hskip : (step.isOptional || step.continueOnFailure || step.skipIfExists) = true) :
    ∀ c ∈ step.outputs, c.default.isSome = true := by
  obtain ⟨source, index, autoDerived, hsource, -, rfl⟩ := h.definition_of_mem hstep
  have hcheck := Checks.each_eq_ok.mp h.skippable source hsource
  unfold checkSkippableOutputs at hcheck
  simp only [compiledStep] at hskip ⊢
  simp only [hskip, Bool.not_true, Bool.false_eq_true, if_false] at hcheck
  intro c hc
  exact Checks.ensure_eq_ok.mp (Checks.each_eq_ok.mp hcheck c hc)

/-- The step a `from: step/X` binding names is an earlier one that declares the output. -/
theorem reference_declared {done rest : List CompiledStep} {step : CompiledStep}
    (hsteps : compiled.steps = done ++ step :: rest) {binding : StepInputBinding}
    (hbinding : binding ∈ step.inputs) {r : ReferenceBinding}
    (hreference : binding.source = .reference r) {id : String} (htarget : r.source = .step id) :
    ∃ name, r.output = some name ∧
      ∃ earlier ∈ done, earlier.id = id ∧ ∃ c ∈ earlier.outputs, c.name = name := by
  have hi : compiled.steps[done.length]? = some step := by simp [hsteps]
  obtain ⟨source, autoDerived, hsource, -, rfl⟩ := h.definition_of_get hi
  have hcheck : checkOutputReference definition done.length source binding = .ok () := by
    have hmem : (source, done.length) ∈ definition.steps.zipIdx :=
      List.mem_zipIdx_iff_getElem?.mpr hsource
    exact Checks.each_eq_ok.mp (Checks.each_eq_ok.mp h.outputReferences _ hmem) binding hbinding
  obtain ⟨target, output, transform⟩ := r
  simp only at htarget
  subst htarget
  simp only [checkOutputReference, hreference] at hcheck
  split at hcheck
  · cases hcheck
  · next j hposition =>
    split at hcheck
    · cases hcheck
    · next hbefore =>
      cases output with
      | none => cases hcheck
      | some name =>
        obtain ⟨target, htarget, hid⟩ := position_of_get? hposition
        obtain ⟨other, hother, hid', c, hc, hname⟩ :=
          outputs_of_contains (Checks.ensure_eq_ok.mp hcheck)
        have hsame : other = target :=
          List.inj_on_of_nodup_map (nodup_of_uniqueStepIdsFrom h.uniqueIds).1 hother
            (List.mem_of_getElem? htarget) (hid'.trans hid.symm)
        subst hsame
        have hj : j < done.length := Nat.lt_of_not_le hbefore
        have hlt : j < compiled.steps.length := by rw [hsteps, List.length_append]; omega
        obtain ⟨source', autoDerived', hsource', -, hcompiled⟩ :=
          h.definition_of_get (List.getElem?_eq_getElem hlt)
        obtain rfl := Option.some.inj (hsource'.symm.trans htarget)
        have hdone : compiled.steps[j] = done[j] := by
          simp only [hsteps, List.getElem_append_left hj]
        refine ⟨name, rfl, done[j], List.getElem_mem hj, ?_, c, ?_, hname⟩
        · rw [← hdone, hcompiled]; exact hid
        · rw [← hdone, hcompiled]; exact hc

theorem input_of_declared {name : String} (hname : name ∈ declaredInputs definition) :
    ∃ spec ∈ compiled.inputs, spec.name = name := by
  obtain ⟨input, hinput, rfl⟩ := List.mem_map.mp hname
  obtain ⟨spec, hspec, hresolve⟩ := Checks.exists_of_collect h.inputs hinput
  exact ⟨spec, hspec, name_of_resolveInputSchema hresolve⟩

theorem template_declared {step : CompiledStep} (hstep : step ∈ compiled.steps)
    {binding : StepInputBinding} (hbinding : binding ∈ step.inputs) {f : FormatBinding}
    (hformat : binding.source = .format f) :
    ∃ names, formatPlaceholders f.template = .ok names ∧
      ∀ name ∈ names, name ∈ declaredInputs definition := by
  obtain ⟨source, index, autoDerived, hsource, -, rfl⟩ := h.definition_of_mem hstep
  have hcheck := Checks.each_eq_ok.mp (Checks.each_eq_ok.mp h.formats source hsource) binding
    hbinding
  simp only [checkFormatBinding, hformat] at hcheck
  obtain ⟨names, hnames, hdeclared⟩ := Checks.bind_eq_ok.mp hcheck
  refine ⟨names, hnames, fun name hname => ?_⟩
  exact List.contains_iff_mem.mp
    (Checks.ensure_eq_ok.mp (Checks.each_eq_ok.mp hdeclared name hname))

theorem bound_declared {step : CompiledStep} (hstep : step ∈ compiled.steps) {name : String}
    (hbound : name ∈ bindingWorkflowInputs step.inputs) :
    ∃ spec ∈ compiled.inputs, spec.name = name := by
  refine h.input_of_declared ?_
  obtain ⟨binding, hbinding, hname⟩ := List.mem_flatMap.mp hbound
  cases hsource : binding.source with
  | literal l => simp [hsource, sourceWorkflowInputs] at hname
  | mirror m => simp [hsource, sourceWorkflowInputs] at hname
  | format f =>
    obtain ⟨names, hnames, hdeclared⟩ := h.template_declared hstep hbinding hsource
    simp only [hsource, sourceWorkflowInputs, placeholdersOrEmpty, hnames] at hname
    exact hdeclared name hname
  | reference r =>
    obtain ⟨source, index, autoDerived, hmem, -, rfl⟩ := h.definition_of_mem hstep
    simp only [hsource, sourceWorkflowInputs, List.mem_append] at hname
    rcases hname with hname | hname
    · have hcheck := Checks.each_eq_ok.mp
        (Checks.each_eq_ok.mp h.workflowReferences source hmem) binding hbinding
      obtain ⟨target, output, transform⟩ := r
      cases target with
      | step id => simp at hname
      | workflow input =>
        simp only [List.mem_singleton] at hname
        subst hname
        simp only [checkWorkflowReference, hsource] at hcheck
        obtain ⟨_, hdeclared, -⟩ := Checks.bind_eq_ok.mp hcheck
        exact List.contains_iff_mem.mp (Checks.ensure_eq_ok.mp hdeclared)
    · have hcheck := Checks.each_eq_ok.mp
        (Checks.each_eq_ok.mp h.arithmetic source hmem) binding hbinding
      split at hname
      · next arith harith =>
        cases hoperand : arith.operand with
        | integer n => simp [hoperand] at hname
        | workflowInput operand =>
          simp only [hoperand, List.mem_singleton] at hname
          subst hname
          exact declared_of_checkArithmetic hcheck hsource harith hoperand
      · cases hname

end Accepted

end Compile
