import AgsCli.Workflow.RunInputs

/-! # Needed inputs and the precheck

What `compute_needed_inputs` asks for, and the violations of the `--no-input` precheck as a
function of the map it starts from. -/
namespace NeededInputs

open OrderedMap Json WorkflowTypes Compile Resolve RunInputs

def inputName? (entry : WorkflowInputNeeded) : Option String :=
  match entry.scope with
  | .workflowInput name => some name
  | .stepLocal _ => none

def fieldName? (entry : WorkflowInputNeeded) : Option String :=
  match entry.scope with
  | .workflowInput _ => none
  | .stepLocal fieldName => some fieldName

def askedInputs (needed : List WorkflowInputNeeded) : List String := needed.filterMap inputName?

def askedFields (needed : List WorkflowInputNeeded) : List String := needed.filterMap fieldName?

def stepLocalFields (step : CompiledStep) : List String :=
  step.autoDerived.filterMap fun f =>
    match f.scope with
    | .workflowInput _ => none
    | .stepLocal fieldName => some fieldName

variable (specs : List WorkflowInputSpec) {supplied : Values} {acc : NeededState}

/-- The seen names are the asked ones, each once and none of them supplied. -/
structure Consistent (supplied : Values) (acc : NeededState) : Prop where
  seen : ∀ n, n ∈ acc.seen ↔ n ∈ askedInputs acc.needed
  nodup : (askedInputs acc.needed).Nodup
  unsupplied : ∀ n ∈ askedInputs acc.needed, supplied.contains n = false

theorem consistent_nil : Consistent supplied ⟨[], []⟩ :=
  ⟨by simp [askedInputs], by simp [askedInputs], by simp [askedInputs]⟩

@[simp] theorem inputName?_workflowInputSlot (id : GatherSlotId) (name : String) :
    inputName? (workflowInputSlot specs id name) = some name := rfl

@[simp] theorem fieldName?_workflowInputSlot (id : GatherSlotId) (name : String) :
    fieldName? (workflowInputSlot specs id name) = none := rfl

@[simp] theorem inputName?_stepLocalSlot (step : CompiledStep) (id : GatherSlotId)
    (field : AutoDerivedField) (name : String) :
    inputName? (stepLocalSlot step id field name) = none := rfl

@[simp] theorem fieldName?_stepLocalSlot (step : CompiledStep) (id : GatherSlotId)
    (field : AutoDerivedField) (name : String) :
    fieldName? (stepLocalSlot step id field name) = some name := rfl

theorem mem_push (h : Consistent supplied acc) (name m : String) :
    m ∈ askedInputs (pushWorkflowInput supplied specs acc name).needed ↔
      m ∈ askedInputs acc.needed ∨ (m = name ∧ supplied.contains m = false) := by
  unfold pushWorkflowInput
  split_ifs with hskip
  · rw [Bool.or_eq_true, List.contains_iff_mem] at hskip
    rcases hskip with hsup | hseen
    · constructor
      · exact Or.inl
      · rintro (hm | ⟨rfl, hm⟩)
        · exact hm
        · rw [hsup] at hm; cases hm
    · constructor
      · exact Or.inl
      · rintro (hm | ⟨rfl, -⟩)
        · exact hm
        · exact (h.seen _).mp hseen
  · rw [Bool.or_eq_true, not_or, Bool.not_eq_true] at hskip
    have hsup := hskip.1
    simp only [askedInputs, List.filterMap_append, List.filterMap_cons,
      inputName?_workflowInputSlot, List.filterMap_nil, List.mem_append, List.mem_singleton]
    constructor
    · rintro (hm | rfl)
      · exact Or.inl hm
      · exact Or.inr ⟨rfl, hsup⟩
    · rintro (hm | ⟨rfl, -⟩)
      · exact Or.inl hm
      · exact Or.inr rfl

theorem consistent_push (h : Consistent supplied acc) (name : String) :
    Consistent supplied (pushWorkflowInput supplied specs acc name) := by
  have hmem := mem_push specs h name
  unfold pushWorkflowInput at hmem ⊢
  split_ifs at hmem ⊢ with hskip
  · exact h
  · rw [Bool.or_eq_true, List.contains_iff_mem, not_or] at hskip
    refine ⟨fun n => ?_, ?_, fun n hn => ?_⟩
    · rw [hmem n, List.mem_cons, h.seen]
      constructor
      · rintro (rfl | hn)
        · exact Or.inr ⟨rfl, by simpa using hskip.1⟩
        · exact Or.inl hn
      · rintro (hn | ⟨rfl, -⟩)
        · exact Or.inr hn
        · exact Or.inl rfl
    · simp only [askedInputs, List.filterMap_append, List.filterMap_cons,
        inputName?_workflowInputSlot, List.filterMap_nil]
      refine List.nodup_append.mpr ⟨h.nodup, by simp, fun a ha b hb => ?_⟩
      rintro rfl
      rw [List.mem_singleton] at hb
      subst hb
      exact hskip.2 ((h.seen _).mpr ha)
    · rcases (hmem n).mp hn with hn | ⟨-, hn⟩
      · exact h.unsupplied n hn
      · exact hn

theorem askedFields_push (name : String) :
    askedFields (pushWorkflowInput supplied specs acc name).needed = askedFields acc.needed := by
  unfold pushWorkflowInput
  split_ifs
  · rfl
  · simp [askedFields]

theorem consistent_pushAutoDerived (step : CompiledStep) (h : Consistent supplied acc)
    (field : AutoDerivedField) :
    Consistent supplied (pushAutoDerived step supplied specs acc field) := by
  unfold pushAutoDerived
  split
  · exact consistent_push specs h _
  · have hsame : ∀ name, askedInputs (acc.needed ++ [stepLocalSlot step (slotId acc.needed) field
        name]) = askedInputs acc.needed := by simp [askedInputs]
    exact ⟨by simpa only [hsame] using h.seen, by simpa only [hsame] using h.nodup,
      by simpa only [hsame] using h.unsupplied⟩

theorem fold_bindings (names : List String) (h : Consistent supplied acc) :
    Consistent supplied (names.foldl (pushWorkflowInput supplied specs) acc) ∧
      (∀ m, m ∈ askedInputs (names.foldl (pushWorkflowInput supplied specs) acc).needed ↔
        m ∈ askedInputs acc.needed ∨ (m ∈ names ∧ supplied.contains m = false)) ∧
      askedFields (names.foldl (pushWorkflowInput supplied specs) acc).needed =
        askedFields acc.needed := by
  induction names generalizing acc with
  | nil => simp [h]
  | cons name rest ih =>
    obtain ⟨hcons, hmem, hfields⟩ := ih (consistent_push specs h name)
    refine ⟨hcons, fun m => ?_, hfields.trans (askedFields_push specs name)⟩
    rw [List.foldl_cons, hmem m, mem_push specs h]
    simp only [List.mem_cons]
    tauto

theorem fold_autoDerived (step : CompiledStep) (fields : List AutoDerivedField)
    (h : Consistent supplied acc) :
    let acc' := fields.foldl (pushAutoDerived step supplied specs) acc
    Consistent supplied acc' ∧
      (∀ m, m ∈ askedInputs acc'.needed ↔ m ∈ askedInputs acc.needed ∨
        (m ∈ autoDerivedInputs { step with autoDerived := fields } ∧
          supplied.contains m = false)) ∧
      askedFields acc'.needed =
        askedFields acc.needed ++ stepLocalFields { step with autoDerived := fields } := by
  induction fields generalizing acc with
  | nil => simp [autoDerivedInputs, stepLocalFields, h]
  | cons field rest ih =>
    obtain ⟨hcons, hmem, hfields⟩ := ih (consistent_pushAutoDerived specs step h field)
    refine ⟨hcons, fun m => ?_, ?_⟩
    · rw [List.foldl_cons, hmem m]
      cases hs : field.scope with
      | workflowInput name =>
        simp only [pushAutoDerived, hs, mem_push specs h, autoDerivedInputs, List.filterMap_cons,
          List.mem_cons]
        tauto
      | stepLocal name =>
        simp [pushAutoDerived, hs, askedInputs, autoDerivedInputs]
    · rw [List.foldl_cons, hfields]
      cases hs : field.scope with
      | workflowInput name =>
        simp [pushAutoDerived, hs, askedFields_push, stepLocalFields]
      | stepLocal name =>
        simp [pushAutoDerived, hs, askedFields, stepLocalFields]

theorem mem_askedInputs (step : CompiledStep) (supplied : Values)
    (specs : List WorkflowInputSpec) (m : String) :
    m ∈ askedInputs (computeNeededInputs step supplied specs) ↔
      m ∈ stepReferencedInputs step ∧ supplied.contains m = false := by
  obtain ⟨hcons, hmem, -⟩ :=
    fold_bindings specs (bindingWorkflowInputs step.inputs)
      (consistent_nil : Consistent supplied _)
  obtain ⟨-, hmem', -⟩ := fold_autoDerived specs step step.autoDerived hcons
  simp only [computeNeededInputs, hmem', hmem, stepReferencedInputs, List.mem_append]
  simp only [askedInputs, List.filterMap_nil, List.not_mem_nil, false_or]
  tauto

theorem nodup_askedInputs (step : CompiledStep) (supplied : Values)
    (specs : List WorkflowInputSpec) :
    (askedInputs (computeNeededInputs step supplied specs)).Nodup := by
  obtain ⟨hcons, -⟩ :=
    fold_bindings specs (bindingWorkflowInputs step.inputs)
      (consistent_nil : Consistent supplied _)
  exact (fold_autoDerived specs step step.autoDerived hcons).1.nodup

/-- The step-local slots do not depend on what is supplied. -/
theorem askedFields_eq (step : CompiledStep) (supplied : Values)
    (specs : List WorkflowInputSpec) :
    askedFields (computeNeededInputs step supplied specs) = stepLocalFields step := by
  obtain ⟨hcons, -, hfields⟩ :=
    fold_bindings specs (bindingWorkflowInputs step.inputs)
      (consistent_nil : Consistent supplied _)
  have h := (fold_autoDerived specs step step.autoDerived hcons).2.2
  rw [hfields] at h
  exact h

end NeededInputs
