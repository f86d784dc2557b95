import AgsCli.Workflow.NeededInputs
import AgsCli.Workflow.ScriptedHost

/-! # Non-interactive runs

The `--no-input` precheck lists exactly the gaps of a workflow, and a run it passes never
prompts. -/
namespace NoInputRuns

open OrderedMap Json WorkflowTypes RequestTypes Resolve RunInputs NeededInputs Executor

section Precheck

def missingName? : NoInputViolation → Option String
  | .missingInput name _ => some name
  | _ => none

def gatherField? : NoInputViolation → Option (String × String)
  | .stepLocalGather step field => some (step, field)
  | _ => none

def confirmStep? : NoInputViolation → Option String
  | .confirmRequired step => some step
  | _ => none

variable (specs : List WorkflowInputSpec) (dryRun assumeYes : Bool)

theorem contains_markSupplied (needed : List WorkflowInputNeeded) (supplied : Values)
    (m : String) :
    (needed.foldl markSupplied supplied).contains m =
      (supplied.contains m || decide (m ∈ askedInputs needed)) := by
  induction needed generalizing supplied with
  | nil => simp [askedInputs]
  | cons entry rest ih =>
    rw [List.foldl_cons, ih]
    cases hs : entry.scope with
    | stepLocal name => simp [markSupplied, askedInputs, inputName?, hs]
    | workflowInput name =>
      by_cases hm : m = name
      · subst hm
        simp [markSupplied, askedInputs, inputName?, hs, BTreeMap.contains]
      · simp [markSupplied, askedInputs, inputName?, hs, BTreeMap.contains,
          BTreeMap.get?_insert_of_ne _ hm, hm]

theorem missing_violations (step : CompiledStep) (needed : List WorkflowInputNeeded) :
    (needed.map (violationOf step)).filterMap missingName? = askedInputs needed := by
  rw [List.filterMap_map, askedInputs]
  congr 1
  funext entry
  cases hs : entry.scope <;> simp [violationOf, missingName?, inputName?, hs]

theorem gather_violations (step : CompiledStep) (needed : List WorkflowInputNeeded) :
    (needed.map (violationOf step)).filterMap gatherField? =
      (askedFields needed).map fun f => (step.id, f) := by
  rw [List.filterMap_map, askedFields, List.map_filterMap]
  congr 1
  funext entry
  cases hs : entry.scope <;> simp [violationOf, gatherField?, fieldName?, hs]

theorem confirm_violations (step : CompiledStep) (needed : List WorkflowInputNeeded) :
    (needed.map (violationOf step)).filterMap confirmStep? = [] := by
  rw [List.filterMap_map, List.filterMap_eq_nil_iff]
  intro entry _
  cases hs : entry.scope <;> simp [violationOf, confirmStep?, hs]

/-- The missing names of the remaining steps: each unsupplied reference once. -/
theorem precheckSteps_missing (steps : List CompiledStep) (supplied : Values) :
    let missing := (precheckSteps specs dryRun assumeYes steps supplied).filterMap missingName?
    missing.Nodup ∧ ∀ n, n ∈ missing ↔
      ∃ step ∈ steps, n ∈ stepReferencedInputs step ∧ supplied.contains n = false := by
  induction steps generalizing supplied with
  | nil => simp [precheckSteps]
  | cons step rest ih =>
    obtain ⟨hnodup, hmem⟩ :=
      ih ((computeNeededInputs step supplied specs).foldl markSupplied supplied)
    have hconfirm : (confirmViolations dryRun assumeYes step).filterMap missingName? = [] := by
      unfold confirmViolations; split_ifs <;> rfl
    simp only [precheckSteps, List.filterMap_append, missing_violations, hconfirm,
      List.append_nil]
    refine ⟨List.nodup_append.mpr ⟨nodup_askedInputs step supplied specs, hnodup, ?_⟩, fun n => ?_⟩
    · rintro a ha b hb rfl
      obtain ⟨-, -, -, hfresh⟩ := (hmem a).mp hb
      rw [contains_markSupplied] at hfresh
      simp [ha] at hfresh
    · rw [List.mem_append, hmem n, mem_askedInputs]
      simp only [contains_markSupplied, mem_askedInputs, Bool.or_eq_false_iff,
        decide_eq_false_iff_not, List.mem_cons, exists_eq_or_imp]
      constructor
      · rintro (h | ⟨s, hs, hn, hsup, -⟩)
        · exact Or.inl h
        · exact Or.inr ⟨s, hs, hn, hsup⟩
      · rintro (h | ⟨s, hs, hn, hsup⟩)
        · exact Or.inl h
        · by_cases hfirst : n ∈ stepReferencedInputs step
          · exact Or.inl ⟨hfirst, hsup⟩
          · exact Or.inr ⟨s, hs, hn, hsup, fun h => hfirst h.1⟩

theorem precheckSteps_gather (steps : List CompiledStep) (supplied : Values) :
    (precheckSteps specs dryRun assumeYes steps supplied).filterMap gatherField? =
      steps.flatMap fun step => (stepLocalFields step).map fun f => (step.id, f) := by
  induction steps generalizing supplied with
  | nil => rfl
  | cons step rest ih =>
    have hconfirm : (confirmViolations dryRun assumeYes step).filterMap gatherField? = [] := by
      unfold confirmViolations; split_ifs <;> rfl
    simp only [precheckSteps, List.filterMap_append, gather_violations, hconfirm, ih,
      List.append_nil, askedFields_eq, List.flatMap_cons]

theorem precheckSteps_confirm (steps : List CompiledStep) (supplied : Values) :
    (precheckSteps specs dryRun assumeYes steps supplied).filterMap confirmStep? =
      (steps.filter fun step => step.confirm && !dryRun && !assumeYes).map (·.id) := by
  induction steps generalizing supplied with
  | nil => rfl
  | cons step rest ih =>
    simp only [precheckSteps, List.filterMap_append, confirm_violations, ih, List.nil_append,
      List.filter_cons, confirmViolations]
    split_ifs <;> simp [confirmStep?]

/-- A clean precheck: no remaining step asks for anything or has a confirmation to ask. -/
theorem precheckSteps_eq_nil {steps : List CompiledStep} {supplied : Values}
    (h : precheckSteps specs dryRun assumeYes steps supplied = []) {step : CompiledStep}
    (hstep : step ∈ steps) :
    computeNeededInputs step supplied specs = [] ∧
      (step.confirm && !dryRun && !assumeYes) = false := by
  induction steps generalizing supplied with
  | nil => simp at hstep
  | cons first rest ih =>
    simp only [precheckSteps, List.append_eq_nil_iff, List.map_eq_nil_iff] at h
    obtain ⟨⟨hneeded, hconfirm⟩, hrest⟩ := h
    rw [hneeded] at hrest
    rcases List.mem_cons.mp hstep with rfl | hmem
    · refine ⟨hneeded, ?_⟩
      unfold confirmViolations at hconfirm
      split_ifs at hconfirm with hc
      simpa using hc
    · exact ih hrest hmem

end Precheck

section Soundness

/-- The calls that stop a run to ask: a gather form, a confirmation or the failure gate. -/
def isPrompt : FrontendCall → Bool
  | .gatherWorkflowInputs _ _ | .confirmStep _ | .resolveStepFailure _ _ _ => true
  | _ => false

variable {σ : Type} {env : Setup σ}

/-- A run that passed the precheck, as long as it keeps to what the precheck simulated. -/
structure PromptFree (env : Setup σ) (c : Config σ) : Prop where
  supplied : c.run.supplied = env.initialSupplied
  silent : ∀ call ∈ c.run.log, isPrompt call = false
  within : c.phase.remaining <:+ env.compiled.steps

def precheck (env : Setup σ) : List NoInputViolation :=
  noInputPrecheck env.compiled env.initialSupplied env.options.dryRun env.options.assumeYes

section Passed

variable (hclean : precheck env = []) (hnoInput : env.options.noInput = true)
  (hreview : env.options.reviewSteps = false)
include hclean hnoInput

theorem mayCall_silent {step : CompiledStep} (hstep : step ∈ env.compiled.steps)
    {s : RunState σ} (hs : s.supplied = env.initialSupplied) {call : FrontendCall}
    (hcall : MayCall env step s call) : isPrompt call = false := by
  obtain ⟨hneeded, hconfirm⟩ := precheckSteps_eq_nil _ _ _ hclean hstep
  cases call with
  | gatherWorkflowInputs needed asked =>
    obtain ⟨-, hasks, hne⟩ := hcall
    rw [hs, hneeded] at hasks
    exact absurd hasks hne
  | confirmStep asked =>
    obtain ⟨-, hasks⟩ := hcall
    rw [Bool.and_right_comm] at hasks
    rw [hconfirm] at hasks
    cases hasks
  | resolveStepFailure asked error safe =>
    obtain ⟨-, hinteractive⟩ := hcall
    rw [hnoInput] at hinteractive
    cases hinteractive
  | _ => rfl

theorem promptFree_stepMove {step : CompiledStep} {rest : List CompiledStep} {point : StepPoint}
    {s : RunState σ} {d : Config σ} (hmove : StepMove env step rest point s d)
    (h : PromptFree env ⟨.inStep step rest point, s⟩) : PromptFree env d := by
  have hstep : step ∈ env.compiled.steps := h.within.subset (by simp [Phase.remaining])
  have hneeded := (precheckSteps_eq_nil _ _ _ hclean hstep).1
  have hsilent {calls : List FrontendCall} (hcalls : MayCallAll env step s calls) :
      ∀ call ∈ calls, isPrompt call = false :=
    fun call hcall => mayCall_silent hclean hnoInput hstep h.supplied (hcalls call hcall)
  refine ⟨?_, ?_, hmove.remaining_suffix.trans h.within⟩
  · rw [hmove.supplied_eq (by rw [h.supplied]; exact hneeded)]
    exact h.supplied
  · intro call hcall
    cases hmove.shape with
    | stays calls hcalls hlog =>
      rw [hlog, List.mem_append] at hcall
      exact hcall.elim (h.silent call) (hsilent hcalls call)
    | raises calls hcalls hlog =>
      rw [hlog, List.mem_append] at hcall
      exact hcall.elim (h.silent call) (hsilent hcalls call)
    | closes calls hcalls attempts verdict hlog =>
      rw [hlog, List.mem_append, List.mem_append, List.mem_singleton] at hcall
      rcases hcall with (hcall | hcall) | rfl
      · exact h.silent call hcall
      · exact hsilent hcalls call hcall
      · rfl

include hreview

theorem promptFree_step {c d : Config σ} (hstep : Step env c d) (h : PromptFree env c) :
    PromptFree env d := by
  have hwithin := remaining_step hstep h.within
  have hlogged {s s' : RunState σ} {calls : List FrontendCall}
      (hs : ∀ call ∈ s.log, isPrompt call = false) (hlog : s'.log = s.log ++ calls)
      (hcalls : ∀ call ∈ calls, isPrompt call = false) :
      ∀ call ∈ s'.log, isPrompt call = false := by
    intro call hcall
    rw [hlog, List.mem_append] at hcall
    exact hcall.elim (hs call) (hcalls call)
  cases move_of_step hstep with
  | rejected => exact ⟨h.supplied, h.silent, hwithin⟩
  | opened => exact ⟨h.supplied, hlogged h.silent rfl (by simp [isPrompt]), hwithin⟩
  | briefed hcalls =>
    refine ⟨h.supplied, hlogged h.silent rfl fun call hcall => ?_, hwithin⟩
    rw [hcalls call hcall]
    rfl
  | collected hcalls hlog hskipped =>
    refine ⟨(hskipped hreview).1.trans h.supplied, hlogged h.silent hlog fun call hcall => ?_,
      hwithin⟩
    · obtain ⟨specs, rfl⟩ := hcalls call hcall
      rfl
  | exhausted => exact ⟨h.supplied, h.silent, hwithin⟩
  | started => exact ⟨h.supplied, hlogged h.silent rfl (by simp [isPrompt]), hwithin⟩
  | stepped hmove => exact promptFree_stepMove hclean hnoInput hmove h
  | finalised => exact ⟨h.supplied, hlogged h.silent rfl (by simp [isPrompt]), hwithin⟩
  | stayed => exact h

theorem promptFree_reachable {c : Config σ} (h : Reachable env c) : PromptFree env c := by
  obtain ⟨s, hruns⟩ := h
  have h0 : PromptFree env (Config.init env s) :=
    ⟨rfl, by simp [Config.init, RunState.init], by simp [Config.init, Phase.remaining]⟩
  exact Runs.invariant_of_step (PromptFree env)
    (fun _ _ ha hab => promptFree_step hclean hnoInput hreview hab ha) hruns h0

end Passed

end Soundness

/-- A clean precheck means a run that never prompts, and an unclean one lists exactly the
missing inputs (each once), the unbound step-local fields and the confirmations. -/
theorem precheck_sound_and_exact {σ : Type} (env : Setup σ) :
    (precheck env = [] → env.options.noInput = true → env.options.reviewSteps = false →
      ∀ c, Reachable env c → ∀ call ∈ c.run.log, isPrompt call = false) ∧
    ((precheck env).filterMap missingName?).Nodup ∧
    (∀ n, n ∈ (precheck env).filterMap missingName? ↔ ∃ step ∈ env.compiled.steps,
      n ∈ askedInputs (computeNeededInputs step env.initialSupplied env.compiled.inputs)) ∧
    (precheck env).filterMap gatherField? = (env.compiled.steps.flatMap fun step =>
      (askedFields (computeNeededInputs step env.initialSupplied env.compiled.inputs)).map
        fun field => (step.id, field)) ∧
    (precheck env).filterMap confirmStep? = ((env.compiled.steps.filter fun step =>
      step.confirm && !env.options.dryRun && !env.options.assumeYes).map (·.id)) := by
  obtain ⟨hnodup, hmissing⟩ := precheckSteps_missing env.compiled.inputs env.options.dryRun
    env.options.assumeYes env.compiled.steps env.initialSupplied
  refine ⟨fun hclean hnoInput hreview c hc =>
    (promptFree_reachable hclean hnoInput hreview hc).silent, hnodup, fun n => ?_, ?_, ?_⟩
  · simp only [precheck, noInputPrecheck, hmissing, mem_askedInputs]
  · simp only [precheck, noInputPrecheck, precheckSteps_gather, askedFields_eq]
  · simp only [precheck, noInputPrecheck, precheckSteps_confirm]

section Example

def realmInput : WorkflowInputSpec :=
  { name := "realm", description := none, schema := none, required := true, default := none
    sensitive := false, optionsSource := none, filePicker := none, location := .body }

def createStep : CompiledStep :=
  { id := "create", index := 0, description := none, kind := .api, action := none
    operation := some ⟨"iam", "CreateRealm"⟩, dependencies := [], confirm := true
    isOptional := false, continueOnFailure := false, skipIfExists := false, isReviewed := none
    inputs := [⟨"name", .reference ⟨.workflow "realm", none, none⟩, true, none⟩]
    outputs := [], autoDerived := [] }

/-- A confirmed step reading one input, run with the input passed and confirmations waived. -/
def suppliedSetup : Setup Unit :=
  { compiled :=
      { id := "new-realm", name := "New realm", briefing := none, inputs := [realmInput]
        isReviewedByDefault := false, steps := [createStep], outputs := [], completion := none }
    options := { RunOptions.default with noInput := true, assumeYes := true }
    preSupplied := .ofList [("realm", .string "main")]
    host := idleHost }

theorem precheck_sound_and_exact_supplied : precheck suppliedSetup = [] ∧
    ∀ c, Reachable suppliedSetup c → ∀ call ∈ c.run.log, isPrompt call = false :=
  ⟨by decide, (precheck_sound_and_exact suppliedSetup).1 (by decide) rfl rfl⟩

end Example

end NoInputRuns
