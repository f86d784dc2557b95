import AgsCli.Workflow.BindingReads
import AgsCli.Workflow.NeededInputs
import AgsCli.Workflow.ScriptedHost
import AgsCli.Workflow.StepLoop

/-! # Input gathering

When a step of a live run is dispatched, every workflow input its bindings read has been
supplied, provided the frontend answers what it is asked and local steps read only inputs that
are known before them. -/
namespace InputGathering

open OrderedMap Json CatalogueTypes ProtocolError WorkflowTypes RequestTypes Compile Resolve
  RunInputs NeededInputs BindingReads Executor AutoDerive

section Form

variable {inputs : List WorkflowInputSpec} {steps : List CompiledStep}

theorem mem_orderInputsByFirstUse {spec : WorkflowInputSpec} (h : spec ∈ inputs) :
    spec ∈ orderInputsByFirstUse inputs steps := by
  unfold orderInputsByFirstUse
  extract_lets firstUses key indexed
  have hindexed : ((key.get? spec.name).getD usizeMax, spec) ∈ indexed :=
    List.mem_map.mpr ⟨spec, h, rfl⟩
  exact List.mem_map.mpr ⟨_, (List.mem_insertionSort _).mpr hindexed, rfl⟩

theorem name_withFallbackDescription (spec : WorkflowInputSpec) :
    (withFallbackDescription spec).name = spec.name := by
  unfold withFallbackDescription
  split <;> rfl

/-- The run-start form asks for every declared input some step reads. -/
theorem shown_of_referenced {spec : WorkflowInputSpec} (pickers : Bool) (h : spec ∈ inputs)
    {step : CompiledStep} (hstep : step ∈ steps) (href : spec.name ∈ stepReferencedInputs step) :
    spec.name ∈ (gatherInputsForSurface inputs steps pickers).map (·.name) := by
  have hordered : spec ∈ orderInputsByFirstUse inputs steps := mem_orderInputsByFirstUse h
  unfold gatherInputsForSurface
  split
  · exact List.mem_map.mpr ⟨spec, hordered, rfl⟩
  · refine List.mem_map.mpr ⟨_, List.mem_map.mpr ⟨spec, List.mem_filter.mpr ⟨hordered, ?_⟩, rfl⟩,
      name_withFallbackDescription spec⟩
    have hread : spec.name ∈ steps.flatMap stepReferencedInputs :=
      List.mem_flatMap.mpr ⟨step, hstep, href⟩
    simp only [pickerSupportInputNames, Bool.not_eq_true', List.contains_eq_mem,
      decide_eq_false_iff_not, List.mem_filter]
    intro hsupport
    exact hsupport.2 hread

theorem get?_of_erased {k : String} {v : Value} {specs : List WorkflowInputSpec}
    {supplied : Values}
    (h : (specs.foldl (fun m spec => m.erase spec.name) supplied).get? k = some v) :
    supplied.get? k = some v := by
  induction specs generalizing supplied with
  | nil => exact h
  | cons spec rest ih =>
    have herased := ih h
    rw [BTreeMap.get?_erase] at herased
    split at herased
    · cases herased
    · exact herased

/-- After the form a value is one of the answer, or it was there and is not declared. -/
theorem get?_replaceInputs {k : String} {v : Value} {specs : List WorkflowInputSpec}
    {supplied chosen : Values} (h : (replaceInputs specs supplied chosen).get? k = some v) :
    chosen.get? k = some v ∨ supplied.get? k = some v := by
  unfold replaceInputs at h
  rw [BTreeMap.get?_extend] at h
  cases hchosen : chosen.get? k with
  | some w =>
    rw [hchosen] at h
    exact Or.inl h
  | none =>
    rw [hchosen] at h
    exact Or.inr (get?_of_erased h)

end Form

section Slots

variable {slotValues : BTreeMap GatherSlotId Value} {needed : List WorkflowInputNeeded}
  {acc : Gathered}

theorem contains_routeSlot {entry : WorkflowInputNeeded} {n : String}
    (h : acc.supplied.contains n = true) :
    (routeSlot slotValues acc entry).supplied.contains n = true := by
  unfold routeSlot
  split
  · exact h
  · split
    · exact BTreeMap.contains_insert.mpr (Or.inr h)
    · exact h

theorem contains_routed {n : String} (h : acc.supplied.contains n = true) :
    (needed.foldl (routeSlot slotValues) acc).supplied.contains n = true := by
  induction needed generalizing acc with
  | nil => exact h
  | cons entry rest ih => exact ih (contains_routeSlot h)

theorem routed_of_answered {entry : WorkflowInputNeeded} {n : String} (hentry : entry ∈ needed)
    (hname : inputName? entry = some n) (hanswer : slotValues.contains entry.id = true) :
    (needed.foldl (routeSlot slotValues) acc).supplied.contains n = true := by
  induction needed generalizing acc with
  | nil => cases hentry
  | cons first rest ih =>
    rw [List.foldl_cons]
    rcases List.mem_cons.mp hentry with rfl | hentry
    · refine contains_routed ?_
      obtain ⟨v, hv⟩ := BTreeMap.contains_eq_true.mp hanswer
      unfold routeSlot
      cases hscope : entry.scope with
      | stepLocal name => simp [inputName?, hscope] at hname
      | workflowInput name =>
        simp only [inputName?, hscope, Option.some.injEq] at hname
        simp only [hv]
        exact BTreeMap.contains_insert.mpr (Or.inl hname.symm)
    · exact ih hentry

/-- A routed value is an old one or the answer of a slot for its input. -/
theorem get?_routed {n : String} {v : Value}
    (h : (needed.foldl (routeSlot slotValues) acc).supplied.get? n = some v) :
    acc.supplied.get? n = some v ∨
      ∃ entry ∈ needed, inputName? entry = some n ∧ slotValues.get? entry.id = some v := by
  induction needed generalizing acc with
  | nil => exact Or.inl h
  | cons entry rest ih =>
    rcases ih h with hold | ⟨other, hother, hname, hvalue⟩
    · unfold routeSlot at hold
      cases hslot : slotValues.get? entry.id with
      | none =>
        rw [hslot] at hold
        exact Or.inl hold
      | some w =>
        simp only [hslot] at hold
        cases hscope : entry.scope with
        | stepLocal name =>
          rw [hscope] at hold
          exact Or.inl hold
        | workflowInput name =>
          rw [hscope] at hold
          simp only at hold
          by_cases hn : n = name
          · subst hn
            rw [BTreeMap.get?_insert_self] at hold
            exact Or.inr ⟨entry, List.mem_cons_self, by simp [inputName?, hscope],
              hslot.trans hold⟩
          · rw [BTreeMap.get?_insert_of_ne _ hn] at hold
            exact Or.inl hold
    · exact Or.inr ⟨other, List.mem_cons_of_mem _ hother, hname, hvalue⟩

end Slots

def sourceOperands : BindingSource → List String
  | .reference r =>
    match r.transform with
    | some (.arithmetic arith) =>
      match arith.operand with
      | .workflowInput operand => [operand]
      | .integer _ => []
    | _ => []
  | _ => []

def operandInputs (steps : List CompiledStep) : List String :=
  steps.flatMap fun step => step.inputs.flatMap fun b => sourceOperands b.source

/-- The values given for arithmetic operands are 64-bit integers. -/
def IntegerOperands (steps : List CompiledStep) (values : Values) : Prop :=
  ∀ o ∈ operandInputs steps, ∀ v, values.get? o = some v → v.asI64?.isSome = true

theorem sourceOperands_subset (source : BindingSource) :
    sourceOperands source ⊆ sourceWorkflowInputs source := by
  intro o ho
  cases source with
  | reference r => exact List.mem_append_right _ ho
  | literal l => cases ho
  | format f => cases ho
  | mirror m => cases ho

variable {σ : Type}

/-- What a frontend that answers every slot it is asked for does at each program point. -/
def AnswersEverySlot (env : Setup σ) (c : Config σ) : Prop :=
  match c.phase with
  | .inputGather _ =>
    let specs := gatherInputsForSurface env.compiled.inputs env.compiled.steps
      env.options.pickersAvailable
    ∀ chosen, (env.host.collectWorkflowInputs specs c.run.supplied c.run.hostState).1 =
      .ok (some chosen) → Present chosen.inputs (specs.map (·.name))
  | .inStep step _ (.collecting _) =>
    let needed := computeNeededInputs step c.run.supplied env.compiled.inputs
    ∀ result, (env.host.gatherWorkflowInputs needed step (buildSuppliedViews env.compiled
      c.run.supplied env.flagNames env.defaultAdded) c.run.hostState).1 = .ok result →
      ∀ entry ∈ needed, result.slotValues.contains entry.id = true
  | _ => True

/-- The frontend answers the slots of arithmetic operands with 64-bit integers. -/
def AnswersIntegers (env : Setup σ) (c : Config σ) : Prop :=
  match c.phase with
  | .inputGather _ =>
    let specs := gatherInputsForSurface env.compiled.inputs env.compiled.steps
      env.options.pickersAvailable
    ∀ chosen, (env.host.collectWorkflowInputs specs c.run.supplied c.run.hostState).1 =
      .ok (some chosen) → IntegerOperands env.compiled.steps chosen.inputs
  | .inStep step _ (.collecting _) =>
    let needed := computeNeededInputs step c.run.supplied env.compiled.inputs
    ∀ result, (env.host.gatherWorkflowInputs needed step (buildSuppliedViews env.compiled
      c.run.supplied env.flagNames env.defaultAdded) c.run.hostState).1 = .ok result →
      IntegerOperands env.compiled.steps result.inputOverrides ∧
        ∀ entry ∈ needed, ∀ o ∈ operandInputs env.compiled.steps, inputName? entry = some o →
          ∀ v, result.slotValues.get? entry.id = some v → v.asI64?.isSome = true
  | _ => True

def Obliging (env : Setup σ) (c : Config σ) : Prop :=
  AnswersEverySlot env c ∧ AnswersIntegers env c

/-- Every workflow input a local step reads is supplied at the start, or read by an API step
before it. -/
def LocalCovered (env : Setup σ) : Prop :=
  ∀ done step rest, env.compiled.steps = done ++ step :: rest → step.kind = .local →
    ∀ n ∈ bindingWorkflowInputs step.inputs, env.initialSupplied.contains n = true ∨
      ∃ earlier ∈ done, earlier.kind = .api ∧ n ∈ stepReferencedInputs earlier

/-- The inputs a run has certainly been given once the listed steps are done. -/
def Given (env : Setup σ) (done : List CompiledStep) (n : String) : Prop :=
  if env.options.reviewSteps = true then
    ∃ step ∈ env.compiled.steps, n ∈ bindingWorkflowInputs step.inputs
  else env.initialSupplied.contains n = true ∨
    ∃ earlier ∈ done, earlier.kind = .api ∧ n ∈ stepReferencedInputs earlier

/-- The given inputs have values, integers where operands are expected. -/
structure Holds (env : Setup σ) (s : RunState σ) (done : List CompiledStep) : Prop where
  given : ∀ n, Given env done n → s.supplied.contains n = true
  integers : IntegerOperands env.compiled.steps s.supplied

def LocalComplete (step : CompiledStep) : Attempt → Prop
  | .api _ => step.kind = .api
  | .local _ inputs =>
    step.kind = .local ∧ ∀ b ∈ step.inputs, inputs.contains b.field = true

/-- Holding at the program points of a step: the step's own inputs count once it has collected. -/
def HoldsWithin (env : Setup σ) (s : RunState σ) (done : List CompiledStep) (step : CompiledStep) :
    StepPoint → Prop
  | .entered => Holds env s done
  | .loading | .collecting _ => Holds env s done ∧ step.kind = .api
  | .assembling _ _ | .confirming _ | .previewing _ =>
    Holds env s (done ++ [step]) ∧ step.kind = .api
  | .attempting attempt _ | .failing attempt _ _ _ =>
    Holds env s (done ++ [step]) ∧ LocalComplete step attempt
  | .concluding _ _ => Holds env s (done ++ [step])

section Steps

variable {env : Setup σ} {s s' : RunState σ} {done rest : List CompiledStep} {step : CompiledStep}

theorem Holds.of_supplied_eq (h : Holds env s done) (heq : s'.supplied = s.supplied) :
    Holds env s' done := by
  obtain ⟨hgiven, hintegers⟩ := h
  exact ⟨by rw [heq]; exact hgiven, by rw [heq]; exact hintegers⟩

/-- Once the step's own inputs are there, the step counts as done. -/
theorem Holds.append (h : Holds env s done)
    (hstep : env.options.reviewSteps = false → step.kind = .api →
      Present s.supplied (stepReferencedInputs step)) :
    Holds env s (done ++ [step]) := by
  refine ⟨fun n hn => ?_, h.integers⟩
  unfold Given at hn
  split at hn
  · next hreview => exact h.given n (by rwa [Given, if_pos hreview])
  · next hreview =>
    rcases hn with hinitial | ⟨earlier, hearlier, hkind, href⟩
    · exact h.given n (by rw [Given, if_neg hreview]; exact Or.inl hinitial)
    · rcases List.mem_append.mp hearlier with hearlier | hearlier
      · refine h.given n ?_
        rw [Given, if_neg hreview]
        exact Or.inr ⟨earlier, hearlier, hkind, href⟩
      · rw [List.mem_singleton.mp hearlier] at hkind href
        exact hstep (by simpa using hreview) hkind n href

theorem Holds.append_review (h : Holds env s done) (hreview : env.options.reviewSteps = true) :
    Holds env s (done ++ [step]) :=
  h.append fun hno => by rw [hno] at hreview; cases hreview

theorem Holds.append_local (h : Holds env s done) (hkind : step.kind = .local) :
    Holds env s (done ++ [step]) :=
  h.append fun _ hapi => by rw [hkind] at hapi; cases hapi

theorem reviewSteps_of_takeReviewPath {mode : RunMode} (h : takeReviewPath env step mode = true) :
    env.options.reviewSteps = true := by
  simp only [takeReviewPath, Bool.and_eq_true] at h
  exact h.1.1

/-- A step that asks for nothing has all its referenced inputs. -/
theorem present_of_unasked (h : computeNeededInputs step s.supplied env.compiled.inputs = []) :
    Present s.supplied (stepReferencedInputs step) := by
  intro n hn
  by_contra hmissing
  have hasked := (mem_askedInputs step s.supplied env.compiled.inputs n).mpr
    ⟨hn, by simpa using hmissing⟩
  rw [h] at hasked
  cases hasked

/-- A full answer to the slots of a step supplies its referenced inputs. -/
theorem present_applyGathered {result : GatherResult} {stepLocal : Values}
    (hanswers : ∀ entry ∈ computeNeededInputs step s.supplied env.compiled.inputs,
      result.slotValues.contains entry.id = true) :
    Present (applyGathered (computeNeededInputs step s.supplied env.compiled.inputs) result
      s.supplied stepLocal).supplied (stepReferencedInputs step) := by
  intro n hn
  refine BTreeMap.contains_extend.mpr (Or.inl ?_)
  by_cases hsupplied : s.supplied.contains n = true
  · exact contains_routed hsupplied
  · obtain ⟨entry, hentry, hname⟩ := List.mem_filterMap.mp
      ((mem_askedInputs step s.supplied env.compiled.inputs n).mpr ⟨hn, by simpa using hsupplied⟩)
    exact routed_of_answered hentry hname (hanswers entry hentry)

theorem integers_applyGathered {result : GatherResult} {stepLocal : Values}
    (h : IntegerOperands env.compiled.steps s.supplied)
    (hoverrides : IntegerOperands env.compiled.steps result.inputOverrides)
    (hslots : ∀ entry ∈ computeNeededInputs step s.supplied env.compiled.inputs,
      ∀ o ∈ operandInputs env.compiled.steps, inputName? entry = some o →
        ∀ v, result.slotValues.get? entry.id = some v → v.asI64?.isSome = true) :
    IntegerOperands env.compiled.steps (applyGathered
      (computeNeededInputs step s.supplied env.compiled.inputs) result s.supplied
        stepLocal).supplied := by
  intro o ho v hv
  simp only [applyGathered, BTreeMap.get?_extend] at hv
  cases hoverride : result.inputOverrides.get? o with
  | some w =>
    rw [hoverride] at hv
    cases hv
    exact hoverrides o ho _ hoverride
  | none =>
    rw [hoverride, Option.none_or] at hv
    rcases get?_routed hv with hold | ⟨entry, hentry, hname, hvalue⟩
    · exact h o ho v hold
    · exact hslots entry hentry o ho hname v hvalue

theorem Holds.gathered (h : Holds env s done) {schema : ServiceSchema} {result : GatherResult}
    (hguard : Obliging env ⟨.inStep step rest (.collecting schema), s⟩)
    (hanswer : (env.host.gatherWorkflowInputs
      (computeNeededInputs step s.supplied env.compiled.inputs) step (buildSuppliedViews
        env.compiled s.supplied env.flagNames env.defaultAdded) s.hostState).1 = .ok result)
    (hs' : s'.supplied = (applyGathered
      (computeNeededInputs step s.supplied env.compiled.inputs) result s.supplied
        .empty).supplied) :
    Holds env s' (done ++ [step]) := by
  have hslots := hguard.1 result hanswer
  obtain ⟨hoverrides, hvalues⟩ := hguard.2 result hanswer
  have hkept : Holds env s' done := by
    refine ⟨fun n hn => ?_, ?_⟩
    · rw [hs']
      exact BTreeMap.contains_extend.mpr (Or.inl (contains_routed (h.given n hn)))
    · rw [hs']
      exact integers_applyGathered h.integers hoverrides hvalues
  refine hkept.append fun _ _ => ?_
  rw [hs']
  exact present_applyGathered hslots

variable {definition : WorkflowDefinition} {catalogue : Catalogue}

/-- What a step's bindings read has been supplied once the step counts as done. -/
theorem Holds.present (hcovered : env.options.reviewSteps = true ∨ LocalCovered env)
    (hsteps : env.compiled.steps = done ++ step :: rest) (h : Holds env s (done ++ [step])) :
    Present s.supplied (bindingWorkflowInputs step.inputs) := by
  intro n hn
  apply h.given n
  unfold Given
  split
  · exact ⟨step, by rw [hsteps]; simp, hn⟩
  · next hreview =>
    cases hkind : step.kind with
    | api => exact Or.inr ⟨step, by simp, hkind, List.mem_append_left _ hn⟩
    | «local» =>
      rcases hcovered with hform | hlocal
      · exact absurd hform hreview
      · rcases hlocal done step rest hsteps hkind n hn with hinitial | ⟨earlier, hearlier, hread⟩
        · exact Or.inl hinitial
        · exact Or.inr ⟨earlier, List.mem_append_left _ hearlier, hread⟩

theorem templatesValid (haccepted : Accepted definition catalogue env.compiled)
    (hstep : step ∈ env.compiled.steps) : TemplatesValid step.inputs := by
  intro b hb f hf
  obtain ⟨names, hnames, -⟩ := haccepted.template_declared hstep hb hf
  exact ⟨names, hnames⟩

theorem holds_moves (haccepted : Accepted definition catalogue env.compiled)
    (hlive : env.options.dryRun = false)
    (hcovered : env.options.reviewSteps = true ∨ LocalCovered env) (s : RunState σ)
    (done : List CompiledStep) (step : CompiledStep) (rest : List CompiledStep) (point : StepPoint)
    (d : Config σ) (hsteps : env.compiled.steps = done ++ step :: rest)
    (hguard : Obliging env ⟨.inStep step rest point, s⟩) (h : HoldsWithin env s done step point)
    (hmove : StepMove env step rest point s d) :
    Follows (Holds env) (HoldsWithin env) done step d := by
  cases hmove with
  | load hkind => exact ⟨h, hkind⟩
  | ready hkind hin _ =>
    have hdone : Holds env s (done ++ [step]) := h.append_local hkind
    have hstep : step ∈ env.compiled.steps := by rw [hsteps]; simp
    have hvalid : TemplatesValid step.inputs := templatesValid haccepted hstep
    have hpresent := hdone.present hcovered hsteps
    exact ⟨hdone, hkind, localInputs_complete hvalid hpresent hin⟩
  | previewedLocal _ _ _ _ hdry => rw [hlive] at hdry; cases hdry
  | loaded => exact ⟨h.1.of_supplied_eq rfl, h.2⟩
  | unpaused hreview => exact ⟨h.1.append_review (reviewSteps_of_takeReviewPath hreview), h.2⟩
  | unasked _ hneeded => exact ⟨h.1.append fun _ _ => present_of_unasked hneeded, h.2⟩
  | reviewed hreview =>
    exact ⟨(h.1.append_review (reviewSteps_of_takeReviewPath hreview)).of_supplied_eq rfl, h.2⟩
  | gathered _ hneeded _ hanswer =>
    subst hneeded
    exact ⟨h.1.gathered hguard hanswer rfl, h.2⟩
  | assembled => exact h
  | confirmed =>
    unfold dispatchPoint
    rw [hlive]
    exact ⟨h.1.of_supplied_eq rfl, h.2⟩
  | synthesised => exact h.1.of_supplied_eq rfl
  | unpreviewed => exact h.1.of_supplied_eq rfl
  | captured => exact h.1.of_supplied_eq rfl
  | written => exact h.1.of_supplied_eq rfl
  | missed => exact ⟨h.1.of_supplied_eq rfl, h.2⟩
  | retried => exact ⟨h.1.of_supplied_eq rfl, h.2⟩
  | ruled => exact h.1.of_supplied_eq rfl
  | concluded =>
    unfold concludeStep
    split
    · trivial
    · exact Holds.of_supplied_eq h rfl
  | failed => trivial
  | cancelled => trivial
  | @skipped point s attempts summary reason error calls hs hcalls hchosen hsafe =>
    have hdone : Holds env s (done ++ [step]) := by
      cases point with
      | collecting schema => exact h.1.append_review (reviewSteps_of_takeReviewPath hchosen.1)
      | confirming request => exact h.1
      | failing attempt error stage attempts => exact h.1
      | _ => exact hchosen.elim
    exact hdone.of_supplied_eq rfl
  | raised => trivial

/-- The form's answer, or without a form the flags and defaults, are what is given at first. -/
theorem holds_begin (haccepted : Accepted definition catalogue env.compiled)
    (hintegers : IntegerOperands env.compiled.steps env.initialSupplied) (outcome : RunOutcome)
    (hguard : Obliging env ⟨.inputGather outcome, s⟩) (hfresh : Fresh env s)
    (hskipped : FormSkipped env s s')
    (hform : env.options.reviewSteps = true → FormAnswered env s s') : Holds env s' [] := by
  by_cases hreview : env.options.reviewSteps = true
  · obtain ⟨chosen, -, hsupplied, hanswer⟩ := hform hreview
    refine ⟨fun n hn => ?_, fun o ho v hv => ?_⟩
    · rw [Given, if_pos hreview] at hn
      obtain ⟨step, hstep, hread⟩ := hn
      obtain ⟨spec, hspec, rfl⟩ := haccepted.bound_declared hstep hread
      have hshown := shown_of_referenced env.options.pickersAvailable hspec hstep
        (List.mem_append_left _ hread)
      rw [hsupplied]
      exact BTreeMap.contains_extend.mpr (Or.inr (hguard.1 chosen hanswer _ hshown))
    · rw [hsupplied] at hv
      rcases get?_replaceInputs hv with hchosen | hbefore
      · exact hguard.2 chosen hanswer o ho v hchosen
      · rw [hfresh.supplied] at hbefore
        exact hintegers o ho v hbefore
  · obtain ⟨hsupplied, -⟩ := hskipped (by simpa using hreview)
    rw [hfresh.supplied] at hsupplied
    refine ⟨fun n hn => ?_, by rw [hsupplied]; exact hintegers⟩
    rw [Given, if_neg hreview] at hn
    rcases hn with hinitial | ⟨earlier, hearlier, -⟩
    · rw [hsupplied]
      exact hinitial
    · cases hearlier

def holdsInvariant (haccepted : Accepted definition catalogue env.compiled)
    (hlive : env.options.dryRun = false)
    (hcovered : env.options.reviewSteps = true ∨ LocalCovered env)
    (hintegers : IntegerOperands env.compiled.steps env.initialSupplied) :
    LoopInvariant env (Obliging env) where
  between := Holds env
  within := HoldsWithin env
  begins outcome _ _ hguard hfresh hskipped hform _ _ :=
    holds_begin haccepted hintegers outcome hguard hfresh hskipped hform
  starts _ _ _ _ _ h := h.of_supplied_eq rfl
  moves := holds_moves haccepted hlive hcovered

end Steps

/-- The program points between a step's gathering and the end of its dispatch. -/
def Dispatches : StepPoint → Prop
  | .assembling _ _ | .confirming _ | .attempting _ _ => True
  | _ => False

theorem HoldsWithin.dispatched {env : Setup σ} {s : RunState σ} {done : List CompiledStep}
    {step : CompiledStep} {point : StepPoint} (h : HoldsWithin env s done step point)
    (hpoint : Dispatches point) : Holds env s (done ++ [step]) := by
  cases point with
  | assembling schema stepLocal => exact h.1
  | confirming request => exact h.1
  | attempting attempt attempts => exact h.1
  | _ => exact hpoint.elim

/-- In a live run of a compiled workflow whose frontend answers every slot, with integers for
operands: when a step is dispatched every workflow input its bindings read is supplied, every
arithmetic operand is the integer supplied for it, and a local action has every bound field.
Runs without a run-start form need the inputs of local steps to be known before them. -/
theorem inputs_gathered {definition : WorkflowDefinition} {catalogue : Catalogue} (env : Setup σ)
    (hcompiled : compileWorkflow definition catalogue = .ok env.compiled)
    (hlive : env.options.dryRun = false)
    (hcovered : env.options.reviewSteps = true ∨ LocalCovered env)
    (hintegers : IntegerOperands env.compiled.steps env.initialSupplied) {c : Config σ}
    (hc : ReachableUnder env (Obliging env) c) {step : CompiledStep} {rest : List CompiledStep}
    {point : StepPoint} (hphase : c.phase = .inStep step rest point) (hpoint : Dispatches point) :
    (∀ n ∈ bindingWorkflowInputs step.inputs, c.run.supplied.contains n = true) ∧
    (∀ b ∈ step.inputs, ∀ o ∈ sourceOperands b.source, ∃ v, c.run.supplied.get? o = some v ∧
      v.asI64? = some (operandValue c.run.supplied (.workflowInput o))) ∧
    (∀ action inputs attempts, point = .attempting (.local action inputs) attempts →
      ∀ b ∈ step.inputs, inputs.contains b.field = true) := by
  have haccepted := compileWorkflow_ok hcompiled
  obtain ⟨done, hdone, hwithin⟩ :=
    (holdsInvariant haccepted hlive hcovered hintegers).within_of_reachable hc hphase
  have hholds : Holds env c.run (done ++ [step]) := HoldsWithin.dispatched hwithin hpoint
  have hpresent := hholds.present hcovered hdone
  refine ⟨hpresent, fun b hb o ho => ?_, ?_⟩
  · obtain ⟨v, hv⟩ := BTreeMap.contains_eq_true.mp
      (present_source hpresent hb o (sourceOperands_subset b.source ho))
    have hoperand : o ∈ operandInputs env.compiled.steps :=
      List.mem_flatMap.mpr ⟨step, by rw [hdone]; simp, List.mem_flatMap.mpr ⟨b, hb, ho⟩⟩
    obtain ⟨i, hi⟩ := Option.isSome_iff_exists.mp (hholds.integers o hoperand v hv)
    exact ⟨v, hv, by simp [operandValue, hv, hi]⟩
  · rintro action inputs attempts rfl
    exact hwithin.2.2

section Login

def registryInput : WorkflowInputSpec :=
  { name := "registry", description := none, schema := some (typeSchema "string"), required := true
    default := none, sensitive := false, optionsSource := none, filePicker := none
    location := .body }

def registryBinding (field : String) : StepInputBinding :=
  ⟨field, .reference ⟨.workflow "registry", none, none⟩, true, none⟩

def loginDefinitionStep : StepDefinition :=
  { id := "login", description := none, kind := .local, action := some "docker-login"
    operation := none, dependencies := [], confirm := false, isOptional := false
    continueOnFailure := false, skipIfExists := false, isReviewed := none
    inputs := [registryBinding "registry", ⟨"username", .literal ⟨.string "ci", false⟩, false, none⟩,
      ⟨"password", .literal ⟨.string "token", false⟩, false, none⟩]
    outputs := [] }

/-- The listed steps before a docker login with a registry from a workflow input. -/
def loginDefinition (before : List StepDefinition) : WorkflowDefinition :=
  { id := "login", name := "Login", briefing := none, inputs := [registryInput]
    isReviewedByDefault := false, steps := before ++ [loginDefinitionStep], outputs := []
    completion := none }

def loginCompiled (before : List StepDefinition) : CompiledWorkflow :=
  { id := "login", name := "Login", briefing := none, inputs := [registryInput]
    isReviewedByDefault := false
    steps := (loginDefinition before).steps.zipIdx.map fun p => compiledStep p.1 p.2 []
    outputs := [], completion := none }

/-- Answers every slot of the form and of a step with the same text. -/
def obligingHost : Host Unit :=
  { idleHost with
    collectWorkflowInputs := fun specs _ _ =>
      (.ok (some ⟨.ofList (specs.map fun spec => (spec.name, .string "registry.example")),
        .reviewInputSteps⟩), ())
    gatherWorkflowInputs := fun needed _ _ _ =>
      (.ok ⟨.ofList (needed.map fun entry => (entry.id, .string "registry.example")), .empty⟩, ())
    getOrLoad := fun _ _ => (.ok csmSchema, ())
    runCommand := fun _ _ => ([], .ok (.service ⟨.shaped, some (.object [])⟩), ()) }

def loginRun (before : List StepDefinition) : Setup Unit :=
  { compiled := loginCompiled before, options := .default, preSupplied := .empty
    host := obligingHost }

theorem loginRun_obliging (before : List StepDefinition)
    (hoperands : operandInputs (loginCompiled before).steps = []) (c : Config Unit) :
    Obliging (loginRun before) c := by
  have hintegers : ∀ values, IntegerOperands (loginCompiled before).steps values := by
    intro values o ho
    rw [hoperands] at ho
    cases ho
  obtain ⟨phase, s⟩ := c
  refine ⟨?_, ?_⟩
  · cases phase with
    | inputGather outcome =>
      rintro chosen hchosen n hn
      cases hchosen
      exact BTreeMap.contains_ofList.mpr (by simpa using hn)
    | inStep step rest point =>
      cases point with
      | collecting schema =>
        rintro result hresult entry hentry
        cases hresult
        refine BTreeMap.contains_ofList.mpr ?_
        exact List.mem_map.mpr ⟨_, List.mem_map.mpr ⟨entry, hentry, rfl⟩, rfl⟩
      | _ => trivial
    | _ => trivial
  · cases phase with
    | inputGather outcome => exact fun chosen _ => hintegers _
    | inStep step rest point =>
      cases point with
      | collecting schema =>
        refine fun result _ => ⟨hintegers _, fun entry _ o ho => ?_⟩
        rw [show operandInputs (loginRun before).compiled.steps = [] from hoperands] at ho
        cases ho
      | _ => trivial
    | _ => trivial

def notifyRegistry : StepDefinition := apiStep "notify" "Notify" [registryBinding "url"] []

def loginStep (index : Nat) : CompiledStep := compiledStep loginDefinitionStep index []

theorem loginRun_covered : LocalCovered (loginRun [notifyRegistry]) := by
  intro done step rest hsteps hkind n hn
  rcases done with _ | ⟨first, _ | ⟨second, others⟩⟩
  · cases hsteps
    cases hkind
  · cases hsteps
    have hregistry : n = "registry" := List.mem_singleton.mp hn
    subst hregistry
    exact Or.inr ⟨_, List.mem_cons_self, rfl, List.mem_cons_self⟩
  · have hlength := congrArg List.length hsteps
    simp [loginRun, loginCompiled, loginDefinition] at hlength

/-- With the registry asked by a service step first, the login is run with it. -/
theorem inputs_gathered_login : ∃ inputs, (after (loginRun [notifyRegistry]) 13).phase =
    .inStep (loginStep 1) [] (.attempting (.local "docker-login" inputs) 0) ∧
      inputs.contains "registry" = true := by
  have hreached : ReachableUnder (loginRun [notifyRegistry]) (Obliging (loginRun [notifyRegistry]))
      (after (loginRun [notifyRegistry]) 13) :=
    ⟨(), (after_reaches (loginRun [notifyRegistry]) 13).under fun c _ =>
      loginRun_obliging [notifyRegistry] rfl c⟩
  have hcompiled : compileWorkflow (loginDefinition [notifyRegistry]) csmCatalogue =
      .ok (loginRun [notifyRegistry]).compiled := rfl
  obtain ⟨inputs, hphase⟩ : ∃ inputs, (after (loginRun [notifyRegistry]) 13).phase =
      .inStep (loginStep 1) [] (.attempting (.local "docker-login" inputs) 0) := ⟨_, rfl⟩
  have hintegers : IntegerOperands (loginRun [notifyRegistry]).compiled.steps
      (loginRun [notifyRegistry]).initialSupplied := fun o ho => by cases ho
  obtain ⟨-, -, hfields⟩ := inputs_gathered (loginRun [notifyRegistry]) hcompiled rfl
    (Or.inr loginRun_covered) hintegers hreached hphase trivial
  exact ⟨inputs, hphase, hfields _ inputs 0 rfl (registryBinding "registry") List.mem_cons_self⟩

/-- Nothing asks for an input only a local step reads: the login is run without its registry. -/
theorem local_input_never_asked :
    compileWorkflow (loginDefinition []) csmCatalogue = .ok (loginRun []).compiled ∧
    (loginRun []).options.noInput = false ∧ (loginRun []).options.dryRun = false ∧
    ReachableUnder (loginRun []) (Obliging (loginRun [])) (after (loginRun []) 5) ∧
    ∃ inputs, (after (loginRun []) 5).phase =
        .inStep (loginStep 0) [] (.attempting (.local "docker-login" inputs) 0) ∧
      "registry" ∈ bindingWorkflowInputs (loginStep 0).inputs ∧
      (after (loginRun []) 5).run.supplied.contains "registry" = false ∧
      inputs.contains "registry" = false := by
  have hreached : ReachableUnder (loginRun []) (Obliging (loginRun [])) (after (loginRun []) 5) :=
    ⟨(), (after_reaches (loginRun []) 5).under fun c _ => loginRun_obliging [] rfl c⟩
  exact ⟨rfl, rfl, rfl, hreached, _, rfl, List.mem_cons_self, rfl, rfl⟩

end Login

end InputGathering
