import AgsCli.Workflow.CompileFacts
import AgsCli.Workflow.ScriptedHost
import AgsCli.Workflow.StepLoop

/-! # Step references

In a live run of a compiled workflow the outputs of every finished step are bound before a later
step reads them, as long as no step with outputs answers with a written binary. -/
namespace StepReferences

open OrderedMap Json CatalogueTypes ProtocolError WorkflowTypes RequestTypes WorkflowContext
  Resolve ReviewPlan Executor

variable {σ : Type} {env : Setup σ}

theorem outputsBound_elsewhere {stepId other : String} {ctx ctx' : Context}
    {captures : List StepOutputCapture} (h : SameElsewhere stepId ctx ctx')
    (hne : other ≠ stepId) (hbound : OutputsBound ctx other captures) :
    OutputsBound ctx' other captures := by
  intro c hc
  rw [h other hne c.name]
  exact hbound c hc

def AllBound (ctx : Context) (steps : List CompiledStep) : Prop :=
  ∀ earlier ∈ steps, OutputsBound ctx earlier.id earlier.outputs

/-- The program points of a live run, with a concluded success already bound. -/
def PointBound (ctx : Context) (step : CompiledStep) : StepPoint → Prop
  | .previewing _ => False
  | .concluding _ verdict => verdict.outcome ≠ .failed → OutputsBound ctx step.id step.outputs
  | _ => True

/-- The failure condition: a step with declared outputs whose dispatch wrote a binary. -/
def NoBinaryAnswer (env : Setup σ) (c : Config σ) : Prop :=
  match c.phase with
  | .inStep step _ (.attempting (.api request) _) => step.outputs = [] ∨
      ∀ output, (env.host.runCommand request c.run.hostState).2.1 ≠ .ok (.binaryWritten output)
  | _ => True

theorem allBound_stepMove (hnodup : (env.compiled.steps.map (·.id)).Nodup) {step : CompiledStep}
    {rest done : List CompiledStep} {point : StepPoint} {s : RunState σ} {d : Config σ}
    (hmove : StepMove env step rest point s d)
    (hsteps : env.compiled.steps = done ++ step :: rest) (h : AllBound s.ctx done) :
    AllBound d.run.ctx done := by
  intro earlier hearlier
  exact outputsBound_elsewhere hmove.same_elsewhere (id_ne_of_nodup hnodup hsteps hearlier)
    (h earlier hearlier)

theorem allBound_append {ctx : Context} {done : List CompiledStep} {step : CompiledStep}
    (h : AllBound ctx done) (hstep : OutputsBound ctx step.id step.outputs) :
    AllBound ctx (done ++ [step]) := by
  intro earlier hearlier
  rcases List.mem_append.mp hearlier with hearlier | hearlier
  · exact h earlier hearlier
  · rw [List.mem_singleton.mp hearlier]
    exact hstep

def boundBetween (s : RunState σ) (done : List CompiledStep) : Prop := AllBound s.ctx done

def boundWithin (s : RunState σ) (done : List CompiledStep) (step : CompiledStep)
    (point : StepPoint) : Prop := AllBound s.ctx done ∧ PointBound s.ctx step point

theorem bound_moves (hnodup : (env.compiled.steps.map (·.id)).Nodup)
    (hlive : env.options.dryRun = false) (s : RunState σ) (done : List CompiledStep)
    (step : CompiledStep) (rest : List CompiledStep) (point : StepPoint) (d : Config σ)
    (hsteps : env.compiled.steps = done ++ step :: rest)
    (hguard : NoBinaryAnswer env ⟨.inStep step rest point, s⟩)
    (h : boundWithin s done step point) (hmove : StepMove env step rest point s d) :
    Follows boundBetween boundWithin done step d := by
  obtain ⟨hearlier, hpoint⟩ := h
  have hall := allBound_stepMove hnodup hmove hsteps hearlier
  cases hmove with
  | previewedLocal _ _ _ _ hdry => rw [hlive] at hdry; cases hdry
  | confirmed =>
    refine ⟨hall, ?_⟩
    simp only [dispatchPoint, hlive, Bool.false_eq_true, if_false, PointBound]
  | synthesised => exact hpoint.elim
  | unpreviewed => exact hpoint.elim
  | captured hcalls hsame hbound =>
    exact ⟨hall, fun _ => Context.outputsBound_bindWith _ _ _ hbound⟩
  | written hcalls hanswer =>
    refine ⟨hall, fun _ => ?_⟩
    rcases hguard with hnone | hno
    · rw [hnone]
      intro c hc
      cases hc
    · exact absurd hanswer (hno _)
  | ruled => exact ⟨hall, fun hne => absurd rfl hne⟩
  | @concluded s attempts verdict =>
    unfold concludeStep at hall ⊢
    split
    · trivial
    · next hne =>
      rw [if_neg hne] at hall
      exact allBound_append hall (hpoint hne)
  | skipped hcalls hchosen hsafe =>
    exact allBound_append hall
      (Context.outputsBound_bindWith _ _ _ ((isSafelySkippable_iff).mp hsafe))
  | failed => trivial
  | cancelled => trivial
  | raised => trivial
  | _ => exact ⟨hall, trivial⟩

def boundInvariant (hnodup : (env.compiled.steps.map (·.id)).Nodup)
    (hlive : env.options.dryRun = false) : LoopInvariant env (NoBinaryAnswer env) where
  between := boundBetween
  within := boundWithin
  begins _ _ _ _ _ _ _ _ _ := by simp [boundBetween, AllBound]
  starts _ _ _ _ _ h := ⟨h, trivial⟩
  moves := bound_moves hnodup hlive

/-- Only a step declared skippable, or one whose outputs all have defaults, is skipped. -/
theorem skipChosen_cases {step : CompiledStep} {s : RunState σ} {point : StepPoint}
    (h : SkipChosen env step s point) :
    (step.isOptional || step.continueOnFailure || step.skipIfExists) = true ∨
      isSafelySkippable step = true := by
  cases point with
  | collecting schema => exact Or.inl (by simp [h.2.1])
  | confirming request => exact Or.inl (by simp [h.1])
  | failing attempt error stage attempts =>
    rcases h with htolerated | ⟨-, -, hsafe, -⟩
    · rw [tolerates, Bool.or_eq_true, Bool.and_eq_true] at htolerated
      rcases htolerated with hcontinue | ⟨hexists, -⟩
      · exact Or.inl (by simp [hcontinue])
      · exact Or.inl (by simp [hexists])
    · exact Or.inr hsafe
  | _ => exact h.elim

variable {definition : WorkflowDefinition} {catalogue : Catalogue}

theorem reference_resolves {ctx : Context} {id name : String} {v : Value} (supplied : Values)
    {r : ReferenceBinding} (htarget : r.source = .step id) (houtput : r.output = some name)
    (h : ctx.resolveStepReference id name = some v) :
    ∃ w, resolveReference ctx supplied r = .ok (some w) := by
  exact ⟨applyOptionalTransform v r.transform supplied, by
    simp only [resolveReference, htarget, houtput, h]⟩

/-- In a live run of a compiled workflow whose steps with outputs never answer with a written
binary: all outputs of the earlier steps are bound inside a step, its `from: step/X` bindings
resolve, and a chosen skip binds its defaults. -/
theorem step_references_resolve (env : Setup σ)
    (hcompiled : Compile.compileWorkflow definition catalogue = .ok env.compiled)
    (hlive : env.options.dryRun = false) {c : Config σ}
    (hc : ReachableUnder env (NoBinaryAnswer env) c) {step : CompiledStep}
    {rest : List CompiledStep} {point : StepPoint} (hphase : c.phase = .inStep step rest point) :
    (∀ done, env.compiled.steps = done ++ step :: rest →
      ∀ earlier ∈ done, ∀ output ∈ earlier.outputs,
        (c.run.ctx.resolveStepReference earlier.id output.name).isSome) ∧
    (∀ binding ∈ step.inputs, ∀ r id, binding.source = .reference r → r.source = .step id →
      ∃ v, resolveReference c.run.ctx c.run.supplied r = .ok (some v)) ∧
    (SkipChosen env step c.run point →
      (c.run.ctx.bindSkippedOutputs step.id step.outputs).2 = .ok ()) := by
  have haccepted := Compile.compileWorkflow_ok hcompiled
  obtain ⟨done, hdone, hearlier, -⟩ :=
    (boundInvariant haccepted.nodup_ids hlive).within_of_reachable hc hphase
  refine ⟨fun done' hdone' => ?_, ?_, ?_⟩
  · obtain rfl : done' = done := List.append_cancel_right (hdone'.symm.trans hdone)
    exact hearlier
  · intro binding hbinding r id hreference htarget
    obtain ⟨name, houtput, earlier, hmem, rfl, capture, hcapture, rfl⟩ :=
      haccepted.reference_declared hdone hbinding hreference htarget
    obtain ⟨v, hv⟩ := Option.isSome_iff_exists.mp (hearlier earlier hmem capture hcapture)
    exact reference_resolves c.run.supplied htarget houtput hv
  · intro hskip
    rw [Context.bindSkippedOutputs_ok_iff]
    have hstep : step ∈ env.compiled.steps := by rw [hdone]; simp
    rcases skipChosen_cases hskip with hdeclared | hsafe
    · exact haccepted.skippable_defaults hstep hdeclared
    · simpa [isSafelySkippable] using hsafe

section Export

/-- A live run whose service answers every request with `answer`. -/
def exportRun (answer : DispatchOutput) : Setup Unit :=
  { compiled := exportCompiled, options := .default, preSupplied := .empty
    host := { idleHost with
      getOrLoad := fun _ _ => (.ok csmSchema, ())
      runCommand := fun _ _ => ([], .ok answer, ()) } }

def urlAnswer : DispatchOutput :=
  .service ⟨.shaped, some (.object [("url", .string "https://files")])⟩

theorem urlAnswer_unwritten (c : Config Unit) : NoBinaryAnswer (exportRun urlAnswer) c := by
  obtain ⟨phase, s⟩ := c
  cases phase with
  | inStep step rest point =>
    cases point with
    | attempting attempt attempts =>
      cases attempt with
      | api request =>
        refine Or.inr fun output h => ?_
        cases h
      | «local» => trivial
    | _ => trivial
  | _ => trivial

/-- Inside the second step the first one's output is bound. -/
theorem step_references_resolve_export :
    (after (exportRun urlAnswer) 12).phase = .inStep notifyStep [] .entered ∧
      ((after (exportRun urlAnswer) 12).run.ctx.resolveStepReference "export" "url").isSome := by
  have hreached : ReachableUnder (exportRun urlAnswer) (NoBinaryAnswer (exportRun urlAnswer))
      (after (exportRun urlAnswer) 12) :=
    ⟨(), (after_reaches (exportRun urlAnswer) 12).under fun c _ => urlAnswer_unwritten c⟩
  have hphase : (after (exportRun urlAnswer) 12).phase = .inStep notifyStep [] .entered := rfl
  have hbound := (step_references_resolve (exportRun urlAnswer) export_compiles rfl hreached
    hphase).1 [exportStep] rfl exportStep (by simp) ⟨"url", ⟨"$.url"⟩, none, false⟩
    (by simp [exportStep, Compile.compiledStep, apiStep])
  exact ⟨hphase, hbound⟩

def writtenAnswer : DispatchOutput := .binaryWritten ⟨.file "export.zip", 4096, "application/zip"⟩

/-- The export answers with a file: the run goes on, and the next step's reference dangles. -/
theorem written_binary_leaves_reference_dangling :
    Compile.compileWorkflow exportDefinition csmCatalogue = .ok (exportRun writtenAnswer).compiled ∧
    (exportRun writtenAnswer).options.dryRun = false ∧
    Reachable (exportRun writtenAnswer) (after (exportRun writtenAnswer) 12) ∧
    (after (exportRun writtenAnswer) 12).phase = .inStep notifyStep [] .entered ∧
    (after (exportRun writtenAnswer) 12).run.ctx.resolveStepReference "export" "url" = none ∧
    ¬∃ v, resolveReference (after (exportRun writtenAnswer) 12).run.ctx
      (after (exportRun writtenAnswer) 12).run.supplied ⟨.step "export", some "url", none⟩ =
        .ok (some v) := by
  refine ⟨export_compiles, rfl, ⟨(), after_reaches (exportRun writtenAnswer) 12⟩, rfl, rfl, ?_⟩
  rintro ⟨v, h⟩
  cases h

end Export

end StepReferences
