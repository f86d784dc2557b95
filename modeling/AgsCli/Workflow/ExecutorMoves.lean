import AgsCli.Workflow.ExecutorFacts

/-! # Executor moves

What one move inside a step can do: the calls it may make, the program point it goes to and the
state it leaves. The blocks of the executor are read once, here. -/
namespace Executor

open OrderedMap Json CatalogueTypes ProtocolError WorkflowTypes RequestTypes WorkflowContext
  Resolve Assemble ReviewPlan RunInputs

variable {σ : Type} (env : Setup σ)

def MayCall (step : CompiledStep) (s : RunState σ) : FrontendCall → Prop
  | .event (.progress _ _) => True
  | .event _ => False
  | .reviewStep _ => takeReviewPath env step s.runMode = true
  | .gatherWorkflowInputs needed asked =>
    asked = step ∧ needed = computeNeededInputs step s.supplied env.compiled.inputs ∧ needed ≠ []
  | .confirmStep asked =>
    asked = step ∧ (step.confirm && !env.options.assumeYes && !env.options.dryRun) = true
  | .resolveStepFailure asked _ _ => asked = step ∧ env.options.noInput = false
  | .presentBriefing | .collectWorkflowInputs _ => False

def MayCallAll (step : CompiledStep) (s : RunState σ) (calls : List FrontendCall) : Prop :=
  ∀ call ∈ calls, MayCall env step s call

/-- The captures of every step but `stepId` are the same. -/
def SameElsewhere (stepId : String) (ctx ctx' : Context) : Prop :=
  ∀ other ≠ stepId, ∀ o, ctx'.resolveStepReference other o = ctx.resolveStepReference other o

/-- What the confirmation prompt answers, when it is reached. -/
def confirmAnswer? (step : CompiledStep) (request : CommandRequest) (s : RunState σ) :
    Option (Except RuntimeError StepConfirmOutcome) :=
  let (preview, hostState) := env.host.previewCommand request s.hostState
  match preview with
  | .error _ => none
  | .ok command =>
    some (env.host.confirmStep step (buildStepPreview env step command) hostState).1

/-- A failure the step tolerates: it is skipped without asking. -/
def tolerates (step : CompiledStep) (error : RuntimeError) : Bool :=
  step.continueOnFailure || (step.skipIfExists && isConflict error)

/-- The states in which the executor calls `skip_step`. -/
def SkipChosen (step : CompiledStep) (s : RunState σ) : StepPoint → Prop
  | .collecting schema => takeReviewPath env step s.runMode = true ∧ step.isOptional = true ∧
      ∃ plan h, resolveStepFields step s.ctx s.supplied .empty env.compiled.inputs schema
        env.defaultAdded = .ok plan ∧
        shouldPauseForReview s.runMode true true (step.isOptional && !step.confirm) plan = true ∧
        env.host.reviewStep plan s.hostState = (.ok .skip, h)
  | .confirming request => step.isOptional = true ∧
      (step.confirm && !env.options.assumeYes && !env.options.dryRun) = true ∧
      confirmAnswer? env step request s = some (.ok .skip)
  | .failing _ error _ _ => tolerates step error = true ∨
      (tolerates step error = false ∧ env.options.noInput = false ∧ isSafelySkippable step = true ∧
        ∃ h, env.host.resolveStepFailure step error (isSafelySkippable step) s.hostState =
          (.ok .skip, h))
  | _ => False

/-- The ways out of a started step by an error that is not about a skip. -/
def Broken (step : CompiledStep) (s : RunState σ) : StepPoint → Prop
  | .entered => step.kind = .local ∧
      ∀ action, step.action = some action → (LocalActions.lookup action).isNone
  | .loading => step.operation = none
  | .collecting schema => takeReviewPath env step s.runMode = true ∧
      ∃ e, resolveStepFields step s.ctx s.supplied .empty env.compiled.inputs schema
        env.defaultAdded = .error e
  | .failing _ error _ _ => tolerates step error = false ∧ env.options.noInput = false ∧
      ∃ e h, env.host.resolveStepFailure step error (isSafelySkippable step) s.hostState =
        (.error e, h)
  | _ => False

/-- The states in which `execute` leaves a started step by returning an error. -/
def Fault (step : CompiledStep) (s : RunState σ) (point : StepPoint) : Prop :=
  Broken env step s point ∨ (SkipChosen env step s point ∧ ¬isSafelySkippable step)

inductive StepMove (step : CompiledStep) (rest : List CompiledStep) :
    StepPoint → RunState σ → Config σ → Prop
  | load {s} (hkind : step.kind = .api) :
      StepMove step rest .entered s ⟨.inStep step rest .loading, s⟩
  | ready {s action inputs} (hkind : step.kind = .local) (hin : localInputs step s = .ok inputs)
      (hlive : env.options.dryRun = false) :
      StepMove step rest .entered s ⟨.inStep step rest (.attempting (.local action inputs) 0), s⟩
  | previewedLocal {s action inputs produced preview calls h} (hcalls : MayCallAll env step s calls)
      (hkind : step.kind = .local) (haction : step.action = some action)
      (hin : localInputs step s = .ok inputs) (hdry : env.options.dryRun = true)
      (hanswer : (env.host.runLocal action inputs true s.hostState).2.1 = .ok produced)
      (hstep : preview.stepId = step.id)
      (hshown : preview.synthesisedOutputs =
        boundOutputs (dryRunContext step produced s.ctx) step) :
      StepMove step rest .entered s ⟨.stepLoop rest, finishStepTerminal env
        { s.heard calls h with
          previews := s.previews ++ [preview]
          ctx := (dryRunContext step produced s.ctx).injectStepCapturesForDryRun step.id
            (nullOutputs step) }
        step 1 ⟨.success, s!"{step.id} dry-run", none, none⟩⟩
  | loaded {s schema h} : StepMove step rest .loading s
      ⟨.inStep step rest (.collecting schema), s.heard [] h⟩
  | unpaused {s schema} (hreview : takeReviewPath env step s.runMode) :
      StepMove step rest (.collecting schema) s ⟨.inStep step rest (.assembling schema .empty), s⟩
  | unasked {s schema} (hgather : ¬takeReviewPath env step s.runMode)
      (hneeded : computeNeededInputs step s.supplied env.compiled.inputs = []) :
      StepMove step rest (.collecting schema) s ⟨.inStep step rest (.assembling schema .empty), s⟩
  | reviewed {s schema plan edits h} (hreview : takeReviewPath env step s.runMode) :
      StepMove step rest (.collecting schema) s
        ⟨.inStep step rest (.assembling schema (applyStepReviewEdits plan edits .empty)),
          s.heard [.reviewStep plan] h⟩
  | gathered {s schema needed result h} (hgather : ¬takeReviewPath env step s.runMode)
      (hneeded : needed = computeNeededInputs step s.supplied env.compiled.inputs)
      (hne : needed ≠ [])
      (hanswer : (env.host.gatherWorkflowInputs needed step (buildSuppliedViews env.compiled
        s.supplied env.flagNames env.defaultAdded) s.hostState).1 = .ok result) :
      StepMove step rest (.collecting schema) s
        ⟨.inStep step rest
            (.assembling schema (applyGathered needed result s.supplied .empty).stepLocal),
          { s.heard [.gatherWorkflowInputs needed step] h with
            supplied := (applyGathered needed result s.supplied .empty).supplied }⟩
  | assembled {s schema stepLocal request} : StepMove step rest (.assembling schema stepLocal) s
      ⟨.inStep step rest (.confirming request), s⟩
  | confirmed {s request calls h} (hcalls : MayCallAll env step s calls) :
      StepMove step rest (.confirming request) s
        ⟨.inStep step rest (dispatchPoint env request), s.heard calls h⟩
  | synthesised {s request outputs preview h} (hstep : preview.stepId = step.id)
      (hshown : preview.synthesisedOutputs = outputs) :
      StepMove step rest (.previewing request) s
        ⟨.inStep step rest (.concluding 1 ⟨.success, s!"{step.id} dry-run", none, none⟩),
          { s.heard [] h with
            ctx := s.ctx.injectStepCapturesForDryRun step.id outputs
            previews := s.previews ++ [preview] }⟩
  | unpreviewed {s request ctx error h} (hsame : SameElsewhere step.id s.ctx ctx) :
      StepMove step rest (.previewing request) s
        (concludeFailed step rest 1 .preview error { s.heard [] h with ctx })
  | captured {s attempt attempts attempts' calls h} {stored : Context} (hcalls : MayCallAll env step s calls)
      (hsame : stored.captures = s.ctx.captures)
      (hbound : (stored.bindStepOutputs step.id step.outputs (stored.stepBodyJson step.id)).2 =
        .ok ()) :
      StepMove step rest (.attempting attempt attempts) s
        ⟨.inStep step rest (.concluding attempts' ⟨.success, s!"{step.id} ok", none, none⟩),
          { s.heard calls h with
            ctx := (stored.bindStepOutputs step.id step.outputs
              (stored.stepBodyJson step.id)).1 }⟩
  | written {s request attempts attempts' output calls h} (hcalls : MayCallAll env step s calls)
      (hanswer : (env.host.runCommand request s.hostState).2.1 = .ok (.binaryWritten output)) :
      StepMove step rest (.attempting (.api request) attempts) s
        ⟨.inStep step rest (.concluding attempts' ⟨.success, s!"{step.id} ok", none, none⟩),
          { s.heard calls h with ctx := s.ctx.storeBinaryOutput step.id output }⟩
  | missed {s attempt attempts attempts' error stage ctx calls h}
      (hcalls : MayCallAll env step s calls) (hsame : SameElsewhere step.id s.ctx ctx) :
      StepMove step rest (.attempting attempt attempts) s
        ⟨.inStep step rest (.failing attempt error stage attempts'), { s.heard calls h with ctx }⟩
  | retried {s attempt error stage attempts h} (hinteractive : env.options.noInput = false) :
      StepMove step rest (.failing attempt error stage attempts) s
        ⟨.inStep step rest (.attempting attempt attempts),
          s.heard [.resolveStepFailure step error (isSafelySkippable step)] h⟩
  | ruled {s attempt error stage attempts reason calls h} (hcalls : MayCallAll env step s calls) :
      StepMove step rest (.failing attempt error stage attempts) s
        (concludeFailed step rest attempts reason error (s.heard calls h))
  | concluded {s attempts verdict} : StepMove step rest (.concluding attempts verdict) s
      (concludeStep env step rest attempts verdict s)
  | failed {point s reason error facts calls h} (hcalls : MayCallAll env step s calls) :
      StepMove step rest point s (failStep env (s.heard calls h) step reason error facts)
  | cancelled {point s reason calls h} (hcalls : MayCallAll env step s calls) :
      StepMove step rest point s (cancelStep env (s.heard calls h) step reason)
  | skipped {point s attempts summary reason error calls h} (hcalls : MayCallAll env step s calls)
      (hchosen : SkipChosen env step s point) (hsafe : isSafelySkippable step) :
      StepMove step rest point s ⟨.stepLoop rest, finishStepTerminal env
        { s.heard calls h with
          ctx := (s.ctx.bindSkippedOutputs step.id step.outputs).1 }
        step attempts ⟨.skipped, summary, some reason, error⟩⟩
  | raised {point s ctx calls h error} (hcalls : MayCallAll env step s calls)
      (hsame : SameElsewhere step.id s.ctx ctx) (hfault : Fault env step s point) :
      StepMove step rest point s ⟨.raised error, { s.heard calls h with ctx }⟩

/-- The step counters of the run facts: started, succeeded, failed, skipped, cancelled. -/
def stepCounts (facts : RunFacts) : Nat × Nat × Nat × Nat × Nat :=
  (facts.stepsStarted, facts.stepsSucceeded, facts.stepsFailed, facts.stepsSkipped,
    facts.stepsCancelled)

/-- The run goes on with what the run-start form returned. -/
def FormAnswered (s s' : RunState σ) : Prop :=
  ∃ chosen, s'.runMode = chosen.runMode ∧
    s'.supplied = replaceInputs env.compiled.inputs s.supplied chosen.inputs ∧
    (env.host.collectWorkflowInputs (gatherInputsForSurface env.compiled.inputs
      env.compiled.steps env.options.pickersAvailable) s.supplied s.hostState).1 =
        .ok (some chosen)

/-- Without `review_steps` there is no run-start form. -/
def FormSkipped (s s' : RunState σ) : Prop :=
  env.options.reviewSteps = false → s'.supplied = s.supplied ∧ s'.runMode = s.runMode

inductive Move : Config σ → Config σ → Prop
  | rejected {s error} : Move ⟨.opening, s⟩ ⟨.raised error, s⟩
  | opened {s} (hclean : env.options.noInput = true → noInputPrecheck env.compiled s.supplied
        env.options.dryRun env.options.assumeYes = []) :
      Move ⟨.opening, s⟩ ⟨.briefing, s.emit env (.workflowStarted env.compiled)⟩
  | briefed {s outcome calls h facts pendingError} (hcalls : ∀ c ∈ calls, c = .presentBriefing)
      (hfacts : stepCounts facts = stepCounts s.facts) :
      Move ⟨.briefing, s⟩ ⟨.inputGather outcome, { s.heard calls h with facts, pendingError }⟩
  | collected {s outcome s' calls} {phase : Phase}
      (hcalls : ∀ c ∈ calls, ∃ specs, c = .collectWorkflowInputs specs)
      (hlog : s'.log = s.log ++ calls) (hskipped : FormSkipped env s s') (hctx : s'.ctx = s.ctx)
      (hpreviews : s'.previews = s.previews) (hfacts : stepCounts s'.facts = stepCounts s.facts)
      (hphase : (phase = .stepLoop env.compiled.steps ∧
          (env.options.reviewSteps = true → FormAnswered env s s')) ∨
        ∃ outcome', phase = .finalising outcome') :
      Move ⟨.inputGather outcome, s⟩ ⟨phase, s'⟩
  | exhausted {s} : Move ⟨.stepLoop [], s⟩ ⟨.finalising .success, s⟩
  | started {s step rest} : Move ⟨.stepLoop (step :: rest), s⟩ (startStep env step rest s)
  | stepped {s step rest point d} (hmove : StepMove env step rest point s d) :
      Move ⟨.inStep step rest point, s⟩ d
  | finalised {s outcome} : Move ⟨.finalising outcome, s⟩ (finaliseRun env outcome s)
  | stayed {c} (hreturned : (returned? c.phase).isSome) : Move c c

inductive StepShape (step : CompiledStep) (rest : List CompiledStep) (point : StepPoint)
    (s : RunState σ) (d : Config σ) : Prop
  | stays (calls : List FrontendCall) (hcalls : MayCallAll env step s calls)
      (hlog : d.run.log = s.log ++ calls) (hcounts : stepCounts d.run.facts = stepCounts s.facts)
      (hphase : ∃ point', d.phase = .inStep step rest point')
  | closes (calls : List FrontendCall) (hcalls : MayCallAll env step s calls) (attempts : Nat)
      (verdict : Verdict)
      (hlog : d.run.log = s.log ++ calls ++ [.event (finishEvent step attempts verdict)])
      (hcounts : d.run.facts = tallyStepOutcome s.facts verdict.outcome)
      (hphase : d.phase = .stepLoop rest ∨ ∃ outcome, d.phase = .finalising outcome)
  | raises (calls : List FrontendCall) (hcalls : MayCallAll env step s calls)
      (hlog : d.run.log = s.log ++ calls) (hfault : Fault env step s point)
      (hphase : ∃ error, d.phase = .raised error)

def Phase.remaining : Phase → List CompiledStep
  | .stepLoop rest => rest
  | .inStep step rest _ => step :: rest
  | _ => []

section Inversion

variable {env} {step : CompiledStep} {rest : List CompiledStep} {s : RunState σ}

theorem mayCallAll_nil : MayCallAll env step s [] := by simp [MayCallAll]

theorem mayCallAll_singleton {call : FrontendCall} (h : MayCall env step s call) :
    MayCallAll env step s [call] := by
  intro c hc
  rw [List.mem_singleton.mp hc]
  exact h

theorem mayCallAll_progress (index : Nat) (events : List ProgressEvent) :
    MayCallAll env step s (RunState.progressCalls index events) := by
  intro call hcall
  obtain ⟨e, -, rfl⟩ := List.mem_map.mp hcall
  trivial

theorem SameElsewhere.refl (stepId : String) (ctx : Context) : SameElsewhere stepId ctx ctx :=
  fun _ _ _ => rfl

theorem sameElsewhere_bindWith {stepId : String} {ctx stored : Context}
    (h : stored.captures = ctx.captures) (captures : List StepOutputCapture)
    (resolve : StepOutputCapture → Except RuntimeError (Value × WorkflowOutputProvenance)) :
    SameElsewhere stepId ctx (stored.bindWith stepId captures resolve).1 := by
  intro other hne o
  rw [Context.resolveStepReference_bindWith_of_ne _ _ _ _ hne]
  simp only [Context.resolveStepReference, h]

theorem sameElsewhere_inject (stepId : String) (ctx : Context) (values : Values) :
    SameElsewhere stepId ctx (ctx.injectStepCapturesForDryRun stepId values) :=
  fun _ hne o => Context.resolveStepReference_inject_of_ne _ _ _ hne o

theorem isSafelySkippable_iff : isSafelySkippable step = true ↔
    (s.ctx.bindSkippedOutputs step.id step.outputs).2 = .ok () := by
  rw [Context.bindSkippedOutputs_ok_iff]
  simp [isSafelySkippable]

/-- A skip either finishes the step with its defaults bound or is a fault of the program point. -/
theorem move_skipStep {point : StepPoint} {calls : List FrontendCall} {h : σ}
    {reason : StepOutcomeReason} {tail : Option String} {attempts : Nat}
    {error : Option StepErrorFacts} (hcalls : MayCallAll env step s calls)
    (hchosen : SkipChosen env step s point) :
    StepMove env step rest point s
      (skipStep env (s.heard calls h) step rest reason tail attempts error) := by
  unfold skipStep
  cases hbound : (s.ctx.bindSkippedOutputs step.id step.outputs).2 with
  | ok u =>
    have hsafe : isSafelySkippable step = true := (isSafelySkippable_iff (s := s)).mpr hbound
    simp only [RunState.heard_ctx, hbound]
    exact .skipped hcalls hchosen hsafe
  | error e =>
    have hnodefault : ¬isSafelySkippable step := by
      rw [isSafelySkippable_iff (s := s), hbound]
      simp
    simp only [RunState.heard_ctx, hbound]
    exact .raised hcalls (sameElsewhere_bindWith rfl _ _) (Or.inr ⟨hchosen, hnodefault⟩)

theorem StepMove.raised_here {point : StepPoint} {error : RuntimeError}
    (hfault : Fault env step s point) : StepMove env step rest point s ⟨.raised error, s⟩ := by
  have h : StepMove env step rest point s
      ⟨.raised error, { s.heard [] s.hostState with ctx := s.ctx }⟩ :=
    .raised mayCallAll_nil (.refl _ _) hfault
  rwa [RunState.heard_nil] at h

/-- A step fails after the host was asked for something that is not a frontend call. -/
theorem StepMove.failed_quietly {point : StepPoint} {reason : StepOutcomeReason}
    {error : RuntimeError} {facts : Option StepErrorFacts} (h : σ) :
    StepMove env step rest point s
      (failStep env { s with hostState := h } step reason error facts) := by
  rw [RunState.heard_host]
  exact .failed mayCallAll_nil

theorem sameElsewhere_dryRunContext (produced : Value) (ctx : Context) :
    SameElsewhere step.id ctx (dryRunContext step produced ctx) :=
  sameElsewhere_bindWith rfl _ _

theorem move_previewLocal {action : String} {inputs : Values} (hkind : step.kind = .local)
    (haction : step.action = some action) (hin : localInputs step s = .ok inputs)
    (hdry : env.options.dryRun = true) :
    StepMove env step rest .entered s (previewLocal env step rest action inputs s) := by
  unfold previewLocal
  rcases hrun : env.host.runLocal action inputs true s.hostState with ⟨events, answer, hostState⟩
  obtain ⟨h, hheard⟩ :=
    RunState.emitProgress_eq_heard env { s with hostState } step.index events
  have hcalls : MayCallAll env step s (RunState.progressCalls step.index events) :=
    mayCallAll_progress step.index events
  simp only [hheard]
  cases answer with
  | error e => exact .failed hcalls
  | ok produced =>
    exact .previewedLocal hcalls hkind haction hin hdry (by rw [hrun]) rfl rfl

theorem move_enterStep : StepMove env step rest .entered s (enterStep env step rest s) := by
  unfold enterStep
  cases hkind : step.kind with
  | api => exact .load hkind
  | «local» =>
    simp only [enterLocal]
    split
    · next haction => exact .raised_here (Or.inl ⟨hkind, by simp [haction]⟩)
    · next action haction =>
      split
      · next hlookup => exact .raised_here (Or.inl ⟨hkind, by simpa [haction] using hlookup⟩)
      · split
        · exact .failed_quietly s.hostState
        · next inputs hin =>
          split
          · next hdry => exact move_previewLocal hkind haction hin hdry
          · next hlive => exact .ready hkind hin (by simpa using hlive)

theorem move_loadSchema : StepMove env step rest .loading s (loadSchema env step rest s) := by
  unfold loadSchema
  split
  · next hop => exact .raised_here (Or.inl hop)
  · next opRef hop =>
    rcases env.host.getOrLoad opRef.service s.hostState with ⟨answer, hostState⟩
    simp only [RunState.heard_host]
    cases answer with
    | error e => exact .failed mayCallAll_nil
    | ok schema => exact .loaded

theorem move_reviewStep {schema : ServiceSchema} (hreview : takeReviewPath env step s.runMode) :
    StepMove env step rest (.collecting schema) s (reviewStep env step rest schema s) := by
  unfold reviewStep
  split
  · next e hplan => exact .raised_here (Or.inl ⟨hreview, e, hplan⟩)
  · next plan hplan =>
    split
    · exact .unpaused hreview
    · next hpause =>
      rcases hasked : env.host.reviewStep plan s.hostState with ⟨answer, hostState⟩
      have hcalls : MayCallAll env step s [.reviewStep plan] := mayCallAll_singleton hreview
      simp only [RunState.called_eq_heard]
      rcases answer with e | outcome
      · exact .failed hcalls
      · cases outcome with
        | proceed edits => exact .reviewed hreview
        | cancel => exact .cancelled hcalls
        | skip =>
          simp only
          split
          · next hoptional =>
            exact move_skipStep hcalls
              ⟨hreview, hoptional, plan, hostState, hplan, by simpa using hpause, hasked⟩
          · exact .failed hcalls

theorem move_gatherStep {schema : ServiceSchema} (hgather : ¬takeReviewPath env step s.runMode) :
    StepMove env step rest (.collecting schema) s (gatherStep env step rest schema s) := by
  unfold gatherStep
  extract_lets needed
  split
  · next hempty => exact .unasked hgather (List.isEmpty_iff.mp hempty)
  · next hempty =>
    have hne : needed ≠ [] := fun h => hempty (List.isEmpty_iff.mpr h)
    rcases hasked : env.host.gatherWorkflowInputs needed step (buildSuppliedViews env.compiled
      s.supplied env.flagNames env.defaultAdded) s.hostState with ⟨answer, hostState⟩
    simp only [RunState.called_eq_heard]
    cases answer with
    | error e =>
      have hcall : MayCall env step s (.gatherWorkflowInputs needed step) := ⟨rfl, rfl, hne⟩
      exact .failed (mayCallAll_singleton hcall)
    | ok result => exact .gathered hgather rfl hne (by rw [hasked])

theorem move_collectStep {schema : ServiceSchema} :
    StepMove env step rest (.collecting schema) s (collectStep env step rest schema s) := by
  unfold collectStep
  split
  · next hreview => exact move_reviewStep hreview
  · next hgather => exact move_gatherStep hgather

theorem move_assembleStep {schema : ServiceSchema} {stepLocal : Values} :
    StepMove env step rest (.assembling schema stepLocal) s
      (assembleStep env step rest schema stepLocal s) := by
  unfold assembleStep
  split
  · exact .failed_quietly s.hostState
  · exact .assembled

theorem move_askConfirmation {request : CommandRequest} {command : CommandPreview} {h : σ}
    (hasks : (step.confirm && !env.options.assumeYes && !env.options.dryRun) = true)
    (hpreview : env.host.previewCommand request s.hostState = (.ok command, h)) :
    StepMove env step rest (.confirming request) s
      (askConfirmation env step rest request command (s.heard [] h)) := by
  unfold askConfirmation
  rcases hasked : env.host.confirmStep step (buildStepPreview env step command)
    (s.heard [] h).hostState with ⟨answer, hostState⟩
  have hcalls : MayCallAll env step s [.confirmStep step] := mayCallAll_singleton ⟨rfl, hasks⟩
  simp only [RunState.heard_called, List.nil_append]
  rcases answer with e | outcome
  · exact .failed hcalls
  · cases outcome with
    | proceed => exact .confirmed hcalls
    | cancel => exact .cancelled hcalls
    | skip =>
      simp only
      split
      · next hoptional =>
        refine move_skipStep hcalls ⟨hoptional, hasks, ?_⟩
        simp only [confirmAnswer?, hpreview]
        exact congrArg (some ∘ Prod.fst) hasked
      · exact .failed hcalls

theorem move_confirmStep {request : CommandRequest} :
    StepMove env step rest (.confirming request) s (confirmStep env step rest request s) := by
  unfold confirmStep
  split
  · have h : StepMove env step rest (.confirming request) s
        ⟨.inStep step rest (dispatchPoint env request), s.heard [] s.hostState⟩ :=
      .confirmed mayCallAll_nil
    rwa [RunState.heard_nil] at h
  · next hasks =>
    rcases hpreview : env.host.previewCommand request s.hostState with ⟨preview, hostState⟩
    simp only [RunState.heard_host]
    cases preview with
    | error e => exact .failed mayCallAll_nil
    | ok command => exact move_askConfirmation (by simpa using hasks) hpreview

theorem move_previewRequest {request : CommandRequest} {outputs : Values} {h : σ} :
    StepMove env step rest (.previewing request) s
      (previewRequest env step rest request outputs { s with hostState := h }) := by
  unfold previewRequest
  extract_lets injected
  rcases env.host.dryRunCommand request injected.hostState with ⟨answer, hostState⟩
  have hinjected : injected =
      { s.heard [] h with ctx := s.ctx.injectStepCapturesForDryRun step.id outputs } := by
    simp [injected, RunState.heard]
  clear_value injected
  subst hinjected
  cases answer with
  | error e => exact .unpreviewed (sameElsewhere_inject _ _ _)
  | ok command => exact .synthesised rfl rfl

theorem move_previewStep {request : CommandRequest} :
    StepMove env step rest (.previewing request) s (previewStep env step rest request s) := by
  unfold previewStep
  rcases synthesise env step s with ⟨synthesised, hostState⟩
  cases synthesised with
  | error e =>
    simp only [RunState.heard_host]
    exact .unpreviewed (.refl _ _)
  | ok outputs => exact move_previewRequest

/-- A successful attempt's outputs are bound, or the attempt joins the failing ones. -/
theorem move_captureOutputs {attempt : Attempt} {attempts attempts' : Nat} {stored : Context}
    {calls : List FrontendCall} {h : σ} (hcalls : MayCallAll env step s calls)
    (hsame : stored.captures = s.ctx.captures) :
    StepMove env step rest (.attempting attempt attempts) s
      (captureOutputs step rest attempt attempts' stored (s.heard calls h)) := by
  unfold captureOutputs
  extract_lets bound s'
  split
  · next hbound => exact .captured hcalls hsame hbound
  · exact .missed hcalls (sameElsewhere_bindWith hsame _ _)

theorem move_dispatchApi {request : CommandRequest} {attempts attempts' : Nat} :
    StepMove env step rest (.attempting (.api request) attempts) s
      (dispatchApi env step rest request attempts' s) := by
  unfold dispatchApi
  rcases hrun : env.host.runCommand request s.hostState with ⟨events, answer, hostState⟩
  obtain ⟨h, hheard⟩ :=
    RunState.emitProgress_eq_heard env { s with hostState } step.index events
  have hcalls : MayCallAll env step s (RunState.progressCalls step.index events) :=
    mayCallAll_progress step.index events
  simp only [hheard]
  rcases answer with e | output
  · exact .missed hcalls (.refl _ _)
  · cases output with
    | service output => exact move_captureOutputs hcalls rfl
    | binaryWritten output => exact .written hcalls (by rw [hrun])
    | other discriminant => exact .missed hcalls (.refl _ _)

theorem move_runLocalAction {action : String} {inputs : Values} {attempts attempts' : Nat} :
    StepMove env step rest (.attempting (.local action inputs) attempts) s
      (runLocalAction env step rest action inputs attempts' s) := by
  unfold runLocalAction
  rcases env.host.runLocal action inputs false s.hostState with ⟨events, answer, hostState⟩
  obtain ⟨h, hheard⟩ :=
    RunState.emitProgress_eq_heard env { s with hostState } step.index events
  have hcalls : MayCallAll env step s (RunState.progressCalls step.index events) :=
    mayCallAll_progress step.index events
  simp only [hheard]
  cases answer with
  | error e => exact .missed hcalls (.refl _ _)
  | ok body => exact move_captureOutputs hcalls rfl

theorem move_attemptStep {attempt : Attempt} {attempts : Nat} :
    StepMove env step rest (.attempting attempt attempts) s
      (attemptStep env step rest attempt attempts s) := by
  cases attempt with
  | api request => exact move_dispatchApi
  | «local» action inputs => exact move_runLocalAction

theorem move_toleratedFailure {attempt : Attempt} {error : RuntimeError}
    {stage reason : StepOutcomeReason} {tail : Option String} {attempts : Nat}
    (htolerated : tolerates step error = true) :
    StepMove env step rest (.failing attempt error stage attempts) s
      (skipStep env s step rest reason tail attempts (some (.fromError error))) := by
  have hmove : StepMove env step rest (.failing attempt error stage attempts) s
      (skipStep env (s.heard [] s.hostState) step rest reason tail attempts
        (some (.fromError error))) := move_skipStep mayCallAll_nil (Or.inl htolerated)
  rwa [RunState.heard_nil] at hmove

theorem move_passFailureGate {attempt : Attempt} {error : RuntimeError}
    {stage : StepOutcomeReason} {attempts : Nat} :
    StepMove env step rest (.failing attempt error stage attempts) s
      (passFailureGate env step rest attempt error stage attempts s) := by
  unfold passFailureGate decideStepFailure
  by_cases hcontinue : step.continueOnFailure = true
  · simp only [if_pos hcontinue]
    exact move_toleratedFailure (by simp [tolerates, hcontinue])
  · by_cases hexists : (step.skipIfExists && isConflict error) = true
    · simp only [if_neg hcontinue, if_pos hexists]
      exact move_toleratedFailure (by rw [tolerates, hexists, Bool.or_true])
    · have htolerated : tolerates step error = false := by
        rw [tolerates, Bool.or_eq_false_iff]
        exact ⟨by simpa using hcontinue, by simpa only [Bool.not_eq_true] using hexists⟩
      simp only [if_neg hcontinue, if_neg hexists]
      by_cases hnoInput : env.options.noInput = true
      · simp only [if_pos hnoInput]
        have hmove : StepMove env step rest (.failing attempt error stage attempts) s
            (concludeFailed step rest attempts stage error (s.heard [] s.hostState)) :=
          .ruled mayCallAll_nil
        rwa [RunState.heard_nil] at hmove
      · have hinteractive : env.options.noInput = false := by simpa using hnoInput
        have hcall : MayCall env step s
            (.resolveStepFailure step error (isSafelySkippable step)) := ⟨rfl, hinteractive⟩
        rcases hasked : env.host.resolveStepFailure step error (isSafelySkippable step)
          s.hostState with ⟨answer, hostState⟩
        have hgate : askFailureGate env step error s = (answer.map (dispositionOf step),
            s.heard [.resolveStepFailure step error (isSafelySkippable step)] hostState) := by
          simp only [askFailureGate, hasked, RunState.called_eq_heard]
        simp only [if_neg hnoInput, hgate]
        rcases answer with e | action
        · exact .raised (mayCallAll_singleton hcall) (.refl _ _)
            (Or.inl ⟨htolerated, hinteractive, e, hostState, hasked⟩)
        · cases action with
          | retry => exact .retried hinteractive
          | cancel => exact .ruled (mayCallAll_singleton hcall)
          | skip =>
            by_cases hsafe : isSafelySkippable step = true
            · simp only [Except.map, dispositionOf, if_pos hsafe]
              exact move_skipStep (mayCallAll_singleton hcall)
                (Or.inr ⟨htolerated, hinteractive, hsafe, hostState, hasked⟩)
            · simp only [Except.map, dispositionOf, if_neg hsafe]
              exact .ruled (mayCallAll_singleton hcall)

theorem stepMove_advanceStep (env : Setup σ) (step : CompiledStep) (rest : List CompiledStep)
    (s : RunState σ) (point : StepPoint) :
    StepMove env step rest point s (advanceStep env step rest s point) := by
  cases point with
  | entered => exact move_enterStep
  | loading => exact move_loadSchema
  | collecting schema => exact move_collectStep
  | assembling schema stepLocal => exact move_assembleStep
  | confirming request => exact move_confirmStep
  | previewing request => exact move_previewStep
  | attempting attempt attempts => exact move_attemptStep
  | failing attempt error stage attempts => exact move_passFailureGate
  | concluding attempts verdict => exact .concluded

theorem move_openRun : Move env ⟨.opening, s⟩ (openRun env s) := by
  unfold openRun
  extract_lets violations
  split
  · exact .rejected
  · next hpass =>
    refine .opened fun hnoInput => ?_
    simpa [hnoInput, violations] using hpass

theorem move_presentBriefing : Move env ⟨.briefing, s⟩ (presentBriefing env s) := by
  have hquiet (outcome : RunOutcome) : Move env ⟨.briefing, s⟩ ⟨.inputGather outcome, s⟩ := by
    have h : Move env ⟨.briefing, s⟩ ⟨.inputGather outcome,
        { s.heard [] s.hostState with facts := s.facts, pendingError := s.pendingError }⟩ :=
      .briefed (by simp) rfl
    rwa [RunState.heard_nil] at h
  unfold presentBriefing
  split
  · exact hquiet _
  · next briefing _ =>
    split
    · exact hquiet _
    · rcases env.host.presentBriefing briefing env.compiled.name s.hostState with
        ⟨answer, hostState⟩
      rcases answer with e | accepted
      · exact .briefed (by simp) rfl
      · cases accepted with
        | true => exact .briefed (by simp) rfl
        | false => exact .briefed (by simp) rfl

theorem stepCounts_countProvenance (env : Setup σ) (supplied : Values) (specs : List WorkflowInputSpec)
    (facts : RunFacts) :
    stepCounts (specs.foldl (countProvenance env supplied) facts) = stepCounts facts := by
  induction specs generalizing facts with
  | nil => rfl
  | cons spec rest ih =>
    rw [List.foldl_cons, ih]
    unfold countProvenance
    split
    · rfl
    · split_ifs <;> rfl

/-- What the run-start form changes: its call, and the inputs and pace of an answered form. -/
theorem collectInputs_spec (env : Setup σ) (s : RunState σ) (outcome : RunOutcome) :
    ∃ calls, (∀ c ∈ calls, ∃ specs, c = FrontendCall.collectWorkflowInputs specs) ∧
      (collectInputs env outcome s).2.log = s.log ++ calls ∧
      FormSkipped env s (collectInputs env outcome s).2 ∧
      (collectInputs env outcome s).2.ctx = s.ctx ∧
      (collectInputs env outcome s).2.previews = s.previews ∧
      stepCounts (collectInputs env outcome s).2.facts = stepCounts s.facts ∧
      ((collectInputs env outcome s).1 = .success → env.options.reviewSteps = true →
        FormAnswered env s (collectInputs env outcome s).2) := by
  unfold collectInputs
  split
  · next hform =>
    have hreview : env.options.reviewSteps = true := by simp_all
    have hskipped (s' : RunState σ) : FormSkipped env s s' := by
      intro hnone
      rw [hreview] at hnone
      cases hnone
    extract_lets specs
    rcases hasked : env.host.collectWorkflowInputs specs s.supplied s.hostState with
      ⟨answer, hostState⟩
    refine ⟨[.collectWorkflowInputs specs], by simp, ?_⟩
    rcases answer with e | chosen
    · exact ⟨rfl, hskipped _, rfl, rfl, rfl, fun h => by cases h⟩
    · cases chosen with
      | none => exact ⟨rfl, hskipped _, rfl, rfl, rfl, fun h => by cases h⟩
      | some chosen =>
        exact ⟨rfl, hskipped _, rfl, rfl, rfl, fun _ _ =>
          ⟨chosen, rfl, rfl, congrArg Prod.fst hasked⟩⟩
  · next hform =>
    refine ⟨[], by simp, by simp, fun _ => ⟨rfl, rfl⟩, rfl, rfl, rfl, fun hsuccess hreview => ?_⟩
    exact absurd (by simpa [hreview] using hsuccess) hform

theorem move_gatherRunInputs (outcome : RunOutcome) :
    Move env ⟨.inputGather outcome, s⟩ (gatherRunInputs env outcome s) := by
  obtain ⟨calls, hcalls, hlog, hskipped, hctx, hpreviews, hfacts, hanswered⟩ :=
    collectInputs_spec env s outcome
  have hcounts (supplied : Values) (facts : RunFacts) :=
    stepCounts_countProvenance env supplied env.compiled.inputs facts
  unfold gatherRunInputs
  rcases hcollect : collectInputs env outcome s with ⟨outcome', s'⟩
  simp only [hcollect] at hlog hskipped hctx hpreviews hfacts hanswered
  simp only
  split
  · next hsuccess =>
    exact .collected hcalls hlog hskipped hctx hpreviews (by rw [hcounts, hfacts])
      (Or.inl ⟨rfl, hanswered hsuccess⟩)
  · exact .collected hcalls hlog hskipped hctx hpreviews (by rw [hcounts, hfacts])
      (Or.inr ⟨outcome', rfl⟩)

theorem move_of_step {c d : Config σ} (h : Step env c d) : Move env c d := by
  subst h
  obtain ⟨phase, s⟩ := c
  cases phase with
  | opening => exact move_openRun
  | briefing => exact move_presentBriefing
  | inputGather outcome => exact move_gatherRunInputs outcome
  | stepLoop steps =>
    cases steps with
    | nil => exact .exhausted
    | cons step rest => exact .started
  | inStep step rest point => exact .stepped (stepMove_advanceStep env step rest s point)
  | finalising outcome => exact .finalised
  | finished outcome output pendingError => exact .stayed rfl
  | raised error => exact .stayed rfl

theorem StepMove.shape {point : StepPoint} {d : Config σ}
    (h : StepMove env step rest point s d) : StepShape env step rest point s d := by
  have hstays {d : Config σ} {point' : StepPoint} (hphase : d.phase = .inStep step rest point')
      (hlog : d.run.log = s.log) (hcounts : stepCounts d.run.facts = stepCounts s.facts) :
      StepShape env step rest point s d :=
    .stays [] mayCallAll_nil (by simpa using hlog) hcounts ⟨point', hphase⟩
  cases h with
  | load => exact hstays rfl rfl rfl
  | ready => exact hstays rfl rfl rfl
  | previewedLocal hcalls => exact .closes _ hcalls _ _ rfl rfl (Or.inl rfl)
  | loaded => exact hstays rfl (by simp) rfl
  | unpaused => exact hstays rfl rfl rfl
  | unasked => exact hstays rfl rfl rfl
  | @reviewed s schema plan edits h hreview =>
    have hcall : MayCall env step s (.reviewStep plan) := hreview
    exact .stays _ (mayCallAll_singleton hcall) rfl rfl ⟨_, rfl⟩
  | @gathered s schema needed result h hgather hneeded hne =>
    have hcall : MayCall env step s (.gatherWorkflowInputs needed step) := ⟨rfl, hneeded, hne⟩
    exact .stays _ (mayCallAll_singleton hcall) rfl rfl ⟨_, rfl⟩
  | assembled => exact hstays rfl rfl rfl
  | confirmed hcalls => exact .stays _ hcalls rfl rfl ⟨_, rfl⟩
  | synthesised => exact hstays rfl (by simp) rfl
  | unpreviewed => exact hstays rfl (by simp [concludeFailed]) rfl
  | captured hcalls => exact .stays _ hcalls rfl rfl ⟨_, rfl⟩
  | written hcalls => exact .stays _ hcalls rfl rfl ⟨_, rfl⟩
  | missed hcalls => exact .stays _ hcalls rfl rfl ⟨_, rfl⟩
  | @retried s attempt error stage attempts h hinteractive =>
    have hcall : MayCall env step s
        (.resolveStepFailure step error (isSafelySkippable step)) := ⟨rfl, hinteractive⟩
    exact .stays _ (mayCallAll_singleton hcall) rfl rfl ⟨_, rfl⟩
  | ruled hcalls => exact .stays _ hcalls rfl rfl ⟨_, rfl⟩
  | @concluded s attempts verdict =>
    refine .closes [] mayCallAll_nil attempts verdict ?_ ?_ ?_
    · unfold concludeStep; split <;> simp
    · unfold concludeStep; split <;> simp
    · unfold concludeStep
      split
      · exact Or.inr ⟨_, rfl⟩
      · exact Or.inl rfl
  | failed hcalls => exact .closes _ hcalls _ _ rfl rfl (Or.inr ⟨_, rfl⟩)
  | cancelled hcalls => exact .closes _ hcalls _ _ rfl rfl (Or.inr ⟨_, rfl⟩)
  | skipped hcalls => exact .closes _ hcalls _ _ rfl rfl (Or.inl rfl)
  | raised hcalls hsame hfault => exact .raises _ hcalls rfl hfault ⟨_, rfl⟩

theorem StepMove.phase_cases {point : StepPoint} {d : Config σ}
    (h : StepMove env step rest point s d) :
    (∃ point', d.phase = .inStep step rest point') ∨ d.phase = .stepLoop rest ∨
      (∃ outcome, d.phase = .finalising outcome) ∨ ∃ error, d.phase = .raised error := by
  cases h.shape with
  | stays _ _ _ _ hphase => exact Or.inl hphase
  | closes _ _ _ _ _ _ hphase =>
    rcases hphase with hphase | hphase
    · exact Or.inr (Or.inl hphase)
    · exact Or.inr (Or.inr (Or.inl hphase))
  | raises _ _ _ _ hphase => exact Or.inr (Or.inr (Or.inr hphase))

theorem StepMove.supplied_eq {point : StepPoint} {d : Config σ}
    (h : StepMove env step rest point s d)
    (hnone : computeNeededInputs step s.supplied env.compiled.inputs = []) :
    d.run.supplied = s.supplied := by
  cases h with
  | gathered hgather hneeded hne => exact absurd (hneeded.trans hnone) hne
  | concluded => unfold concludeStep; split <;> rfl
  | _ => rfl

theorem SameElsewhere.trans {stepId : String} {ctx ctx' ctx'' : Context}
    (h : SameElsewhere stepId ctx ctx') (h' : SameElsewhere stepId ctx' ctx'') :
    SameElsewhere stepId ctx ctx'' :=
  fun other hne o => (h' other hne o).trans (h other hne o)

theorem StepMove.same_elsewhere {point : StepPoint} {d : Config σ}
    (h : StepMove env step rest point s d) : SameElsewhere step.id s.ctx d.run.ctx := by
  cases h with
  | previewedLocal =>
    exact (sameElsewhere_dryRunContext _ _).trans (sameElsewhere_inject _ _ _)
  | synthesised => exact sameElsewhere_inject _ _ _
  | unpreviewed hsame => exact hsame
  | captured hcalls hsame => exact sameElsewhere_bindWith hsame _ _
  | missed hcalls hsame => exact hsame
  | concluded => unfold concludeStep; split <;> exact .refl _ _
  | skipped => exact sameElsewhere_bindWith rfl _ _
  | raised hcalls hsame => exact hsame
  | _ => exact .refl _ _

theorem StepMove.remaining_suffix {point : StepPoint} {d : Config σ}
    (h : StepMove env step rest point s d) : d.phase.remaining <:+ step :: rest := by
  rcases h.phase_cases with ⟨_, hphase⟩ | hphase | ⟨_, hphase⟩ | ⟨_, hphase⟩
  · simp [hphase, Phase.remaining]
  · simp [hphase, Phase.remaining]
  · simp [hphase, Phase.remaining]
  · simp [hphase, Phase.remaining]

theorem StepMove.log_grows {point : StepPoint} {d : Config σ}
    (h : StepMove env step rest point s d) : s.log <+: d.run.log := by
  cases h.shape with
  | stays calls _ hlog => exact ⟨calls, hlog.symm⟩
  | closes calls _ attempts verdict hlog => exact ⟨_, by rw [hlog, List.append_assoc]⟩
  | raises calls _ hlog => exact ⟨calls, hlog.symm⟩

theorem log_grows {c d : Config σ} (hstep : Step env c d) : c.run.log <+: d.run.log := by
  cases move_of_step hstep with
  | rejected => exact List.prefix_rfl
  | opened => exact ⟨_, rfl⟩
  | briefed => exact ⟨_, rfl⟩
  | collected _ hlog => exact ⟨_, hlog.symm⟩
  | exhausted => exact List.prefix_rfl
  | started => exact ⟨_, rfl⟩
  | stepped hmove => exact hmove.log_grows
  | finalised => exact ⟨_, rfl⟩
  | stayed => exact List.prefix_rfl

theorem remaining_step {c d : Config σ} (hstep : Step env c d)
    (h : c.phase.remaining <:+ env.compiled.steps) : d.phase.remaining <:+ env.compiled.steps := by
  cases move_of_step hstep with
  | rejected => simp [Phase.remaining]
  | opened => simp [Phase.remaining]
  | briefed => simp [Phase.remaining]
  | collected _ _ _ _ _ _ hphase =>
    rcases hphase with ⟨rfl, -⟩ | ⟨outcome, rfl⟩
    · simp [Phase.remaining]
    · simp [Phase.remaining]
  | exhausted => simp [Phase.remaining]
  | started => exact h
  | stepped hmove => exact hmove.remaining_suffix.trans h
  | finalised => simp [finaliseRun, Phase.remaining]
  | stayed => exact h

theorem remaining_suffix {c : Config σ} (h : Reachable env c) :
    c.phase.remaining <:+ env.compiled.steps := by
  obtain ⟨s, hruns⟩ := h
  have h0 : (Config.init env s).phase.remaining <:+ env.compiled.steps := by
    simp [Config.init, Phase.remaining]
  exact Runs.invariant_of_step (fun c => c.phase.remaining <:+ env.compiled.steps)
    (fun _ _ ha hab => remaining_step hab ha) hruns h0

end Inversion

end Executor
