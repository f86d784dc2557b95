import AgsCli.Workflow.ScriptedHost

/-! # Run lifecycle

The lifecycle events of a run: `WorkflowStarted`, one bracketed block for each step, then
`WorkflowFinished` with balanced counters. A fault inside a step leaves its block open. -/
namespace RunLifecycle

open OrderedMap Json CatalogueTypes ProtocolError WorkflowTypes RequestTypes Executor

/-- The lifecycle events of a log, without forwarded progress. -/
def lifecycleEvent? : FrontendCall → Option WorkflowEvent
  | .event (.progress _ _) => none
  | .event e => some e
  | _ => none

def lifecycle (log : List FrontendCall) : List WorkflowEvent := log.filterMap lifecycleEvent?

@[simp] theorem lifecycle_append (log calls : List FrontendCall) :
    lifecycle (log ++ calls) = lifecycle log ++ lifecycle calls := List.filterMap_append

/-- A step's bracket: its start and the verdict it finished with. -/
structure Block where
  step : CompiledStep
  attempts : Nat
  verdict : Verdict

def Block.events (b : Block) : List WorkflowEvent :=
  [.stepStarted b.step.index b.step.id, finishEvent b.step b.attempts b.verdict]

def startedStep (step : CompiledStep) : WorkflowEvent := .stepStarted step.index step.id

def blocksTrace (compiled : CompiledWorkflow) (blocks : List Block) : List WorkflowEvent :=
  .workflowStarted compiled :: blocks.flatMap Block.events

/-- Every started step is counted once by its outcome, apart from `running` of them. -/
def Balanced (facts : RunFacts) (running : Nat) : Prop :=
  facts.stepsStarted = facts.stepsSucceeded + facts.stepsFailed + facts.stepsSkipped +
    facts.stepsCancelled + running

def WellBracketed {σ : Type} (env : Setup σ) (c : Config σ) : Prop :=
  match c.phase with
  | .opening | .raised _ => c.run.log = [] ∧ c.run.facts = .zero
  | .briefing | .inputGather _ | .stepLoop _ | .finalising _ => Balanced c.run.facts 0 ∧
      ∃ blocks, lifecycle c.run.log = blocksTrace env.compiled blocks ∧
        c.run.facts.stepsStarted = blocks.length
  | .inStep step _ _ => Balanced c.run.facts 1 ∧
      ∃ blocks, lifecycle c.run.log = blocksTrace env.compiled blocks ++ [startedStep step] ∧
        c.run.facts.stepsStarted = blocks.length + 1
  | .finished outcome _ _ => ∃ before facts, Balanced facts 0 ∧
      c.run.log = before ++ [.event (.workflowFinished outcome facts)] ∧
      ∃ blocks, lifecycle before = blocksTrace env.compiled blocks ∧
        facts.stepsStarted = blocks.length

variable {σ : Type} {env : Setup σ}

/-- No fault strikes the step the run is in. -/
def Unfaulted (env : Setup σ) (c : Config σ) : Prop :=
  match c.phase with
  | .inStep step _ point => ¬Fault env step c.run point
  | _ => True

theorem lifecycle_mayCall {step : CompiledStep} {s : RunState σ} {calls : List FrontendCall}
    (h : MayCallAll env step s calls) : lifecycle calls = [] := by
  refine List.filterMap_eq_nil_iff.mpr fun call hcall => ?_
  have hmay := h call hcall
  cases call with
  | event e =>
    cases e with
    | progress index e => rfl
    | _ => exact hmay.elim
  | _ => rfl

theorem balanced_of_counts {facts facts' : RunFacts} {running : Nat}
    (h : stepCounts facts' = stepCounts facts) (hb : Balanced facts running) :
    Balanced facts' running := by
  simp only [stepCounts, Prod.mk.injEq] at h
  simp only [Balanced] at *
  omega

theorem started_of_counts {facts facts' : RunFacts}
    (h : stepCounts facts' = stepCounts facts) : facts'.stepsStarted = facts.stepsStarted := by
  simp only [stepCounts, Prod.mk.injEq] at h
  exact h.1

/-- The tally closes the running step's account. -/
theorem balanced_tally {facts : RunFacts} {running : Nat} (hb : Balanced facts (running + 1))
    (outcome : StepOutcome) : Balanced (tallyStepOutcome facts outcome) running := by
  cases outcome <;> simp only [Balanced, tallyStepOutcome] at * <;> omega

@[simp] theorem started_tally (facts : RunFacts) (outcome : StepOutcome) :
    (tallyStepOutcome facts outcome).stepsStarted = facts.stepsStarted := by
  cases outcome <;> rfl

theorem wellBracketed_stepMove {step : CompiledStep} {rest : List CompiledStep}
    {point : StepPoint} {s : RunState σ} {d : Config σ} (hmove : StepMove env step rest point s d)
    (hsound : ¬Fault env step s point) (h : WellBracketed env ⟨.inStep step rest point, s⟩) :
    WellBracketed env d := by
  obtain ⟨hbalanced, blocks, htrace, hcount⟩ := h
  cases hmove.shape with
  | stays calls hcalls hlog hcounts hphase =>
    obtain ⟨point', hphase⟩ := hphase
    simp only [WellBracketed, hphase]
    refine ⟨balanced_of_counts hcounts hbalanced, blocks, ?_, ?_⟩
    · rw [hlog, lifecycle_append, lifecycle_mayCall hcalls, List.append_nil, htrace]
    · rw [started_of_counts hcounts, hcount]
  | closes calls hcalls attempts verdict hlog hcounts hphase =>
    have hclosed : Balanced d.run.facts 0 ∧ ∃ blocks,
        lifecycle d.run.log = blocksTrace env.compiled blocks ∧
          d.run.facts.stepsStarted = blocks.length := by
      rw [hcounts]
      refine ⟨balanced_tally hbalanced _, blocks ++ [⟨step, attempts, verdict⟩], ?_, ?_⟩
      · rw [hlog, lifecycle_append, lifecycle_append, lifecycle_mayCall hcalls, htrace]
        simp [blocksTrace, Block.events, lifecycle, lifecycleEvent?, finishEvent, startedStep]
      · simpa using hcount
    rcases hphase with hphase | ⟨outcome, hphase⟩
    · simpa only [WellBracketed, hphase] using hclosed
    · simpa only [WellBracketed, hphase] using hclosed
  | raises calls hcalls hlog hfault hphase => exact absurd hfault hsound

theorem wellBracketed_step {c d : Config σ} (hstep : Step env c d) (hsound : Unfaulted env c)
    (h : WellBracketed env c) : WellBracketed env d := by
  cases move_of_step hstep with
  | rejected => exact h
  | @opened s hclean =>
    obtain ⟨hlog, hzero⟩ : s.log = [] ∧ s.facts = .zero := h
    refine ⟨?_, [], ?_, ?_⟩
    · simp [hzero, Balanced, RunFacts.zero]
    · simp [hlog, lifecycle, lifecycleEvent?, blocksTrace]
    · simp [hzero, RunFacts.zero]
  | @briefed s outcome calls _ facts _ hcalls hfacts =>
    obtain ⟨hbalanced, blocks, htrace, hcount⟩ := h
    have hquiet : lifecycle calls = [] :=
      List.filterMap_eq_nil_iff.mpr fun call hcall => by rw [hcalls call hcall]; rfl
    refine ⟨balanced_of_counts hfacts hbalanced, blocks, ?_, ?_⟩
    · simpa [hquiet] using htrace
    · exact (started_of_counts hfacts).trans hcount
  | @collected s outcome s' calls phase hcalls hlog _ _ _ hfacts hphase =>
    obtain ⟨hbalanced, blocks, htrace, hcount⟩ := h
    have hquiet : lifecycle calls = [] := List.filterMap_eq_nil_iff.mpr fun call hcall => by
      obtain ⟨specs, rfl⟩ := hcalls call hcall; rfl
    have hclosed : Balanced s'.facts 0 ∧ ∃ blocks,
        lifecycle s'.log = blocksTrace env.compiled blocks ∧
          s'.facts.stepsStarted = blocks.length := by
      refine ⟨balanced_of_counts hfacts hbalanced, blocks, ?_, ?_⟩
      · rw [hlog, lifecycle_append, hquiet, List.append_nil]
        exact htrace
      · exact (started_of_counts hfacts).trans hcount
    rcases hphase with ⟨rfl, -⟩ | ⟨outcome', rfl⟩
    · exact hclosed
    · exact hclosed
  | exhausted => exact h
  | @started s step rest =>
    obtain ⟨hbalanced, blocks, htrace, hcount⟩ := h
    simp only [Balanced] at hbalanced hcount
    refine ⟨?_, blocks, ?_, ?_⟩
    · simp only [Balanced, startStep]
      simp only [RunState.emit_facts]
      omega
    · simp only [startStep, RunState.emit_log, lifecycle_append, htrace]
      rfl
    · simp only [startStep, RunState.emit_facts]
      omega
  | stepped hmove => exact wellBracketed_stepMove hmove hsound h
  | @finalised s outcome =>
    obtain ⟨hbalanced, blocks, htrace, hcount⟩ := h
    exact ⟨s.log, s.facts, hbalanced, rfl, blocks, htrace, hcount⟩
  | stayed => exact h

/-- While no fault strikes a started step, every run is well bracketed in every state. -/
theorem lifecycle_well_bracketed {c : Config σ} (h : ReachableUnder env (Unfaulted env) c) :
    WellBracketed env c := by
  obtain ⟨s, hruns⟩ := h
  have h0 : WellBracketed env (.init env s) := ⟨rfl, rfl⟩
  exact Runs.invariant_of_guarded_step (WellBracketed env)
    (fun a b ha (hg : Unfaulted env a) hab => wellBracketed_step hab hg ha) hruns h0

section Exactness

variable {step : CompiledStep} {rest : List CompiledStep} {s : RunState σ}

theorem skipStep_unsafe {reason : StepOutcomeReason} {tail : Option String} {attempts : Nat}
    {error : Option StepErrorFacts} (hnodefault : ¬isSafelySkippable step) :
    ∃ e, (skipStep env s step rest reason tail attempts error).phase = .raised e := by
  rw [isSafelySkippable_iff (s := s)] at hnodefault
  unfold skipStep
  cases hbound : (s.ctx.bindSkippedOutputs step.id step.outputs).2 with
  | ok u => exact absurd hbound hnodefault
  | error e => exact ⟨e, by simp only [hbound]⟩

theorem advanceStep_of_broken {point : StepPoint} (rest : List CompiledStep)
    (h : Broken env step s point) :
    ∃ error, (advanceStep env step rest s point).phase = .raised error := by
  cases point with
  | entered =>
    obtain ⟨hkind, hnone⟩ := h
    simp only [advanceStep, enterStep, hkind, enterLocal]
    split
    · exact ⟨_, rfl⟩
    · next action haction =>
      rw [if_pos (hnone action haction)]
      exact ⟨_, rfl⟩
  | loading =>
    have hnone : step.operation = none := h
    simp only [advanceStep, loadSchema, hnone]
    exact ⟨_, rfl⟩
  | collecting schema =>
    obtain ⟨hreview, e, hplan⟩ := h
    simp only [advanceStep, collectStep, if_pos hreview, reviewStep, hplan]
    exact ⟨e, rfl⟩
  | failing attempt error stage attempts =>
    obtain ⟨htolerated, hinteractive, e, hostState, hasked⟩ := h
    rw [tolerates, Bool.or_eq_false_iff] at htolerated
    simp only [advanceStep, passFailureGate, decideStepFailure, htolerated.1, htolerated.2,
      hinteractive, Bool.false_eq_true, if_false, askFailureGate, hasked]
    exact ⟨e, rfl⟩
  | _ => exact h.elim

theorem reviewStep_skipped {schema : ServiceSchema}
    (h : SkipChosen env step s (.collecting schema)) (hnodefault : ¬isSafelySkippable step) :
    ∃ e, (collectStep env step rest schema s).phase = .raised e := by
  obtain ⟨hreview, hoptional, plan, hostState, hplan, hpause, hasked⟩ := h
  unfold collectStep reviewStep
  simp only [if_pos hreview, hplan, hpause, Bool.not_true, Bool.false_eq_true, if_false, hasked,
    if_pos hoptional]
  exact skipStep_unsafe hnodefault

theorem confirmStep_skipped {request : CommandRequest}
    (h : SkipChosen env step s (.confirming request)) (hnodefault : ¬isSafelySkippable step) :
    ∃ e, (confirmStep env step rest request s).phase = .raised e := by
  obtain ⟨hoptional, hasks, hanswer⟩ := h
  unfold confirmStep
  rw [hasks]
  rcases hpreview : env.host.previewCommand request s.hostState with ⟨preview, hostState⟩
  simp only [confirmAnswer?, hpreview] at hanswer
  cases preview with
  | error e => cases hanswer
  | ok command =>
    simp only [Option.some.injEq] at hanswer
    simp only [askConfirmation, hanswer, Bool.not_true, Bool.false_eq_true, if_false,
      if_pos hoptional]
    exact skipStep_unsafe hnodefault

theorem passFailureGate_skipped {attempt : Attempt} {error : RuntimeError}
    {stage : StepOutcomeReason} {attempts : Nat}
    (h : SkipChosen env step s (.failing attempt error stage attempts))
    (hnodefault : ¬isSafelySkippable step) :
    ∃ e, (passFailureGate env step rest attempt error stage attempts s).phase = .raised e := by
  rcases h with htolerated | ⟨-, -, hsafe, -⟩
  · unfold passFailureGate decideStepFailure
    by_cases hcontinue : step.continueOnFailure = true
    · simp only [if_pos hcontinue]
      exact skipStep_unsafe hnodefault
    · have hexists : (step.skipIfExists && isConflict error) = true := by
        simpa [tolerates, hcontinue] using htolerated
      simp only [if_neg hcontinue, if_pos hexists]
      exact skipStep_unsafe hnodefault
  · exact absurd hsafe hnodefault

theorem advanceStep_of_fault {point : StepPoint} (rest : List CompiledStep)
    (h : Fault env step s point) :
    ∃ error, (advanceStep env step rest s point).phase = .raised error := by
  rcases h with hbroken | ⟨hchosen, hnodefault⟩
  · exact advanceStep_of_broken rest hbroken
  · cases point with
    | collecting schema => exact reviewStep_skipped hchosen hnodefault
    | confirming request => exact confirmStep_skipped hchosen hnodefault
    | failing attempt error stage attempts => exact passFailureGate_skipped hchosen hnodefault
    | _ => exact hchosen.elim

theorem not_wellBracketed_of_fault {c : Config σ} (h : WellBracketed env c)
    (hfault : ¬Unfaulted env c) : ¬WellBracketed env (advance env c) := by
  obtain ⟨phase, s⟩ := c
  cases phase with
  | inStep step rest point =>
    have hf : Fault env step s point := not_not.mp hfault
    obtain ⟨e, hraised⟩ := advanceStep_of_fault rest hf
    obtain ⟨-, blocks, htrace, -⟩ := h
    intro hd
    simp only [WellBracketed, advance, hraised] at hd
    obtain ⟨tail, hlog⟩ := (stepMove_advanceStep env step rest s point).log_grows
    rw [hd.1, List.append_eq_nil_iff] at hlog
    simp [hlog.1, lifecycle, blocksTrace] at htrace
  | _ => exact absurd trivial hfault

end Exactness

section Termination

/-- The moves a step point has left, when no retry happens. -/
def pointFuel : StepPoint → Nat
  | .entered => 8
  | .loading => 7
  | .collecting _ => 6
  | .assembling _ _ => 5
  | .confirming _ => 4
  | .previewing _ | .attempting _ _ => 3
  | .failing _ _ _ _ => 2
  | .concluding _ _ => 1

def loopFuel (steps : List CompiledStep) : Nat := 9 * steps.length + 2

/-- The moves a phase has left, when no retry happens. -/
def phaseFuel (compiled : CompiledWorkflow) : Phase → Nat
  | .opening => loopFuel compiled.steps + 3
  | .briefing => loopFuel compiled.steps + 2
  | .inputGather _ => loopFuel compiled.steps + 1
  | .stepLoop rest => loopFuel rest
  | .inStep _ rest point => loopFuel rest + pointFuel point
  | .finalising _ => 1
  | .finished .. | .raised _ => 0

def isGate : FrontendCall → Bool
  | .resolveStepFailure _ _ _ => true
  | _ => false

def gateCalls (log : List FrontendCall) : Nat := log.countP isGate

theorem gateCalls_mono {c d : Config σ} (hstep : Step env c d) :
    gateCalls c.run.log ≤ gateCalls d.run.log := (log_grows hstep).sublist.countP_le

theorem pointFuel_pos (point : StepPoint) : 1 ≤ pointFuel point := by
  cases point <;> simp [pointFuel]

/-- Inside a step every move uses fuel, except a retry, which the gate was asked for. -/
theorem stepMove_fuel {step : CompiledStep} {rest : List CompiledStep} {point : StepPoint}
    {s : RunState σ} {d : Config σ} (hmove : StepMove env step rest point s d) :
    phaseFuel env.compiled d.phase < loopFuel rest + pointFuel point ∨
      (phaseFuel env.compiled d.phase ≤ loopFuel rest + pointFuel point + 1 ∧
        gateCalls d.run.log = gateCalls s.log + 1) := by
  have hpos := pointFuel_pos point
  cases hmove with
  | retried => exact Or.inr ⟨by simp [phaseFuel, pointFuel], by simp [gateCalls, isGate]⟩
  | confirmed =>
    refine Or.inl ?_
    simp only [phaseFuel, dispatchPoint]
    split <;> simp [pointFuel]
  | concluded =>
    refine Or.inl ?_
    unfold concludeStep
    split <;> simp only [phaseFuel, pointFuel, loopFuel] <;> omega
  | _ =>
    refine Or.inl ?_
    simp only [phaseFuel, pointFuel, loopFuel, failStep, cancelStep, concludeFailed] at *
    omega

/-- One move of a run that has not returned, weighed against the gate's answers. -/
theorem fuel_step {c d : Config σ} (hstep : Step env c d)
    (hrunning : (returned? c.phase).isNone) :
    phaseFuel env.compiled d.phase + 1 + 2 * gateCalls c.run.log ≤
      phaseFuel env.compiled c.phase + 2 * gateCalls d.run.log := by
  have hmono := gateCalls_mono hstep
  cases move_of_step hstep with
  | stepped hmove =>
    have hfuel := stepMove_fuel hmove
    simp only [phaseFuel] at hfuel ⊢
    simp only at hmono
    omega
  | stayed hreturned => rw [Option.isNone_iff_eq_none] at hrunning; simp [hrunning] at hreturned
  | collected _ _ _ _ _ _ hphase =>
    rcases hphase with ⟨rfl, -⟩ | ⟨outcome, rfl⟩
    · simp only [phaseFuel] at *; omega
    · simp only [phaseFuel, loopFuel] at *; omega
  | _ => simp only [phaseFuel, loopFuel, startStep, finaliseRun, pointFuel, List.length_cons] at *; omega

theorem returned_stays {c : Config σ} (h : (returned? c.phase).isSome) : advance env c = c := by
  obtain ⟨phase, s⟩ := c
  cases phase with
  | finished => rfl
  | raised => rfl
  | _ => cases h

/-- The fuel of a run that is still going after `n` moves. -/
theorem fuel_iterate (s : σ) (n : Nat)
    (hrunning : (returned? ((advance env)^[n] (.init env s)).phase).isNone) :
    n + phaseFuel env.compiled ((advance env)^[n] (.init env s)).phase ≤
      9 * env.compiled.steps.length + 5 +
        2 * gateCalls ((advance env)^[n] (.init env s)).run.log := by
  induction n with
  | zero =>
    simp only [Function.iterate_zero, id_eq, Config.init, phaseFuel, loopFuel]
    omega
  | succ n ih =>
    simp only [Function.iterate_succ_apply'] at hrunning ⊢
    have hbefore : (returned? ((advance env)^[n] (.init env s)).phase).isNone := by
      by_contra hret
      rw [Bool.not_eq_true, Option.isNone_eq_false_iff] at hret
      rw [returned_stays hret, Option.isNone_iff_eq_none] at hrunning
      rw [hrunning] at hret
      cases hret
    have hstep := fuel_step (show Step env _ _ from rfl) hbefore
    have hn := ih hbefore
    omega

end Termination

/-- A run is well bracketed in all its states exactly when no fault strikes a started step, and
it returns within a fixed number of moves for each time the failure gate is asked. -/
theorem lifecycle_iff_unfaulted (env : Setup σ) (s : σ) :
    ((∀ c, Runs.Reaches (Step env) (.init env s) c → WellBracketed env c) ↔
      ∀ c, Runs.Reaches (Step env) (.init env s) c → Unfaulted env c) ∧
    ∀ n, (returned? ((advance env)^[n] (.init env s)).phase).isNone →
      n ≤ 9 * env.compiled.steps.length + 5 +
        2 * gateCalls ((advance env)^[n] (.init env s)).run.log := by
  refine ⟨⟨fun hall c hc => ?_, fun hsound c hc => ?_⟩, fun n hrunning => ?_⟩
  · by_contra hfault
    exact not_wellBracketed_of_fault (hall c hc) hfault (hall _ (hc.tail rfl))
  · exact lifecycle_well_bracketed ⟨s, hc.under hsound⟩
  · have h := fuel_iterate s n hrunning
    omega

section GateError

def notifyStep : CompiledStep :=
  { id := "notify", index := 0, description := none, kind := .local, action := some "docker-login"
    operation := none, dependencies := [], confirm := false, isOptional := false
    continueOnFailure := false, skipIfExists := false, isReviewed := none, inputs := []
    outputs := [], autoDerived := [] }

/-- An interactive run whose step fails and whose failure gate answers with an error. -/
def brokenGate : Setup Unit :=
  { compiled :=
      { id := "notify", name := "Notify", briefing := none, inputs := []
        isReviewedByDefault := false, steps := [notifyStep], outputs := [], completion := none }
    options := .default
    preSupplied := .empty
    host := { idleHost with
      runLocal := fun _ _ _ _ => ([], .error (.internal "the action failed"), ())
      resolveStepFailure := fun _ _ _ _ => (.error (.internal "the prompt was closed"), ()) } }

theorem broken_gate_leaves_step_open :
    execute brokenGate 7 () = some (.err (.internal "the prompt was closed")) ∧
    lifecycle ((advance brokenGate)^[7] (.init brokenGate ())).run.log =
      [.workflowStarted brokenGate.compiled, .stepStarted 0 "notify"] ∧
    ¬∀ c, Reachable brokenGate c → WellBracketed brokenGate c := by
  refine ⟨rfl, rfl, fun h => ?_⟩
  have hraised := h _ ⟨(), Runs.Reaches.iterate (advance brokenGate) 7 (.init brokenGate ())⟩
  exact absurd hraised.1 (by decide)

end GateError

end RunLifecycle
