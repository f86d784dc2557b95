import AgsCli.Workflow.CompileFacts
import AgsCli.Workflow.ScriptedHost
import AgsCli.Workflow.StepLoop

/-! # Dry-run consistency

In a dry run, what later steps read for a step's outputs is what its preview shows, as long as
every local action's dry run yields null for its declared outputs. -/
namespace DryRunConsistency

open OrderedMap Json CatalogueTypes ProtocolError WorkflowTypes RequestTypes WorkflowContext
  Resolve Executor

variable {σ : Type} {env : Setup σ}

/-- A preview shows for each declared output what later steps read. -/
def Agrees (ctx : Context) (step : CompiledStep) (preview : StepDryRunPreview) : Prop :=
  ∀ output ∈ step.outputs,
    ctx.resolveStepReference step.id output.name = preview.synthesisedOutputs.get? output.name

def SkippedIn (log : List FrontendCall) (step : CompiledStep) : Prop :=
  ∃ attempts verdict, .event (finishEvent step attempts verdict) ∈ log ∧
    verdict.outcome = .skipped

structure Shown (s : RunState σ) (step : CompiledStep) : Prop where
  agrees : ∀ preview ∈ s.previews, preview.stepId = step.id → Agrees s.ctx step preview
  present : (∃ preview ∈ s.previews, preview.stepId = step.id) ∨ SkippedIn s.log step

def AllShown (s : RunState σ) (done : List CompiledStep) : Prop :=
  (∀ earlier ∈ done, Shown s earlier) ∧
    ∀ preview ∈ s.previews, ∃ earlier ∈ done, earlier.id = preview.stepId

def PointShown (s : RunState σ) (done : List CompiledStep) (step : CompiledStep) :
    StepPoint → Prop
  | .attempting _ _ | .failing _ _ _ _ => False
  | .concluding _ verdict =>
    if verdict.outcome = .failed then AllShown s done else AllShown s (done ++ [step])
  | _ => AllShown s done

/-- The condition on a local action's dry run: every declared output comes out null. -/
def NullPreview (env : Setup σ) (c : Config σ) : Prop :=
  match c.phase with
  | .inStep step _ .entered => ∀ action inputs produced, step.kind = .local →
      step.action = some action → localInputs step c.run = .ok inputs →
      (env.host.runLocal action inputs true c.run.hostState).2.1 = .ok produced →
      ∀ output ∈ step.outputs, ∃ provenance,
        resolveCapture step.id (some produced) output = .ok (.null, provenance)
  | _ => True

theorem boundOutputs_get {ctx : Context} {step : CompiledStep} {output : StepOutputCapture}
    (h : output ∈ step.outputs) :
    (boundOutputs ctx step).get? output.name = ctx.resolveStepReference step.id output.name :=
  BTreeMap.get?_ofList_graph step.outputs (·.name) (ctx.resolveStepReference step.id) h

theorem nullOutputs_get {step : CompiledStep} {output : StepOutputCapture}
    (h : output ∈ step.outputs) : (nullOutputs step).get? output.name = some .null := by
  have hgraph := BTreeMap.get?_ofList_graph step.outputs (·.name) (fun _ => some Value.null) h
  simpa [nullOutputs, List.filterMap_eq_map'] using hgraph

theorem stepBodyJson_stored (ctx : Context) (stepId : String) (body : Value) :
    (ctx.storeLocalStepBody stepId body).stepBodyJson stepId = some body := by
  simp [Context.stepBodyJson, Context.storeLocalStepBody]

theorem dryRunContext_null {step : CompiledStep} {produced : Value} {ctx : Context}
    (h : ∀ output ∈ step.outputs, ∃ provenance,
      resolveCapture step.id (some produced) output = .ok (.null, provenance))
    {output : StepOutputCapture} (houtput : output ∈ step.outputs) :
    (dryRunContext step produced ctx).resolveStepReference step.id output.name = some .null := by
  simp only [dryRunContext, stepBodyJson_stored, Context.bindStepOutputs, Context.bindWith,
    Context.resolveStepReference, BTreeMap.get?_insert_self, Option.bind_some]
  exact bindEach_const step.outputs _ h (Or.inr ⟨output, houtput, rfl⟩)

section Moves

variable {s s' : RunState σ} {done rest : List CompiledStep} {step : CompiledStep}

structure Grows (step : CompiledStep) (s s' : RunState σ) : Prop where
  same : SameElsewhere step.id s.ctx s'.ctx
  log : s.log <+: s'.log

theorem shown_grows {earlier : CompiledStep} (hgrows : Grows step s s')
    (hne : earlier.id ≠ step.id) (hkept : ∀ preview ∈ s.previews, preview ∈ s'.previews)
    (hnew : ∀ preview ∈ s'.previews, preview ∈ s.previews ∨ preview.stepId = step.id)
    (h : Shown s earlier) : Shown s' earlier := by
  refine ⟨fun preview hpreview hid output houtput => ?_, ?_⟩
  · rw [hgrows.same earlier.id hne]
    rcases hnew preview hpreview with hold | hstep
    · exact h.agrees preview hold hid output houtput
    · exact absurd (hid.symm.trans hstep) hne
  · rcases h.present with ⟨preview, hpreview, hid⟩ | ⟨attempts, verdict, hmem, hskipped⟩
    · exact Or.inl ⟨preview, hkept preview hpreview, hid⟩
    · exact Or.inr ⟨attempts, verdict, hgrows.log.subset hmem, hskipped⟩

/-- Showing depends on the captures and previews; the log may grow. -/
theorem allShown_of_eq (h : AllShown s done) (hctx : s'.ctx = s.ctx)
    (hpreviews : s'.previews = s.previews) (hlog : s.log <+: s'.log) : AllShown s' done := by
  refine ⟨fun earlier hearlier => ?_, by rw [hpreviews]; exact h.2⟩
  obtain ⟨hagrees, hpresent⟩ := h.1 earlier hearlier
  refine ⟨by rw [hpreviews, hctx]; exact hagrees, ?_⟩
  rcases hpresent with hpreview | ⟨attempts, verdict, hmem, hskipped⟩
  · exact Or.inl (by rw [hpreviews]; exact hpreview)
  · exact Or.inr ⟨attempts, verdict, hlog.subset hmem, hskipped⟩

variable (hnodup : (env.compiled.steps.map (·.id)).Nodup)
  (hsteps : env.compiled.steps = done ++ step :: rest)
include hnodup hsteps

theorem allShown_grows (hgrows : Grows step s s') (hpreviews : s'.previews = s.previews)
    (h : AllShown s done) : AllShown s' done := by
  refine ⟨fun earlier hearlier => ?_, by rw [hpreviews]; exact h.2⟩
  refine shown_grows hgrows (id_ne_of_nodup hnodup hsteps hearlier) ?_ ?_ (h.1 earlier hearlier)
  · rw [hpreviews]; exact fun _ hpreview => hpreview
  · rw [hpreviews]; exact fun _ hpreview => Or.inl hpreview

theorem allShown_preview (hgrows : Grows step s s') {preview : StepDryRunPreview}
    (hpreviews : s'.previews = s.previews ++ [preview]) (hid : preview.stepId = step.id)
    (hagrees : Agrees s'.ctx step preview) (h : AllShown s done) :
    AllShown s' (done ++ [step]) := by
  have hold (p : StepDryRunPreview) (hp : p ∈ s.previews) : p.stepId ≠ step.id := by
    obtain ⟨earlier, hearlier, heq⟩ := h.2 p hp
    rw [← heq]
    exact id_ne_of_nodup hnodup hsteps hearlier
  refine ⟨fun earlier hearlier => ?_, fun p hp => ?_⟩
  · rcases List.mem_append.mp hearlier with hearlier | hearlier
    · refine shown_grows hgrows (id_ne_of_nodup hnodup hsteps hearlier) ?_ ?_ (h.1 earlier hearlier)
      · intro p hp
        rw [hpreviews]
        exact List.mem_append_left _ hp
      · intro p hp
        rw [hpreviews, List.mem_append, List.mem_singleton] at hp
        rcases hp with hp | rfl
        · exact Or.inl hp
        · exact Or.inr hid
    · rw [List.mem_singleton.mp hearlier]
      refine ⟨fun p hp hpid => ?_, Or.inl ⟨preview, by simp [hpreviews], hid⟩⟩
      rw [hpreviews, List.mem_append, List.mem_singleton] at hp
      rcases hp with hp | rfl
      · exact absurd hpid (hold p hp)
      · exact hagrees
  · rw [hpreviews, List.mem_append, List.mem_singleton] at hp
    rcases hp with hp | rfl
    · obtain ⟨earlier, hearlier, heq⟩ := h.2 p hp
      exact ⟨earlier, List.mem_append_left _ hearlier, heq⟩
    · exact ⟨step, by simp, hid.symm⟩

theorem allShown_skip (hgrows : Grows step s s') (hpreviews : s'.previews = s.previews)
    (hskipped : SkippedIn s'.log step) (h : AllShown s done) : AllShown s' (done ++ [step]) := by
  have hkept := allShown_grows hnodup hsteps hgrows hpreviews h
  refine ⟨fun earlier hearlier => ?_, fun p hp => ?_⟩
  · rcases List.mem_append.mp hearlier with hearlier | hearlier
    · exact hkept.1 earlier hearlier
    · rw [List.mem_singleton.mp hearlier]
      refine ⟨fun p hp hpid => ?_, Or.inr hskipped⟩
      obtain ⟨earlier, hearlier, heq⟩ := hkept.2 p hp
      exact absurd (heq.trans hpid) (id_ne_of_nodup hnodup hsteps hearlier)
  · obtain ⟨earlier, hearlier, heq⟩ := hkept.2 p hp
    exact ⟨earlier, List.mem_append_left _ hearlier, heq⟩

omit hsteps in
theorem shown_moves (hdry : env.options.dryRun = true) (s : RunState σ) (done : List CompiledStep)
    (step : CompiledStep) (rest : List CompiledStep) (point : StepPoint) (d : Config σ)
    (hsteps : env.compiled.steps = done ++ step :: rest)
    (hguard : NullPreview env ⟨.inStep step rest point, s⟩) (h : PointShown s done step point)
    (hmove : StepMove env step rest point s d) : Follows AllShown PointShown done step d := by
  have hgrows : Grows step s d.run := ⟨hmove.same_elsewhere, hmove.log_grows⟩
  have hkeep (hpreviews : d.run.previews = s.previews) (hshown : AllShown s done) :
      AllShown d.run done := allShown_grows hnodup hsteps hgrows hpreviews hshown
  cases hmove with
  | load => exact hkeep rfl h
  | ready _ _ hlive => rw [hdry] at hlive; cases hlive
  | @previewedLocal s action inputs produced preview calls hs hcalls hkind haction hin _ hanswer
      hid hshown =>
    refine allShown_preview hnodup hsteps hgrows rfl hid ?_ h
    intro output houtput
    have hnull := hguard action inputs produced hkind haction hin hanswer
    rw [hshown, boundOutputs_get houtput, dryRunContext_null hnull houtput]
    simp [nullOutputs_get houtput]
  | loaded => exact hkeep rfl h
  | unpaused => exact hkeep rfl h
  | unasked => exact hkeep rfl h
  | reviewed => exact hkeep rfl h
  | gathered => exact hkeep rfl h
  | assembled => exact hkeep rfl h
  | confirmed =>
    simp only [Follows, dispatchPoint, hdry, if_true, PointShown]
    exact hkeep rfl h
  | @synthesised s request outputs preview hs hid hshown =>
    refine allShown_preview hnodup hsteps hgrows rfl hid ?_ h
    intro output houtput
    rw [hshown]
    simp
  | unpreviewed => exact hkeep rfl h
  | captured => exact h.elim
  | written => exact h.elim
  | missed => exact h.elim
  | retried => exact h.elim
  | ruled => exact h.elim
  | @concluded s attempts verdict =>
    have hlog := hgrows.log
    unfold concludeStep at hlog ⊢
    split
    · trivial
    · next hne =>
      rw [if_neg hne] at hlog
      have hshown : AllShown s (done ++ [step]) := by simpa only [PointShown, if_neg hne] using h
      exact allShown_of_eq hshown rfl rfl hlog
  | failed => trivial
  | cancelled => trivial
  | @skipped point s attempts summary reason error calls hs hcalls hchosen hsafe =>
    have hskipped : SkippedIn (finishStepTerminal env { s.heard calls hs with
        ctx := (s.ctx.bindSkippedOutputs step.id step.outputs).1 } step attempts
        ⟨.skipped, summary, some reason, error⟩).log step :=
      ⟨attempts, ⟨.skipped, summary, some reason, error⟩, by simp, rfl⟩
    refine allShown_skip hnodup hsteps hgrows rfl hskipped ?_
    cases point with
    | collecting => exact h
    | confirming => exact h
    | failing => exact h.elim
    | _ => exact hchosen.elim
  | raised => trivial

end Moves

theorem fresh_allShown {s s' : RunState σ} (hfresh : Fresh env s)
    (hpreviews : s'.previews = s.previews) : AllShown s' [] := by
  refine ⟨by simp, ?_⟩
  rw [hpreviews, hfresh.previews]
  simp

theorem shown_of_point {s : RunState σ} {done : List CompiledStep} {step : CompiledStep}
    {point : StepPoint} (h : PointShown s done step point) {earlier : CompiledStep}
    (hearlier : earlier ∈ done) : Shown s earlier := by
  cases point with
  | attempting => exact h.elim
  | failing => exact h.elim
  | concluding attempts verdict =>
    simp only [PointShown] at h
    split at h
    · exact h.1 earlier hearlier
    · exact h.1 earlier (List.mem_append_left _ hearlier)
  | _ => exact h.1 earlier hearlier

def shownInvariant (hnodup : (env.compiled.steps.map (·.id)).Nodup)
    (hdry : env.options.dryRun = true) : LoopInvariant env (NullPreview env) where
  between := AllShown
  within := PointShown
  begins _ _ _ _ hfresh _ _ _ hpreviews := fresh_allShown hfresh hpreviews
  starts _ _ _ _ _ h := allShown_of_eq h rfl rfl ⟨_, rfl⟩
  moves := shown_moves hnodup hdry

variable {definition : WorkflowDefinition} {catalogue : Catalogue}

/-- In a dry run of a compiled workflow whose local dry runs yield null for every declared
output, inside a step every earlier step was previewed or skipped, and what later steps read for
its outputs is what its preview shows. -/
theorem dry_run_previews_agree (env : Setup σ)
    (hcompiled : Compile.compileWorkflow definition catalogue = .ok env.compiled)
    (hdry : env.options.dryRun = true) {c : Config σ}
    (hc : ReachableUnder env (NullPreview env) c) {step : CompiledStep}
    {rest : List CompiledStep} {point : StepPoint} (hphase : c.phase = .inStep step rest point) :
    ∃ done, env.compiled.steps = done ++ step :: rest ∧ ∀ earlier ∈ done,
      (∀ preview ∈ c.run.previews, preview.stepId = earlier.id → ∀ output ∈ earlier.outputs,
        c.run.ctx.resolveStepReference earlier.id output.name =
          preview.synthesisedOutputs.get? output.name) ∧
      ((∃ preview ∈ c.run.previews, preview.stepId = earlier.id) ∨ SkippedIn c.run.log earlier) := by
  have hnodup := (Compile.compileWorkflow_ok hcompiled).nodup_ids
  obtain ⟨done, hdone, hshown⟩ := (shownInvariant hnodup hdry).within_of_reachable hc hphase
  refine ⟨done, hdone, fun earlier hearlier => ?_⟩
  have hpoint : PointShown c.run done step point := hshown
  obtain ⟨hagrees, hpresent⟩ := shown_of_point hpoint hearlier
  exact ⟨hagrees, hpresent⟩

section Examples

/-- The export workflow, previewed. -/
def exportDryRun : Setup Unit :=
  { compiled := exportCompiled, options := { RunOptions.default with dryRun := true }
    preSupplied := .empty
    host := { idleHost with
      getOrLoad := fun _ _ => (.ok csmSchema, ())
      dryRunCommand := fun _ _ => (.ok ⟨.post, "https://service", [], [], none⟩, ()) } }

theorem nullPreview_exportDryRun {c : Config Unit} (h : Reachable exportDryRun c) :
    NullPreview exportDryRun c := by
  have hapi : ∀ step ∈ exportDryRun.compiled.steps, step.kind = .api := by decide
  have hremaining := remaining_suffix h
  obtain ⟨phase, s⟩ := c
  cases phase with
  | inStep step rest point =>
    cases point with
    | entered =>
      intro action inputs produced hkind
      have hmem : step ∈ exportDryRun.compiled.steps :=
        hremaining.subset (by simp [Phase.remaining])
      rw [hapi step hmem] at hkind
      cases hkind
    | _ => trivial
  | _ => trivial

theorem dry_run_previews_agree_export :
    ∃ done, exportDryRun.compiled.steps = done ++ notifyStep :: [] ∧ ∀ earlier ∈ done,
      (∀ preview ∈ (after exportDryRun 12).run.previews, preview.stepId = earlier.id →
        ∀ output ∈ earlier.outputs,
          (after exportDryRun 12).run.ctx.resolveStepReference earlier.id output.name =
            preview.synthesisedOutputs.get? output.name) ∧
      ((∃ preview ∈ (after exportDryRun 12).run.previews, preview.stepId = earlier.id) ∨
        SkippedIn (after exportDryRun 12).run.log earlier) := by
  have hreached : ReachableUnder exportDryRun (NullPreview exportDryRun) (after exportDryRun 12) :=
    ⟨(), (after_reaches exportDryRun 12).under fun c hc => nullPreview_exportDryRun ⟨(), hc⟩⟩
  have hphase : (after exportDryRun 12).phase = .inStep notifyStep [] .entered := rfl
  exact dry_run_previews_agree exportDryRun export_compiles rfl hreached hphase

def loginInputs (registry : BindingSource) : List StepInputBinding :=
  [⟨"registry", registry, true, none⟩,
   ⟨"username", .literal ⟨.string "deployer", false⟩, true, none⟩,
   ⟨"password", .literal ⟨.string "token", false⟩, true, none⟩]

def loginStep (id : String) (registry : BindingSource) (outputs : List StepOutputCapture) :
    StepDefinition :=
  { id, description := none, kind := .local, action := some "docker-login", operation := none
    dependencies := [], confirm := false, isOptional := false, continueOnFailure := false
    skipIfExists := false, isReviewed := none, inputs := loginInputs registry, outputs }

/-- Two logins, the second at the registry the first one reports. -/
def loginDefinition : WorkflowDefinition :=
  { id := "login", name := "Login", briefing := none, inputs := [], isReviewedByDefault := false
    steps :=
      [loginStep "first" (.literal ⟨.string "registry.example", false⟩)
        [⟨"registry", ⟨"$.registry"⟩, none, false⟩],
       loginStep "second" (.reference ⟨.step "first", some "registry", none⟩) []]
    outputs := [], completion := none }

def loginCompiled : CompiledWorkflow :=
  { id := "login", name := "Login", briefing := none, inputs := [], isReviewedByDefault := false
    steps := loginDefinition.steps.zipIdx.map fun p => Compile.compiledStep p.1 p.2 []
    outputs := [], completion := none }

def loginPreview (inputs : Values) : Value :=
  .ofPairs [("registry", (inputs.get? "registry").getD .null),
    ("username", (inputs.get? "username").getD .null), ("login", .string "dry-run")]

def loginDryRun : Setup Unit :=
  { compiled := loginCompiled, options := { RunOptions.default with dryRun := true }
    preSupplied := .empty
    host := { idleHost with runLocal := fun _ inputs _ _ => ([], .ok (loginPreview inputs), ()) } }

/-- The first login's preview shows its registry, while the second step reads null. -/
theorem local_dry_run_injects_null :
    Compile.compileWorkflow loginDefinition csmCatalogue = .ok loginDryRun.compiled ∧
    loginDryRun.options.dryRun = true ∧ Reachable loginDryRun (after loginDryRun 6) ∧
    (∃ second rest, (after loginDryRun 6).phase = .inStep second rest .entered ∧
      second.id = "second") ∧
    (∃ preview ∈ (after loginDryRun 6).run.previews, preview.stepId = "first" ∧
      preview.synthesisedOutputs.get? "registry" = some (.string "registry.example")) ∧
    (after loginDryRun 6).run.ctx.resolveStepReference "first" "registry" = some .null := by
  refine ⟨rfl, rfl, ⟨(), after_reaches loginDryRun 6⟩, ⟨_, _, rfl, rfl⟩, ?_, rfl⟩
  exact ⟨_, List.mem_cons_self, rfl, rfl⟩

end Examples

end DryRunConsistency
