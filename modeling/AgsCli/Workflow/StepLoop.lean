import AgsCli.Workflow.ExecutorMoves

/-! # Step loop invariants

An invariant of the step loop names what holds between two steps and inside one, given the steps
already done. It is checked on single moves and holds in every state of a guarded run. -/
namespace Executor

open OrderedMap WorkflowTypes WorkflowContext Resolve

variable {σ : Type} {env : Setup σ} {guard : Config σ → Prop}

theorem id_ne_of_nodup {steps done rest : List CompiledStep} {step earlier : CompiledStep}
    (hnodup : (steps.map (·.id)).Nodup) (hsteps : steps = done ++ step :: rest)
    (hearlier : earlier ∈ done) : earlier.id ≠ step.id := by
  rw [hsteps, List.map_append, List.map_cons] at hnodup
  exact (List.nodup_append.mp hnodup).2.2 _ (List.mem_map_of_mem hearlier) _ List.mem_cons_self

structure Fresh (env : Setup σ) (s : RunState σ) : Prop where
  supplied : s.supplied = env.initialSupplied
  ctx : s.ctx = .new
  previews : s.previews = []
  runMode : s.runMode = .reviewInputSteps

/-- Where a move inside a step goes: on in the step, or to the next one. -/
def Follows (between : RunState σ → List CompiledStep → Prop)
    (within : RunState σ → List CompiledStep → CompiledStep → StepPoint → Prop)
    (done : List CompiledStep) (step : CompiledStep) (d : Config σ) : Prop :=
  match d.phase with
  | .stepLoop _ => between d.run (done ++ [step])
  | .inStep _ _ point => within d.run done step point
  | _ => True

structure LoopInvariant (env : Setup σ) (guard : Config σ → Prop) where
  between : RunState σ → List CompiledStep → Prop
  within : RunState σ → List CompiledStep → CompiledStep → StepPoint → Prop
  begins : ∀ outcome s s', guard ⟨.inputGather outcome, s⟩ → Fresh env s → FormSkipped env s s' →
    (env.options.reviewSteps = true → FormAnswered env s s') → s'.ctx = s.ctx →
    s'.previews = s.previews → between s' []
  starts : ∀ s done step rest, env.compiled.steps = done ++ step :: rest → between s done →
    within (startStep env step rest s).run done step .entered
  moves : ∀ s done step rest point d, env.compiled.steps = done ++ step :: rest →
    guard ⟨.inStep step rest point, s⟩ → within s done step point →
    StepMove env step rest point s d → Follows between within done step d

namespace LoopInvariant

variable (inv : LoopInvariant env guard)

structure At (c : Config σ) : Prop where
  remaining : c.phase.remaining <:+ env.compiled.steps
  fresh : (c.phase = .opening ∨ c.phase = .briefing ∨ ∃ outcome, c.phase = .inputGather outcome) →
    Fresh env c.run
  loop : ∀ rest, c.phase = .stepLoop rest → ∀ done, env.compiled.steps = done ++ rest →
    inv.between c.run done
  inside : ∀ step rest point, c.phase = .inStep step rest point → ∀ done,
    env.compiled.steps = done ++ step :: rest → inv.within c.run done step point

theorem at_stepMove {step : CompiledStep} {rest : List CompiledStep} {point : StepPoint}
    {s : RunState σ} {d : Config σ} (hmove : StepMove env step rest point s d)
    (hguard : guard ⟨.inStep step rest point, s⟩) (h : inv.At ⟨.inStep step rest point, s⟩) :
    inv.At d := by
  obtain ⟨done, hdone⟩ := h.remaining
  have hdone : env.compiled.steps = done ++ step :: rest := hdone.symm
  have hfollows := inv.moves s done step rest point d hdone hguard
    (h.inside step rest point rfl done hdone) hmove
  have hremaining := hmove.remaining_suffix.trans h.remaining
  rcases hmove.phase_cases with ⟨point', hphase⟩ | hphase | ⟨outcome, hphase⟩ | ⟨error, hphase⟩
  · refine ⟨hremaining, by simp [hphase], by simp [hphase], ?_⟩
    intro step' rest' point'' hphase' done' hdone'
    rw [hphase] at hphase'
    cases hphase'
    obtain rfl : done' = done := List.append_cancel_right (hdone'.symm.trans hdone)
    simpa only [Follows, hphase] using hfollows
  · refine ⟨hremaining, by simp [hphase], ?_, by simp [hphase]⟩
    intro rest' hphase' done' hdone'
    rw [hphase] at hphase'
    cases hphase'
    rw [hdone', List.append_cons] at hdone
    obtain rfl : done' = done ++ [step] := List.append_cancel_right hdone
    simpa only [Follows, hphase] using hfollows
  · exact ⟨hremaining, by simp [hphase], by simp [hphase], by simp [hphase]⟩
  · exact ⟨hremaining, by simp [hphase], by simp [hphase], by simp [hphase]⟩

theorem at_step {c d : Config σ} (hstep : Step env c d) (hguard : guard c) (h : inv.At c) :
    inv.At d := by
  have hremaining := remaining_step hstep h.remaining
  cases move_of_step hstep with
  | rejected => exact ⟨hremaining, by simp, by simp, by simp⟩
  | opened =>
    have hfresh := h.fresh (Or.inl rfl)
    exact ⟨hremaining, fun _ => ⟨hfresh.supplied, hfresh.ctx, hfresh.previews, hfresh.runMode⟩,
      by simp, by simp⟩
  | briefed =>
    have hfresh := h.fresh (Or.inr (Or.inl rfl))
    exact ⟨hremaining, fun _ => ⟨hfresh.supplied, hfresh.ctx, hfresh.previews, hfresh.runMode⟩,
      by simp, by simp⟩
  | @collected s outcome s' calls phase hcalls hlog hskipped hctx hpreviews hfacts hphase =>
    have hfresh := h.fresh (Or.inr (Or.inr ⟨outcome, rfl⟩))
    rcases hphase with ⟨rfl, hform⟩ | ⟨outcome', rfl⟩
    · refine ⟨hremaining, by simp, ?_, by simp⟩
      intro rest hrest done hdone
      cases hrest
      obtain rfl : done = [] := List.self_eq_append_left.mp hdone
      exact inv.begins outcome s s' hguard hfresh hskipped hform hctx hpreviews
    · exact ⟨hremaining, by simp, by simp, by simp⟩
  | exhausted => exact ⟨hremaining, by simp, by simp, by simp⟩
  | @started s step rest =>
    refine ⟨hremaining, by simp [startStep], by simp [startStep], ?_⟩
    intro step' rest' point hphase done hdone
    cases hphase
    exact inv.starts s done step rest hdone (h.loop _ rfl done hdone)
  | stepped hmove => exact inv.at_stepMove hmove hguard h
  | finalised => exact ⟨hremaining, by simp [finaliseRun], by simp [finaliseRun],
      by simp [finaliseRun]⟩
  | stayed => exact h

/-- The run rule: a loop invariant holds in every state of a guarded run. -/
theorem holds {c : Config σ} (h : ReachableUnder env guard c) : inv.At c := by
  obtain ⟨s, hruns⟩ := h
  have h0 : inv.At (.init env s) :=
    ⟨by simp [Config.init, Phase.remaining], fun _ => ⟨rfl, rfl, rfl, rfl⟩, by simp [Config.init],
      by simp [Config.init]⟩
  exact Runs.invariant_of_guarded_step inv.At
    (fun a b ha (hg : guard a) hab => inv.at_step hab hg ha) hruns h0

theorem within_of_reachable {c : Config σ} (h : ReachableUnder env guard c) {step : CompiledStep}
    {rest : List CompiledStep} {point : StepPoint} (hphase : c.phase = .inStep step rest point) :
    ∃ done, env.compiled.steps = done ++ step :: rest ∧ inv.within c.run done step point := by
  have hat := inv.holds h
  have hremaining := hat.remaining
  rw [hphase] at hremaining
  obtain ⟨done, hdone⟩ := hremaining
  exact ⟨done, hdone.symm, hat.inside step rest point hphase done hdone.symm⟩

end LoopInvariant

end Executor
