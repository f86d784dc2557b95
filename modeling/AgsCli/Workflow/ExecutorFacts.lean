import AgsCli.Workflow.Executor

/-! # Executor state lemmas

What hearing from the host, emitting an event and finishing a step change in a run. -/
namespace Executor

open OrderedMap WorkflowTypes RequestTypes ProtocolError WorkflowContext Resolve

variable {σ : Type} (env : Setup σ)

namespace RunState

/-- The run after the frontend calls `calls`, the host being in state `h`. -/
def heard (s : RunState σ) (calls : List FrontendCall) (h : σ) : RunState σ :=
  { s with log := s.log ++ calls, hostState := h }

section Heard

variable (s : RunState σ) (calls : List FrontendCall) (h : σ)

@[simp] theorem heard_log : (s.heard calls h).log = s.log ++ calls := rfl
@[simp] theorem heard_supplied : (s.heard calls h).supplied = s.supplied := rfl
@[simp] theorem heard_ctx : (s.heard calls h).ctx = s.ctx := rfl
@[simp] theorem heard_previews : (s.heard calls h).previews = s.previews := rfl
@[simp] theorem heard_facts : (s.heard calls h).facts = s.facts := rfl
@[simp] theorem heard_runMode : (s.heard calls h).runMode = s.runMode := rfl

theorem heard_nil : s.heard [] s.hostState = s := by simp [heard]

theorem heard_host : ({ s with hostState := h } : RunState σ) = s.heard [] h := by simp [heard]

theorem heard_called (call : FrontendCall) (h' : σ) :
    (s.heard calls h).called call h' = s.heard (calls ++ [call]) h' := by simp [heard, called]

theorem called_eq_heard (call : FrontendCall) : s.called call h = s.heard [call] h := rfl

end Heard

section Emit

variable (s : RunState σ) (e : WorkflowEvent)

@[simp] theorem emit_log : (s.emit env e).log = s.log ++ [.event e] := rfl
@[simp] theorem emit_supplied : (s.emit env e).supplied = s.supplied := rfl
@[simp] theorem emit_ctx : (s.emit env e).ctx = s.ctx := rfl
@[simp] theorem emit_previews : (s.emit env e).previews = s.previews := rfl
@[simp] theorem emit_facts : (s.emit env e).facts = s.facts := rfl
@[simp] theorem emit_runMode : (s.emit env e).runMode = s.runMode := rfl

end Emit

def progressCalls (index : Nat) (events : List ProgressEvent) : List FrontendCall :=
  events.map fun e => .event (.progress (some index) e)

theorem emitProgress_eq_heard (s : RunState σ) (index : Nat) (events : List ProgressEvent) :
    ∃ h, s.emitProgress env index events = s.heard (progressCalls index events) h := by
  induction events generalizing s with
  | nil => exact ⟨s.hostState, by simp [emitProgress, progressCalls, heard_nil]⟩
  | cons e rest ih =>
    obtain ⟨h, hrest⟩ := ih (s.emit env (.progress (some index) e))
    refine ⟨h, ?_⟩
    rw [emitProgress, List.foldl_cons, ← emitProgress, hrest]
    simp [emit, called, heard, progressCalls]

end RunState

section Finish

variable (s : RunState σ) (step : CompiledStep) (attempts : Nat) (verdict : Verdict)

def finishEvent (step : CompiledStep) (attempts : Nat) (verdict : Verdict) : WorkflowEvent :=
  .stepFinished step.index step.id verdict.summary verdict.outcome verdict.reason attempts
    verdict.error

@[simp] theorem finishStepTerminal_log :
    (finishStepTerminal env s step attempts verdict).log =
      s.log ++ [.event (finishEvent step attempts verdict)] := rfl

@[simp] theorem finishStepTerminal_supplied :
    (finishStepTerminal env s step attempts verdict).supplied = s.supplied := rfl

@[simp] theorem finishStepTerminal_ctx :
    (finishStepTerminal env s step attempts verdict).ctx = s.ctx := rfl

@[simp] theorem finishStepTerminal_previews :
    (finishStepTerminal env s step attempts verdict).previews = s.previews := rfl

@[simp] theorem finishStepTerminal_facts :
    (finishStepTerminal env s step attempts verdict).facts =
      tallyStepOutcome s.facts verdict.outcome := rfl

end Finish

end Executor
