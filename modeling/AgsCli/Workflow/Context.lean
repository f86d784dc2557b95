import AgsCli.Protocol.Request
import AgsCli.Workflow.JsonPath

/-! # Workflow context

Per-run storage of step results and captured outputs, and how captures are bound. -/
namespace WorkflowContext

open OrderedMap Json ProtocolError WorkflowTypes RequestTypes JsonPath

structure Context where
  stepOutputs : BTreeMap String ApiOutput
  localStepBodies : BTreeMap String Value
  captures : BTreeMap String (BTreeMap String Value)
  provenances : BTreeMap String (BTreeMap String WorkflowOutputProvenance)
  binaryOutputs : BTreeMap String BinaryWrittenOutput

namespace Context

def new : Context := ⟨.empty, .empty, .empty, .empty, .empty⟩

def storeStepOutput (ctx : Context) (stepId : String) (output : ApiOutput) : Context :=
  { ctx with stepOutputs := ctx.stepOutputs.insert stepId output }

def storeLocalStepBody (ctx : Context) (stepId : String) (body : Value) : Context :=
  { ctx with localStepBodies := ctx.localStepBodies.insert stepId body }

def storeBinaryOutput (ctx : Context) (stepId : String) (output : BinaryWrittenOutput) :
    Context :=
  { ctx with binaryOutputs := ctx.binaryOutputs.insert stepId output }

/-- Local bodies first, then the raw response, then a text response. -/
def stepBodyJson (ctx : Context) (stepId : String) : Option Value :=
  match ctx.localStepBodies.get? stepId with
  | some body => some body
  | none =>
    match ctx.stepOutputs.get? stepId with
    | none => none
    | some apiOutput =>
      match apiOutput.rawBody with
      | some raw => some raw
      | none =>
        match apiOutput.body with
        | .empty | .shaped => none
        | .text s => some (.string s)

end Context

structure StepCaptures where
  values : BTreeMap String Value
  provenances : BTreeMap String WorkflowOutputProvenance

/-- Bind the captures in order; a failing one leaves the earlier ones bound. -/
def bindEach (resolve : StepOutputCapture → Except RuntimeError (Value × WorkflowOutputProvenance)) :
    List StepOutputCapture → StepCaptures → StepCaptures × Except RuntimeError Unit
  | [], acc => (acc, .ok ())
  | capture :: rest, acc =>
    match resolve capture with
    | .error e => (acc, .error e)
    | .ok (stored, provenance) =>
      bindEach resolve rest
        ⟨acc.values.insert capture.name stored, acc.provenances.insert capture.name provenance⟩

def resolveCapture (stepId : String) (bodyJson : Option Value) (capture : StepOutputCapture) :
    Except RuntimeError (Value × WorkflowOutputProvenance) :=
  match bodyJson.bind (applyJsonpathSubset · capture.source.path), capture.default with
  | some v, _ => .ok (v, .captured)
  | none, some default => .ok (default, .missing)
  | none, none => .error (.internal
      (s!"step '{stepId}' output '{capture.name}' did not resolve (path " ++
        s!"'{capture.source.path}') and has no default"))

def resolveSkipped (stepId : String) (capture : StepOutputCapture) :
    Except RuntimeError (Value × WorkflowOutputProvenance) :=
  match capture.default with
  | some default => .ok (default, .skipped)
  | none => .error (.internal
      s!"step '{stepId}' output '{capture.name}' has no default for skipped binding")

namespace Context

def stepCaptures (ctx : Context) (stepId : String) : StepCaptures :=
  ⟨(ctx.captures.get? stepId).getD .empty, (ctx.provenances.get? stepId).getD .empty⟩

/-- Run a binding loop on the step's entries of both capture maps. -/
def bindWith (ctx : Context) (stepId : String) (captures : List StepOutputCapture)
    (resolve : StepOutputCapture → Except RuntimeError (Value × WorkflowOutputProvenance)) :
    Context × Except RuntimeError Unit :=
  let bound := bindEach resolve captures (ctx.stepCaptures stepId)
  ({ ctx with
      captures := ctx.captures.insert stepId bound.1.values
      provenances := ctx.provenances.insert stepId bound.1.provenances }, bound.2)

def bindStepOutputs (ctx : Context) (stepId : String) (captures : List StepOutputCapture)
    (bodyJson : Option Value) : Context × Except RuntimeError Unit :=
  ctx.bindWith stepId captures (resolveCapture stepId bodyJson)

def bindSkippedOutputs (ctx : Context) (stepId : String) (captures : List StepOutputCapture) :
    Context × Except RuntimeError Unit :=
  ctx.bindWith stepId captures (resolveSkipped stepId)

def injectStepCapturesForDryRun (ctx : Context) (stepId : String)
    (captures : BTreeMap String Value) : Context :=
  { ctx with captures := ctx.captures.insert stepId captures }

/-- The captured value behind `from: step/X, output: Y`. -/
def resolveStepReference (ctx : Context) (stepId outputName : String) : Option Value :=
  (ctx.captures.get? stepId).bind (·.get? outputName)

def resolveWorkflowOutputs (ctx : Context) (aliases : List WorkflowOutputAlias) :
    BTreeMap String Value :=
  .ofList (aliases.filterMap fun a =>
    (ctx.resolveStepReference a.fromStepId a.output).map fun v => (a.name, v))

def resolveWorkflowOutputView (ctx : Context) (aliases : List WorkflowOutputAlias) :
    List WorkflowOutputItem :=
  aliases.filterMap fun a => do
    let value ← ctx.resolveStepReference a.fromStepId a.output
    let provenance ← (ctx.provenances.get? a.fromStepId).bind (·.get? a.output)
    some { name := a.name, «section» := a.section, label := a.label, value, provenance,
           itemFields := a.itemFields }

end Context

def OutputsBound (ctx : Context) (stepId : String) (captures : List StepOutputCapture) : Prop :=
  ∀ c ∈ captures, (ctx.resolveStepReference stepId c.name).isSome

section Binding

variable {resolve : StepOutputCapture → Except RuntimeError (Value × WorkflowOutputProvenance)}

theorem bindEach_ok_iff (captures : List StepOutputCapture) (acc : StepCaptures) :
    (bindEach resolve captures acc).2 = .ok () ↔
      ∀ c ∈ captures, ∃ v p, resolve c = .ok (v, p) := by
  induction captures generalizing acc with
  | nil => simp [bindEach]
  | cons c rest ih =>
    cases hc : resolve c with
    | error e => simp [bindEach, hc]
    | ok r => obtain ⟨v, p⟩ := r; simp [bindEach, hc, ih]

/-- The loop never loses a name that was bound before it. -/
theorem bindEach_keeps (captures : List StepOutputCapture) (acc : StepCaptures) {name : String}
    (h : (acc.values.get? name).isSome) :
    ((bindEach resolve captures acc).1.values.get? name).isSome := by
  induction captures generalizing acc with
  | nil => simpa [bindEach] using h
  | cons c rest ih =>
    cases hc : resolve c with
    | error e => simpa [bindEach, hc] using h
    | ok r =>
      simp only [bindEach, hc]
      refine ih _ ?_
      by_cases hn : name = c.name
      · subst hn; simp
      · rw [BTreeMap.get?_insert_of_ne _ hn]; exact h

theorem bindEach_binds (captures : List StepOutputCapture) (acc : StepCaptures)
    (h : (bindEach resolve captures acc).2 = .ok ()) {c : StepOutputCapture}
    (hc : c ∈ captures) :
    ((bindEach resolve captures acc).1.values.get? c.name).isSome := by
  induction captures generalizing acc with
  | nil => simp at hc
  | cons d rest ih =>
    cases hd : resolve d with
    | error e => simp [bindEach, hd] at h
    | ok r =>
      simp only [bindEach, hd] at h ⊢
      rcases List.mem_cons.mp hc with rfl | hrest
      · exact bindEach_keeps rest _ (by simp)
      · exact ih _ h hrest

/-- When every capture resolves to the same value, that is what each name is bound to. -/
theorem bindEach_const {v : Value} (captures : List StepOutputCapture) (acc : StepCaptures)
    (h : ∀ c ∈ captures, ∃ p, resolve c = .ok (v, p)) {name : String}
    (hname : acc.values.get? name = some v ∨ ∃ c ∈ captures, c.name = name) :
    (bindEach resolve captures acc).1.values.get? name = some v := by
  induction captures generalizing acc with
  | nil => simpa [bindEach] using hname
  | cons c rest ih =>
    obtain ⟨p, hc⟩ := h c List.mem_cons_self
    simp only [bindEach, hc]
    refine ih _ (fun d hd => h d (List.mem_cons_of_mem _ hd)) ?_
    by_cases hsame : name = c.name
    · subst hsame; simp
    · rw [BTreeMap.get?_insert_of_ne _ hsame]
      rcases hname with hname | ⟨d, hd, rfl⟩
      · exact Or.inl hname
      · rcases List.mem_cons.mp hd with rfl | hd
        · exact absurd rfl hsame
        · exact Or.inr ⟨d, hd, rfl⟩

end Binding

namespace Context

variable (ctx : Context) (stepId : String) (captures : List StepOutputCapture)

@[simp] theorem resolveStepReference_storeStepOutput (output : ApiOutput) (s o : String) :
    (ctx.storeStepOutput stepId output).resolveStepReference s o =
      ctx.resolveStepReference s o := rfl

@[simp] theorem resolveStepReference_storeLocalStepBody (body : Value) (s o : String) :
    (ctx.storeLocalStepBody stepId body).resolveStepReference s o =
      ctx.resolveStepReference s o := rfl

@[simp] theorem resolveStepReference_storeBinaryOutput (output : BinaryWrittenOutput)
    (s o : String) :
    (ctx.storeBinaryOutput stepId output).resolveStepReference s o =
      ctx.resolveStepReference s o := rfl

theorem resolveStepReference_bindWith_of_ne
    (resolve : StepOutputCapture → Except RuntimeError (Value × WorkflowOutputProvenance))
    {s : String} (h : s ≠ stepId) (o : String) :
    (ctx.bindWith stepId captures resolve).1.resolveStepReference s o =
      ctx.resolveStepReference s o := by
  simp only [bindWith, resolveStepReference]
  rw [BTreeMap.get?_insert_of_ne _ h]

theorem resolveStepReference_inject_of_ne (values : BTreeMap String Value) {s : String}
    (h : s ≠ stepId) (o : String) :
    (ctx.injectStepCapturesForDryRun stepId values).resolveStepReference s o =
      ctx.resolveStepReference s o := by
  simp only [injectStepCapturesForDryRun, resolveStepReference]
  rw [BTreeMap.get?_insert_of_ne _ h]

@[simp] theorem resolveStepReference_inject_self (values : BTreeMap String Value) (o : String) :
    (ctx.injectStepCapturesForDryRun stepId values).resolveStepReference stepId o =
      values.get? o := by
  simp [injectStepCapturesForDryRun, resolveStepReference]

theorem outputsBound_bindWith
    {resolve : StepOutputCapture → Except RuntimeError (Value × WorkflowOutputProvenance)}
    (h : (ctx.bindWith stepId captures resolve).2 = .ok ()) :
    OutputsBound (ctx.bindWith stepId captures resolve).1 stepId captures := by
  intro c hc
  simpa [bindWith, resolveStepReference] using bindEach_binds captures _ h hc

theorem bindSkippedOutputs_ok_iff :
    (ctx.bindSkippedOutputs stepId captures).2 = .ok () ↔
      ∀ c ∈ captures, c.default.isSome := by
  simp only [bindSkippedOutputs, bindWith, bindEach_ok_iff]
  refine forall₂_congr fun c _ => ?_
  cases h : c.default with
  | none => simp [resolveSkipped, h]
  | some v => simp [resolveSkipped, h]

end Context

end WorkflowContext
