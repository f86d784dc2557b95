import AgsCli.Workflow.Executor

/-! # What bindings read

A binding whose workflow inputs are all supplied resolves to a value or to an error, so a local
action that is run has a value for every field its step binds. -/
namespace BindingReads

open OrderedMap Json ProtocolError WorkflowTypes WorkflowContext Compile Resolve

def Present (supplied : Values) (names : List String) : Prop :=
  ∀ n ∈ names, supplied.contains n = true

section Templates

variable {template : String} {values : Values} {quote : QuoteMode}

/-- The placeholders found so far stay in the result. -/
theorem subset_scanPlaceholders {chars : List Char} {mode : TemplateMode}
    {found names : List String} (h : scanPlaceholders template chars mode found = .ok names) :
    found ⊆ names := by
  induction chars generalizing mode found with
  | nil =>
    cases mode with
    | opened | name run => cases h
    | text | closed => cases h; exact List.Subset.refl _
  | cons c rest ih =>
    cases mode with
    | opened =>
      simp only [scanPlaceholders] at h
      split_ifs at h
      · exact ih h
      · exact ih h
    | name run =>
      simp only [scanPlaceholders] at h
      split_ifs at h
      · exact ih h
      · exact fun n hn => ih h (List.mem_append_left _ hn)
      · exact ih h
    | text | closed =>
      simp only [scanPlaceholders] at h
      split_ifs at h
      · exact ih h
      · exact ih h
      · exact ih h

/-- The renderer walks a template in the modes the placeholder scan walks it, and stops only at
a name without a value. -/
theorem scanTemplate_isSome {chars : List Char} {mode : TemplateMode} {found names : List String}
    (h : scanPlaceholders template chars mode found = .ok names) (hnames : Present values names)
    (out : List Char) : (scanTemplate values quote chars mode out).isSome = true := by
  induction chars generalizing mode found out with
  | nil =>
    cases mode with
    | opened | name run => cases h
    | text | closed => rfl
  | cons c rest ih =>
    cases mode with
    | opened =>
      simp only [scanPlaceholders] at h
      simp only [scanTemplate]
      split_ifs at h ⊢
      · exact ih h _
      · exact ih h _
    | name run =>
      simp only [scanPlaceholders] at h
      simp only [scanTemplate]
      by_cases hclose : c = '}'
      · rw [if_pos hclose] at h ⊢
        have hmem : String.ofList run ∈ names := by
          refine subset_scanPlaceholders h ?_
          split_ifs with hfound
          · exact List.contains_iff_mem.mp hfound
          · exact List.mem_append_right _ List.mem_cons_self
        obtain ⟨v, hv⟩ := BTreeMap.contains_eq_true.mp (hnames _ hmem)
        rw [hv]
        exact ih h _
      · rw [if_neg hclose] at h ⊢
        exact ih h _
    | closed =>
      simp only [scanPlaceholders, ne_eq, not_true_eq_false, decide_false, Bool.and_false,
        Bool.false_eq_true, if_false] at h
      simp only [scanTemplate]
      by_cases hclose : c = '}'
      · have hopen : c ≠ '{' := by rintro rfl; cases hclose
        rw [if_neg hopen] at h
        rw [if_pos hclose]
        exact ih h _
      · rw [if_neg hclose]
        split_ifs at h ⊢
        · exact ih h _
        · exact ih h _
    | text =>
      simp only [scanPlaceholders] at h
      simp only [scanTemplate]
      by_cases hopen : c = '{'
      · rw [if_pos hopen] at h ⊢
        exact ih h _
      · rw [if_neg hopen] at h ⊢
        by_cases hclose : c = '}'
        · simp only [hclose, decide_true, Bool.true_and, ne_eq, reduceCtorEq, not_false_eq_true,
            if_true] at h ⊢
          exact ih h _
        · simp only [hclose, decide_false, Bool.false_and, Bool.false_eq_true, if_false] at h ⊢
          exact ih h _

end Templates

section Resolution

variable {ctx : Context} {supplied : Values}

theorem resolveReference_answers {r : ReferenceBinding}
    (h : Present supplied (sourceWorkflowInputs (.reference r))) :
    resolveReference ctx supplied r ≠ .ok none := by
  obtain ⟨target, output, transform⟩ := r
  unfold resolveReference
  cases target with
  | workflow input =>
    obtain ⟨v, hv⟩ := BTreeMap.contains_eq_true.mp (h input (by simp [sourceWorkflowInputs]))
    simp [hv]
  | step id =>
    cases output with
    | none => simp
    | some name =>
      simp only
      split <;> simp

theorem resolveFormat_isSome {f : FormatBinding} {names : List String}
    (hnames : formatPlaceholders f.template = .ok names)
    (h : Present supplied (sourceWorkflowInputs (.format f))) :
    (resolveFormat supplied f).isSome = true := by
  simp only [sourceWorkflowInputs, placeholdersOrEmpty, hnames] at h
  simp only [resolveFormat, interpolateTemplate, Option.isSome_map]
  exact scanTemplate_isSome hnames h []

/-- The step's templates have passed the compiler. -/
def TemplatesValid (inputs : List StepInputBinding) : Prop :=
  ∀ b ∈ inputs, ∀ f, b.source = .format f → ∃ names, formatPlaceholders f.template = .ok names

theorem binding_of_get? {inputs : List StepInputBinding} {field : String}
    {source : BindingSource} (h : (bindingsByField inputs).get? field = some source) :
    ∃ b ∈ inputs, b.source = source := by
  obtain ⟨b, hb, heq⟩ := List.mem_map.mp (BTreeMap.mem_of_get?_ofList h)
  exact ⟨b, hb, (Prod.mk.inj heq).2⟩

theorem present_source {inputs : List StepInputBinding} {b : StepInputBinding}
    (h : Present supplied (bindingWorkflowInputs inputs)) (hb : b ∈ inputs) :
    Present supplied (sourceWorkflowInputs b.source) :=
  fun n hn => h n (List.mem_flatMap.mpr ⟨b, hb, hn⟩)

theorem resolveBinding_answers {inputs : List StepInputBinding} {b : StepInputBinding}
    (hvalid : TemplatesValid inputs) (h : Present supplied (bindingWorkflowInputs inputs))
    (hb : b ∈ inputs) (stepLocal : Values) :
    resolveBinding ctx supplied (bindingsByField inputs) stepLocal b.source ≠ .ok none := by
  have hformat : ∀ b' ∈ inputs, ∀ f, b'.source = .format f → (resolveFormat supplied f).isSome :=
    fun b' hb' f hf => by
      obtain ⟨names, hnames⟩ := hvalid b' hb' f hf
      exact resolveFormat_isSome hnames (hf ▸ present_source h hb')
  have hreference : ∀ b' ∈ inputs, ∀ r, b'.source = .reference r →
      resolveReference ctx supplied r ≠ .ok none :=
    fun b' hb' r hr => resolveReference_answers (hr ▸ present_source h hb')
  unfold resolveBinding
  cases hsource : b.source with
  | literal l => simp
  | reference r => exact hreference b hb r hsource
  | format f =>
    obtain ⟨v, hv⟩ := Option.isSome_iff_exists.mp (hformat b hb f hsource)
    simp [hv]
  | mirror m =>
    simp only
    cases stepLocal.get? m.mirrorOf with
    | some edited => simp
    | none =>
      cases htarget : (bindingsByField inputs).get? m.mirrorOf with
      | none => simp
      | some target =>
        obtain ⟨b', hb', htarget'⟩ := binding_of_get? htarget
        cases target with
        | mirror other => simp
        | literal l => simp
        | reference r => exact hreference b' hb' r htarget'
        | format f =>
          obtain ⟨v, hv⟩ := Option.isSome_iff_exists.mp (hformat b' hb' f htarget')
          simp [hv]

theorem localInputs_complete {σ : Type} {step : CompiledStep} {s : Executor.RunState σ}
    {inputs : Values} (hvalid : TemplatesValid step.inputs)
    (h : Present s.supplied (bindingWorkflowInputs step.inputs))
    (hin : Executor.localInputs step s = .ok inputs) :
    ∀ b ∈ step.inputs, inputs.contains b.field = true := by
  intro b hb
  obtain ⟨resolved, hresolved, hin⟩ := Checks.bind_eq_ok.mp hin
  cases hin
  obtain ⟨found, hfound, hlist⟩ := Checks.bind_eq_ok.mp hresolved
  cases hlist
  obtain ⟨entry, hentry, hresolve⟩ := Checks.exists_of_collect hfound hb
  obtain ⟨value, hvalue, heq⟩ := Checks.bind_eq_ok.mp hresolve
  cases heq
  obtain ⟨v, rfl⟩ : ∃ v, value = some v := by
    cases value with
    | none => exact absurd hvalue (resolveBinding_answers hvalid h hb .empty)
    | some v => exact ⟨v, rfl⟩
  refine BTreeMap.contains_extend.mpr (Or.inr ?_)
  refine BTreeMap.contains_ofList.mpr ?_
  exact List.mem_map.mpr ⟨(b.field, v), List.mem_filterMap.mpr ⟨_, hentry, rfl⟩, rfl⟩

end Resolution

end BindingReads
