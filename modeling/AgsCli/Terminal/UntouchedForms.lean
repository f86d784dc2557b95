import AgsCli.Terminal.Forms

/-! # A form nobody edits

The text shown for a value is read back by the type hint of its field's schema. A table by hint and
by kind of value says which values come back as they were. -/
namespace UntouchedForms

open Json OrderedMap WorkflowTypes CliInputs FlagValues Forms

/-- The printer and the readers at one value; `exact` are the float texts the reader of JSON gives
back as they were. -/
structure Faithful (texts : Texts) (exact : String → Prop) (v : Value) : Prop where
  scalar : v.isArray = false → v.isObject = false → texts.toStringPretty v = some v.render
  filled : prettyText texts v ≠ ""
  reads : texts.fromStr (prettyText texts v) = .ok v ↔
    v.nesting ≤ recursionLimit ∧ ∀ t ∈ v.floats, exact t
  float : ∀ t, v = .number (.float t) → texts.parseFloat t = some (some t)
  quoted : ∀ s, v = .string s → texts.fromStr s ≠ .ok v

def Container (hint : String) : Prop := hint = "array" ∨ hint = "object"

/-- The reader of JSON gives the value back from its text. -/
def Legible (exact : String → Prop) (v : Value) : Prop :=
  v.nesting ≤ recursionLimit ∧ ∀ t ∈ v.floats, exact t

/-- The hint's own reader gives the scalar back from its text. -/
def TypedBy (hint : String) : Value → Prop
  | .bool _ => hint = "boolean"
  | .number (.int n) => hint = "integer" ∧ -2 ^ 63 ≤ n ∧ n < 2 ^ 63
  | .number (.float _) => hint = "number"
  | _ => False

/-- No reader of the hint takes the text for a value of another kind. -/
def ReadsAsText (texts : Texts) (hint s : String) : Prop :=
  match hint with
  | "integer" => parseI64 s = none
  | "number" => texts.parseFloat s = none
  | "boolean" => Strings.asciiLower s ≠ "true" ∧ Strings.asciiLower s ≠ "false"
  | "array" | "object" => ∀ v, texts.fromStr s ≠ .ok v
  | "null" => False
  | _ => True

section Values

variable {texts : Texts} {exact : String → Prop} {schema v : Value}

theorem renderString_ne (s : String) : renderString s ≠ s := by
  intro heq
  have hlength : ∀ cs : List Char, cs.length ≤ (cs.flatMap escapeChar).length := by
    intro cs
    induction cs with
    | nil => exact Nat.le_refl _
    | cons c cs ih =>
      have hpos : 0 < (escapeChar c).length := by
        unfold escapeChar
        split_ifs <;> exact Nat.succ_pos _
      rw [List.flatMap_cons, List.length_append, List.length_cons]
      omega
  have htext := congrArg (fun t => t.toList.length) heq
  simp only [toList_renderString, List.length_cons, List.length_append, List.length_nil] at htext
  have hle := hlength s.toList
  omega

theorem prettyText_scalar (h : Faithful texts exact v) (harray : v.isArray = false)
    (hobject : v.isObject = false) : prettyText texts v = v.render := by
  rw [prettyText, h.scalar harray hobject, Option.getD_some]

/-- A string comes back from its own text when no reader of the hint takes it for something else. -/
theorem coerce_text_iff {s : String} (h : Faithful texts exact (.string s)) :
    coerceToSchema texts s schema = .string s ↔ ReadsAsText texts (typeHint (some schema)) s := by
  have hjson : readJson texts s = .string s ↔ ∀ v, texts.fromStr s ≠ .ok v := by
    unfold readJson
    cases hs : texts.fromStr s with
    | ok v =>
      refine iff_of_false ?_ fun hnone => hnone v rfl
      rintro rfl
      exact h.quoted s rfl hs
    | error e => simp
  unfold coerceToSchema ReadsAsText
  generalize typeHint (some schema) = hint
  split
  · simp
  · rw [readInteger]
    cases parseI64 s <;> simp
  · unfold readFloat
    rcases texts.parseFloat s with _ | _ | text <;> simp
  · unfold readBoolean
    split <;> simp_all
  · exact hjson
  · exact hjson
  · simp
  · simp_all

theorem prettyText_ne (h : Faithful texts exact v) : Value.string (prettyText texts v) ≠ v := by
  rintro heq
  cases v with
  | string s =>
    rw [prettyText_scalar h rfl rfl] at heq
    exact renderString_ne s (Value.string.inj heq)
  | _ => cases heq

theorem typedBy_hint {hint : String} (h : TypedBy hint v) :
    hint = "boolean" ∨ hint = "integer" ∨ hint = "number" := by
  cases v with
  | bool b => exact Or.inl h
  | number n =>
    cases n with
    | int n => exact Or.inr (Or.inl h.1)
    | float t => exact Or.inr (Or.inr h)
  | null | string _ | array _ | object _ => exact h.elim

/-- Outside the hints that read, nothing but text comes back. -/
theorem not_typed_of_hint {hint : String} (hboolean : hint ≠ "boolean")
    (hinteger : hint ≠ "integer") (hnumber : hint ≠ "number") (harray : hint ≠ "array")
    (hobject : hint ≠ "object") :
    ¬ (TypedBy hint v ∨ Container hint ∧ Legible exact v) := by
  rintro (htyped | ⟨hcontainer, -⟩)
  · rcases typedBy_hint htyped with h | h | h
    · exact hboolean h
    · exact hinteger h
    · exact hnumber h
  · rcases hcontainer with h | h
    · exact harray h
    · exact hobject h

theorem readInteger_iff (h : Faithful texts exact v) :
    readInteger (prettyText texts v) = v ↔ TypedBy "integer" v := by
  have hraw := prettyText_ne h
  unfold readInteger
  cases v with
  | number n =>
    cases n with
    | int n =>
      rw [prettyText_scalar h rfl rfl, Value.render, Number.render, parseI64_toString]
      split_ifs with hrange
      · exact iff_of_true rfl ⟨rfl, hrange⟩
      · exact iff_of_false (by simp) fun htyped => hrange htyped.2
    | float t =>
      refine iff_of_false ?_ (by simp [TypedBy])
      cases parseI64 (prettyText texts (.number (.float t))) <;> simp
  | null | bool _ | string _ | array _ | object _ =>
    refine iff_of_false ?_ (by simp [TypedBy])
    cases parseI64 (prettyText texts _) with
    | none => exact hraw
    | some n => simp

theorem readFloat_iff (h : Faithful texts exact v) (hnull : v ≠ .null) :
    readFloat texts (prettyText texts v) = v ↔ TypedBy "number" v := by
  have hraw := prettyText_ne h
  have hother : (∀ t, v ≠ .number (.float t)) → readFloat texts (prettyText texts v) ≠ v := by
    intro hfloat
    unfold readFloat
    rcases texts.parseFloat (prettyText texts v) with _ | _ | text
    · exact hraw
    · exact hnull.symm
    · exact (hfloat text).symm
  cases v with
  | number n =>
    cases n with
    | int n => exact iff_of_false (hother (by simp)) (by simp [TypedBy])
    | float t =>
      rw [readFloat, prettyText_scalar h rfl rfl, Value.render, Number.render, h.float t rfl]
      exact iff_of_true rfl rfl
  | null | bool _ | string _ | array _ | object _ =>
    exact iff_of_false (hother (by simp)) (by simp [TypedBy])

theorem readBoolean_iff (h : Faithful texts exact v) :
    readBoolean (prettyText texts v) = v ↔ TypedBy "boolean" v := by
  have hraw := prettyText_ne h
  have hother : v.isBoolean = false → readBoolean (prettyText texts v) ≠ v := by
    intro hbool
    unfold readBoolean
    split
    · rintro rfl
      cases hbool
    · rintro rfl
      cases hbool
    · exact hraw
  cases v with
  | bool b =>
    rw [prettyText_scalar h rfl rfl]
    cases b with
    | true => exact iff_of_true rfl rfl
    | false => exact iff_of_true rfl rfl
  | number n => exact iff_of_false (hother rfl) (by cases n <;> simp [TypedBy])
  | null | string _ | array _ | object _ =>
    exact iff_of_false (hother rfl) (by simp [TypedBy])

theorem readJson_iff (h : Faithful texts exact v) :
    readJson texts (prettyText texts v) = v ↔ Legible exact v := by
  rw [Legible, ← h.reads]
  unfold readJson
  cases texts.fromStr (prettyText texts v) with
  | ok w => simp
  | error e => simpa using prettyText_ne h

/-- A value comes back from its printed text by the hint's own reader or by the reader of JSON. -/
theorem coerce_pretty_iff (h : Faithful texts exact v) (hnull : v ≠ .null) :
    coerceToSchema texts (prettyText texts v) schema = v ↔
      TypedBy (typeHint (some schema)) v ∨
        Container (typeHint (some schema)) ∧ Legible exact v := by
  have hraw := prettyText_ne h
  unfold coerceToSchema
  generalize typeHint (some schema) = hint
  split
  · exact iff_of_false hraw (not_typed_of_hint (by decide) (by decide) (by decide) (by decide)
      (by decide))
  · rw [readInteger_iff h]
    simp [Container]
  · rw [readFloat_iff h hnull]
    simp [Container]
  · rw [readBoolean_iff h]
    simp [Container]
  · rw [readJson_iff h]
    have huntyped : ¬ TypedBy "array" v := fun htyped => by simpa using typedBy_hint htyped
    simp [Container, huntyped]
  · rw [readJson_iff h]
    have huntyped : ¬ TypedBy "object" v := fun htyped => by simpa using typedBy_hint htyped
    simp [Container, huntyped]
  · exact iff_of_false hnull.symm (not_typed_of_hint (by decide) (by decide) (by decide)
      (by decide) (by decide))
  · exact iff_of_false hraw (not_typed_of_hint ‹_› ‹_› ‹_› ‹_› ‹_›)

end Values

/-- A row of a step plan keeps its value: an empty text is no edit, and a string of a JSON body is
printed with its quotes. -/
def StepKept (texts : Texts) (exact : String → Prop) (schema : Value) : Value → Prop
  | .null => True
  | .string s =>
    match schemaToFieldType schema with
    | .jsonBody => Container (typeHint (some schema))
    | .enum _ => ReadsAsText texts (typeHint (some schema)) s
    | _ => s = "" ∨ ReadsAsText texts (typeHint (some schema)) s
  | v => TypedBy (typeHint (some schema)) v ∨ Container (typeHint (some schema)) ∧ Legible exact v

section StepReview

variable {texts : Texts} {exact : String → Prop} {schema v : Value} {plan : StepFieldPlan}

theorem fieldValueString_text {s : String} (h : s ≠ "") :
    fieldValueString (.scalar s) = some s ∧ fieldValueString (.jsonBody s) = some s := by
  simp [fieldValueString, h]

/-- A value that is no null and no string is shown by its printed text. -/
theorem stepText_of_plain (h : Faithful texts exact v) (hnull : v.isNull = false)
    (hstring : v.isString = false) (fieldType : FieldType) :
    fieldValueString (stepFieldValue texts fieldType v) = some (prettyText texts v) := by
  obtain ⟨hscalar, hbody⟩ := fieldValueString_text h.filled
  unfold stepFieldValue
  rw [hnull, if_neg Bool.false_ne_true]
  cases v with
  | null => cases hnull
  | string s => cases hstring
  | bool b =>
    have htext := prettyText_scalar h rfl rfl
    rw [htext] at hscalar
    cases fieldType with
    | bool => exact congrArg some htext.symm
    | jsonBody => exact hbody
    | _ => exact hscalar.trans (congrArg some htext.symm)
  | number n =>
    have htext := prettyText_scalar h rfl rfl
    rw [htext] at hscalar
    cases fieldType with
    | jsonBody => exact hbody
    | _ => exact hscalar.trans (congrArg some htext.symm)
  | array items => cases fieldType <;> exact hbody
  | object members => cases fieldType <;> exact hbody

theorem stepKept_string_iff {s : String} (h : Faithful texts exact (.string s)) :
    (∀ raw, fieldValueString (stepFieldValue texts (schemaToFieldType schema) (.string s)) =
      some raw → coerceToSchema texts raw schema = .string s) ↔
      StepKept texts exact schema (.string s) := by
  have hcoerce : coerceToSchema texts s schema = .string s ↔ _ := coerce_text_iff h
  have hlegible : Legible exact (.string s) := ⟨Nat.zero_le _, fun t ht => by cases ht⟩
  have hscalar : (∀ raw, fieldValueString (.scalar s) = some raw →
      coerceToSchema texts raw schema = .string s) ↔
      s = "" ∨ ReadsAsText texts (typeHint (some schema)) s := by
    by_cases hs : s = ""
    · simp [hs, fieldValueString]
    · rw [(fieldValueString_text hs).1]
      simp [hs, hcoerce]
  unfold StepKept
  cases schemaToFieldType schema with
  | jsonBody =>
    change (∀ raw, fieldValueString (.jsonBody (prettyText texts (.string s))) = some raw → _) ↔ _
    rw [(fieldValueString_text h.filled).2]
    simp [coerce_pretty_iff h, TypedBy, hlegible]
  | enum variants =>
    change (∀ raw, some s = some raw → _) ↔ _
    simp [hcoerce]
  | scalar | bool | dynamicEnum | dateTime | filePicker => exact hscalar

/-- Reading back the text of a row gives its value, unless there is no text. -/
theorem stepKept_iff (h : Faithful texts exact v) :
    (∀ raw, fieldValueString (stepFieldValue texts (schemaToFieldType schema) v) = some raw →
      coerceToSchema texts raw schema = v) ↔ StepKept texts exact schema v := by
  have hplain : v.isNull = false → v.isString = false →
      ((∀ raw, fieldValueString (stepFieldValue texts (schemaToFieldType schema) v) = some raw →
        coerceToSchema texts raw schema = v) ↔
      TypedBy (typeHint (some schema)) v ∨
        Container (typeHint (some schema)) ∧ Legible exact v) := by
    intro hnull hstring
    rw [stepText_of_plain h hnull hstring, ← coerce_pretty_iff h (by rintro rfl; cases hnull)]
    simp
  cases v with
  | null => exact iff_of_true (fun raw hraw => by cases hraw) trivial
  | string s => exact stepKept_string_iff h
  | bool _ | number _ | array _ | object _ => exact hplain rfl rfl

theorem planById_get? (hids : (plan.fields.map (·.id)).Nodup) {f : StepField}
    (hf : f ∈ plan.fields) : (planById plan).get? f.id = some f := by
  have hmem : (f.id, f) ∈ plan.fields.map fun f => (f.id, f) := List.mem_map_of_mem hf
  refine BTreeMap.get?_ofList_of_nodup ?_ hmem
  rwa [List.map_map]

theorem mem_fromStepPlan {field : FormField} :
    field ∈ fromStepPlan texts plan ↔
      ∃ f ∈ plan.fields, isShown f = true ∧ stepFormField texts f = field := by
  unfold fromStepPlan
  simp only [List.mem_append, List.mem_filter, List.mem_map]
  constructor
  · rintro (⟨⟨f, ⟨hf, hshown⟩, rfl⟩, -⟩ | ⟨⟨f, ⟨hf, hshown⟩, rfl⟩, -⟩)
    · exact ⟨f, hf, hshown, rfl⟩
    · exact ⟨f, hf, hshown, rfl⟩
  · rintro ⟨f, hf, hshown, rfl⟩
    cases hro : (stepFormField texts f).readOnly with
    | true => exact Or.inl ⟨⟨f, ⟨hf, hshown⟩, rfl⟩, rfl⟩
    | false => exact Or.inr ⟨⟨f, ⟨hf, hshown⟩, rfl⟩, rfl⟩

/-- A row makes no edit when it cannot be edited or its text reads as its value. -/
theorem stepEdit_none_iff (hids : (plan.fields.map (·.id)).Nodup) {f : StepField}
    (hf : f ∈ plan.fields) (h : Faithful texts exact f.value) :
    stepEdit? texts plan (stepFormField texts f) = none ↔
      (isReadOnly f = false → StepKept texts exact f.schema f.value) := by
  rw [← stepKept_iff h]
  unfold stepEdit?
  cases hro : isReadOnly f with
  | true => simp [stepFormField, hro]
  | false =>
    simp [stepFormField, hro, planById_get? hids hf]

/-- The review of a plan is empty just when every row that can be edited keeps its value. -/
theorem projectStepEdits_untouched (hids : (plan.fields.map (·.id)).Nodup)
    (h : ∀ f ∈ plan.fields, Faithful texts exact f.value) :
    projectStepEdits texts (fromStepPlan texts plan) plan = ∅ ↔
      ∀ f ∈ plan.fields, isShown f = true → isReadOnly f = false →
        StepKept texts exact f.schema f.value := by
  rw [projectStepEdits, BTreeMap.ofList_eq_empty, List.filterMap_eq_nil_iff]
  constructor
  · intro hnone f hf hshown
    exact (stepEdit_none_iff hids hf (h f hf)).mp
      (hnone _ (mem_fromStepPlan.mpr ⟨f, hf, hshown, rfl⟩))
  · intro hkept field hfield
    obtain ⟨f, hf, hshown, rfl⟩ := mem_fromStepPlan.mp hfield
    exact (stepEdit_none_iff hids hf (h f hf)).mpr (hkept f hf hshown)

end StepReview

/-- The form of an input has a text for a value: a picker shows strings only, an empty text shows
where a choice is held. -/
def showsInput (dynamicEnums filePickers : Bool) (spec : WorkflowInputSpec) (v : Value) : Bool :=
  if (pickerType? dynamicEnums filePickers spec).isSome then v.isString
  else match plainFieldType spec, v with
    | _, .null => false
    | .enum _, _ => true
    | _, .string s => s != ""
    | _, _ => true

/-- Of the inputs of a name, the last whose form has a text for the value. -/
def lastShowing (dynamicEnums filePickers : Bool) (specs : List WorkflowInputSpec) (name : String)
    (v : Value) : Option WorkflowInputSpec :=
  (specs.filter fun spec => spec.name = name ∧ showsInput dynamicEnums filePickers spec v).getLast?

/-- An input keeps its value: a null has no text. -/
def InputKept (texts : Texts) (exact : String → Prop) (schema : Value) : Value → Prop
  | .null => False
  | .string s => ReadsAsText texts (typeHint (some schema)) s
  | v => TypedBy (typeHint (some schema)) v ∨ Container (typeHint (some schema)) ∧ Legible exact v

section Inputs

variable {texts : Texts} {exact : String → Prop} {v : Value} {spec : WorkflowInputSpec}
  {specs : List WorkflowInputSpec} {current : BTreeMap String Value}
  {dynamicEnums filePickers : Bool}

def inputText (texts : Texts) (dynamicEnums filePickers : Bool) (spec : WorkflowInputSpec)
    (v : Option Value) : Option String :=
  fieldValueString (if (pickerType? dynamicEnums filePickers spec).isSome then pickedValue v
    else plainValue texts (plainFieldType spec) v)

theorem inputText_none : inputText texts dynamicEnums filePickers spec none = none := by
  unfold inputText
  split_ifs
  · rfl
  · unfold plainValue
    cases plainFieldType spec <;> rfl

/-- A string is shown as it is, another value printed. -/
def shownText (texts : Texts) : Value → String
  | .string s => s
  | v => prettyText texts v

theorem plainText_some (h : Faithful texts exact v) (hstring : v.isString = false)
    (hnull : v.isNull = false) (fieldType : FieldType) :
    fieldValueString (plainValue texts fieldType (some v)) = some (shownText texts v) := by
  obtain ⟨hscalar, hbody⟩ := fieldValueString_text h.filled
  cases v with
  | null => cases hnull
  | string s => cases hstring
  | bool b =>
    have htext : shownText texts (.bool b) = if b then "true" else "false" :=
      prettyText_scalar h rfl rfl
    rw [htext]
    cases fieldType <;> rfl
  | number n =>
    have htext : shownText texts (.number n) = n.render := prettyText_scalar h rfl rfl
    rw [prettyText_scalar h rfl rfl] at hscalar
    rw [htext]
    cases fieldType <;> exact hscalar
  | array items => cases fieldType <;> exact hbody
  | object members => cases fieldType <;> exact hbody

theorem inputText_some (h : Faithful texts exact v) :
    inputText texts dynamicEnums filePickers spec (some v) =
      if showsInput dynamicEnums filePickers spec v then some (shownText texts v) else none := by
  unfold inputText showsInput
  by_cases hpicker : (pickerType? dynamicEnums filePickers spec).isSome
  · rw [if_pos hpicker, if_pos hpicker]
    cases v <;> rfl
  · rw [if_neg hpicker, if_neg hpicker]
    cases v with
    | null => cases plainFieldType spec <;> rfl
    | string s =>
      by_cases hs : s = ""
      · subst hs
        cases plainFieldType spec <;> rfl
      · have hscalar := (fieldValueString_text hs).1
        cases plainFieldType spec with
        | enum variants => rfl
        | _ => simpa [plainValue, valueToFieldValue, shownText, hs] using hscalar
    | bool _ | number _ | array _ | object _ =>
      rw [plainText_some h rfl rfl]
      cases plainFieldType spec <;> rfl

theorem inputKept_iff (h : Faithful texts exact v) {schema : Value} (hnull : v ≠ .null) :
    coerceToSchema texts (shownText texts v) schema = v ↔ InputKept texts exact schema v := by
  cases v with
  | null => exact absurd rfl hnull
  | string s => exact coerce_text_iff h
  | bool _ | number _ | array _ | object _ => exact coerce_pretty_iff h hnull

theorem not_null_of_shows (h : showsInput dynamicEnums filePickers spec v = true) : v ≠ .null := by
  rintro rfl
  unfold showsInput at h
  split_ifs at h
  revert h
  cases plainFieldType spec <;> rintro ⟨⟩

/-- The projection has the last text of each name. -/
theorem projectInputs_get? (name : String) :
    (projectInputs texts (buildInputsForm texts dynamicEnums filePickers specs current)).get? name =
      (specs.filter fun spec => spec.name = name ∧ (inputText texts dynamicEnums filePickers spec
        (current.get? spec.name)).isSome).getLast?.bind fun spec =>
        (inputText texts dynamicEnums filePickers spec (current.get? spec.name)).map fun raw =>
          coerceToSchema texts raw (inputSchema spec) := by
  have hentries : (buildInputsForm texts dynamicEnums filePickers specs current).filterMap
      (inputPair? texts) = specs.filterMap fun spec =>
        ((inputText texts dynamicEnums filePickers spec (current.get? spec.name)).map fun raw =>
          coerceToSchema texts raw (inputSchema spec)).map fun v => (spec.name, v) := by
    rw [buildInputsForm, List.filterMap_map]
    refine List.filterMap_congr fun spec _ => ?_
    rw [Option.map_map]
    rfl
  rw [projectInputs, hentries, BTreeMap.get?_ofList_last]
  simp only [Option.isSome_map]

theorem projectInputs_absent {name : String} (h : current.get? name = none) :
    (projectInputs texts (buildInputsForm texts dynamicEnums filePickers specs current)).get? name =
      none := by
  rw [projectInputs_get?, Option.bind_eq_none_iff]
  intro spec hlast
  obtain ⟨-, hshown⟩ := List.mem_filter.mp (List.mem_of_getLast? hlast)
  obtain ⟨rfl, hsome⟩ := of_decide_eq_true hshown
  rw [h, inputText_none] at hsome
  cases hsome

theorem projectInputs_present {name : String} (h : current.get? name = some v)
    (hv : Faithful texts exact v) :
    (projectInputs texts (buildInputsForm texts dynamicEnums filePickers specs current)).get? name =
      some v ↔ ∃ spec, lastShowing dynamicEnums filePickers specs name v = some spec ∧
        InputKept texts exact (inputSchema spec) v := by
  have hsame : (specs.filter fun spec => spec.name = name ∧ (inputText texts dynamicEnums
      filePickers spec (current.get? spec.name)).isSome) =
      specs.filter fun spec => spec.name = name ∧ showsInput dynamicEnums filePickers spec v := by
    refine List.filter_congr fun spec _ => decide_eq_decide.mpr (and_congr_right ?_)
    rintro rfl
    rw [h, inputText_some hv]
    split_ifs <;> simp_all
  rw [projectInputs_get?, hsame, ← lastShowing, Option.bind_eq_some_iff]
  refine exists_congr fun spec => and_congr_right fun hlast => ?_
  obtain ⟨-, hshown⟩ := List.mem_filter.mp (List.mem_of_getLast? hlast)
  obtain ⟨rfl, hshows⟩ := of_decide_eq_true hshown
  rw [h, inputText_some hv, if_pos hshows, Option.map_some, Option.some.injEq]
  exact inputKept_iff hv (not_null_of_shows hshows)

/-- The inputs come back just when each value is kept by the last form of its name showing it. -/
theorem projectInputs_untouched (h : ∀ e ∈ current.entries, Faithful texts exact e.2) :
    projectInputs texts (buildInputsForm texts dynamicEnums filePickers specs current) = current ↔
      ∀ e ∈ current.entries, ∃ spec,
        lastShowing dynamicEnums filePickers specs e.1 e.2 = some spec ∧
        InputKept texts exact (inputSchema spec) e.2 := by
  constructor
  · intro heq e he
    have hget := BTreeMap.get?_of_mem he
    refine (projectInputs_present hget (h e he)).mp ?_
    rw [heq, hget]
  · intro hkept
    refine BTreeMap.ext_get? fun name => ?_
    cases hget : current.get? name with
    | none => exact projectInputs_absent hget
    | some v =>
      have hmem := Entries.mem_of_lookup hget
      exact (projectInputs_present hget (h _ hmem)).mpr (hkept _ hmem)

end Inputs

/-- Confirming the forms of a plan and of the inputs without an edit changes nothing just when every
row that can be edited and every current input is kept. -/
theorem untouched_forms_iff (texts : Texts) (exact : String → Prop) (plan : StepFieldPlan)
    (specs : List WorkflowInputSpec) (current : BTreeMap String Value)
    (dynamicEnums filePickers : Bool) (hids : (plan.fields.map (·.id)).Nodup)
    (hplan : ∀ f ∈ plan.fields, Faithful texts exact f.value)
    (hcurrent : ∀ e ∈ current.entries, Faithful texts exact e.2) :
    (projectStepEdits texts (fromStepPlan texts plan) plan = ∅ ↔
      ∀ f ∈ plan.fields, isShown f = true → isReadOnly f = false →
        StepKept texts exact f.schema f.value) ∧
    (projectInputs texts (buildInputsForm texts dynamicEnums filePickers specs current) = current ↔
      ∀ e ∈ current.entries, ∃ spec,
        lastShowing dynamicEnums filePickers specs e.1 e.2 = some spec ∧
        InputKept texts exact (inputSchema spec) e.2) :=
  ⟨projectStepEdits_untouched hids hplan, projectInputs_untouched hcurrent⟩

/-- Compact texts; five is read as a float. -/
def fiveTexts : Texts where
  toStringPretty v := some v.render
  fromStr raw := match readText raw with
    | some v => .ok v
    | none => .error "expected value"
  parseFloat raw := if raw = "5" then some (some "5.0") else none

def fiveRow (type : String) : StepField where
  id := 0
  field := "limit"
  label := "limit"
  description := none
  location := .query
  schema := Value.ofPairs [("type", .string type)]
  value := .number (.int 5)
  source := .unset
  required := true
  workflowInput := none
  bodyOverflow := false
  showInReview := false

def fivePlan (type : String) : StepFieldPlan where
  stepIndex := 0
  stepLabel := "list"
  stepDescription := none
  fields := [fiveRow type]
  optional := false

def noteInput : WorkflowInputSpec where
  name := "note"
  description := none
  schema := none
  required := false
  default := none
  sensitive := false
  optionsSource := none
  filePicker := none
  location := .query

theorem fromStr_render {v : Value} (h : ∀ t ∈ v.floats, isFloatText t = true) :
    fiveTexts.fromStr (prettyText fiveTexts v) = .ok v ↔
      v.nesting ≤ recursionLimit ∧ ∀ t ∈ v.floats, isFloatText t = true := by
  have htext : prettyText fiveTexts v = v.render := rfl
  have hfrom : ∀ raw, fiveTexts.fromStr raw = match readText raw with
      | some v => .ok v
      | none => .error "expected value" := fun _ => rfl
  rw [hfrom, htext, readText_render h]
  split_ifs with hnest
  · exact iff_of_true rfl ⟨hnest, h⟩
  · exact iff_of_false (by rintro ⟨⟩) fun hlegible => hnest hlegible.1

theorem faithful_five : Faithful fiveTexts (isFloatText · = true) (.number (.int 5)) where
  scalar _ _ := rfl
  filled := by decide
  reads := fromStr_render fun t ht => by cases ht
  float t h := by cases h
  quoted s h := by cases h

theorem faithful_string {s : String} (h : readText s = none) :
    Faithful fiveTexts (isFloatText · = true) (.string s) where
  scalar _ _ := rfl
  filled := by
    intro hempty
    have htext := congrArg String.toList hempty
    rw [show prettyText fiveTexts (.string s) = renderString s from rfl,
      toList_renderString] at htext
    cases htext
  reads := fromStr_render fun t ht => by cases ht
  float t h := by cases h
  quoted t ht := by
    cases ht
    have hfrom : fiveTexts.fromStr s = .error "expected value" := by
      change (match readText s with
        | some v => Except.ok v
        | none => .error "expected value") = _
      rw [h]
    rw [hfrom]
    rintro ⟨⟩

theorem untouched_forms_five :
    projectStepEdits fiveTexts (fromStepPlan fiveTexts (fivePlan "integer"))
      (fivePlan "integer") = ∅ ∧
    projectInputs fiveTexts (buildInputsForm fiveTexts true true [noteInput]
      (.ofList [("note", .string "first")])) = .ofList [("note", .string "first")] := by
  have hfive : ∀ f ∈ (fivePlan "integer").fields,
      Faithful fiveTexts (isFloatText · = true) f.value := by
    intro f hf
    obtain rfl := List.mem_singleton.mp hf
    exact faithful_five
  have hnote : ∀ e ∈ (BTreeMap.ofList [("note", Value.string "first")]).entries,
      Faithful fiveTexts (isFloatText · = true) e.2 := by
    intro e he
    obtain rfl := List.mem_singleton.mp he
    exact faithful_string (by decide)
  obtain ⟨hplan, hcurrent⟩ := untouched_forms_iff fiveTexts (isFloatText · = true)
    (fivePlan "integer") [noteInput] (.ofList [("note", .string "first")]) true true (by decide)
    hfive hnote
  refine ⟨hplan.mpr ?_, hcurrent.mpr ?_⟩
  · intro f hf _ _
    obtain rfl := List.mem_singleton.mp hf
    exact Or.inl ⟨rfl, by decide, by decide⟩
  · intro e he
    obtain rfl := List.mem_singleton.mp he
    exact ⟨noteInput, rfl, trivial⟩

/-- A whole number of a number field comes back with a fraction, and an empty text is dropped from
the inputs. -/
theorem five_becomes_float :
    (Faithful fiveTexts (isFloatText · = true) (.number (.int 5)) ∧
      Faithful fiveTexts (isFloatText · = true) (.string "")) ∧
    ((fivePlan "number").fields.map (·.id)).Nodup ∧
    projectStepEdits fiveTexts (fromStepPlan fiveTexts (fivePlan "number")) (fivePlan "number") =
      .ofList [(0, .number (.float "5.0"))] ∧
    projectStepEdits fiveTexts (fromStepPlan fiveTexts (fivePlan "number")) (fivePlan "number") ≠
      ∅ ∧
    projectInputs fiveTexts (buildInputsForm fiveTexts true true [noteInput]
      (.ofList [("note", .string "")])) ≠ .ofList [("note", .string "")] :=
  ⟨⟨faithful_five, faithful_string (by decide)⟩, by decide, by decide, by decide, by decide⟩

end UntouchedForms
