import AgsCli.Workflow.Assemble
import AgsCli.Workflow.PathGrammar
import AgsCli.Workflow.ReviewPlan
import Mathlib.Data.List.TakeWhile

/-! # Roots of binding fields

Auto-derivation and request assembly cut a binding field at its first dot or bracket, the review
plan at its first dot and only then at a bracket. The two cuts differ on the fields with a bracket
in front of the first dot. -/
namespace BindingRoots

open OrderedMap Json CatalogueTypes ProtocolError WorkflowTypes WorkflowContext NestedPath
  AutoDerive Resolve ReviewPlan Assemble

/-- `build_review_roots`, one binding: its root's review flag, and the root itself. -/
def addReviewRoot (acc : BTreeMap String Bool × List String) (binding : StepInputBinding) :
    BTreeMap String Bool × List String :=
  let root := reviewRoot binding.field
  let entry := (acc.1.get? root).getD false
  let entry := if isNestedField binding.field then entry else entry || binding.showInReview
  (acc.1.insert root entry, acc.2 ++ [root])

def buildReviewRoots (step : CompiledStep) : BTreeMap String Bool × List String :=
  step.inputs.foldl addReviewRoot (.empty, [])

def BracketBeforeDot (field : String) : Prop :=
  '.' ∈ field.toList ∧ '[' ∈ field.toList.takeWhile (· ≠ '.')

instance (field : String) : Decidable (BracketBeforeDot field) :=
  inferInstanceAs (Decidable (_ ∧ _))

/-- The binding's field is a path with this leading key. -/
def Sets (binding : StepInputBinding) (key : String) : Prop :=
  ∃ rest, parse binding.field = .ok (.key key :: rest)

/-- A row of its own; rows go by their field's name. -/
def Shown (plan : StepFieldPlan) (name : String) : Prop :=
  ∃ row ∈ plan.fields, row.field = name ∧ row.bodyOverflow = false

/-- A property of the overflow row's schema. -/
def Offered (plan : StepFieldPlan) (name : String) : Prop :=
  ∃ row ∈ plan.fields, row.bodyOverflow = true ∧
    (((row.schema.get? "properties").bind (·.get? name)).isSome = true)

section Cuts

variable {field : String}

theorem rootName_chars (field : String) : (rootName field).toList =
    (field.toList.takeWhile (· ≠ '.')).takeWhile (· ≠ '[') := by
  rw [rootName, String.toList_ofList, List.takeWhile_takeWhile]
  congr 1
  funext c
  simp [Bool.and_comm]

theorem open_not_mem_rootName (field : String) : '[' ∉ (rootName field).toList := by
  intro hopen
  rw [rootName_chars] at hopen
  simpa using List.mem_takeWhile_imp hopen

theorem takeWhile_ne {c : Char} {chars : List Char} (h : c ∉ chars) :
    chars.takeWhile (· ≠ c) = chars :=
  List.takeWhile_eq_self_iff.mpr fun _ hd => decide_eq_true (ne_of_mem_of_not_mem hd h)

/-- The review plan's cut is the other one exactly on the fields without a bracket in front of
their first dot. -/
theorem reviewRoot_eq_iff : reviewRoot field = rootName field ↔ ¬BracketBeforeDot field := by
  by_cases hdot : '.' ∈ field.toList
  · have hcut : (reviewRoot field).toList = field.toList.takeWhile (· ≠ '.') := by
      rw [reviewRoot, if_pos (by simpa using hdot), String.toList_ofList]
    constructor
    · intro heq hbracket
      apply open_not_mem_rootName field
      rw [← heq, hcut]
      exact hbracket.2
    · intro hno
      have hopen : '[' ∉ field.toList.takeWhile (· ≠ '.') := fun h => hno ⟨hdot, h⟩
      apply String.toList_inj.mp
      rw [rootName_chars, takeWhile_ne hopen, hcut]
  · constructor
    · exact fun _ hbracket => hdot hbracket.1
    · intro _
      apply String.toList_inj.mp
      rw [rootName_chars, takeWhile_ne hdot, reviewRoot, if_neg (by simpa using hdot),
        String.toList_ofList]

theorem reviewRoot_eq_key_iff {key : String} (hkey : '[' ∉ key.toList) :
    reviewRoot field = key ↔ rootName field = key ∧ ¬BracketBeforeDot field := by
  by_cases hbracket : BracketBeforeDot field
  · have hcut : '[' ∈ (reviewRoot field).toList := by
      rw [reviewRoot, if_pos (by simpa using hbracket.1), String.toList_ofList]
      exact hbracket.2
    constructor
    · rintro rfl
      exact absurd hcut hkey
    · exact fun h => absurd hbracket h.2
  · rw [reviewRoot_eq_iff.mpr hbracket, and_iff_left hbracket]

/-- A leading key and what stands behind it. -/
theorem chars_of_parse {key : String} {rest : FieldPath}
    (h : parse field = .ok (.key key :: rest)) :
    ∃ more, field.toList = key.toList ++ more ∧ key.toList ≠ [] ∧ '.' ∉ key.toList ∧
      '[' ∉ key.toList ∧ ∀ c, more.head? = some c → c = '.' ∨ c = '[' := by
  obtain ⟨ps, hps, hsegments⟩ := PathGrammar.spells_of_parse h
  obtain ⟨⟨dotted, item⟩, ps, rfl⟩ := List.exists_cons_of_ne_nil hps.nonempty
  obtain ⟨hstart, hformed, hrest⟩ := hps.readable
  have hstart : dotted = false := hstart
  cases item with
  | index text => cases hsegments
  | key name =>
    obtain ⟨hne, hdot, hopen⟩ := hformed
    obtain ⟨rfl⟩ : key = String.ofList name := by
      injection hsegments with hkey
      injection hkey
    refine ⟨PathGrammar.spell ps, ?_⟩
    rw [String.toList_ofList]
    refine ⟨?_, hne, hdot, hopen, fun c hc => PathGrammar.head_behind_key hrest c hc⟩
    rw [hps.chars, PathGrammar.spell_cons, PathGrammar.Piece.spelling, hstart]
    rfl

/-- A leading key is the text in front of the first dot or bracket. -/
theorem rootName_of_parse {key : String} {rest : FieldPath}
    (h : parse field = .ok (.key key :: rest)) : rootName field = key := by
  obtain ⟨more, hchars, -, hdot, hopen, hmore⟩ := chars_of_parse h
  apply String.toList_inj.mp
  rw [rootName, String.toList_ofList, hchars, List.takeWhile_append_of_pos]
  · cases more with
    | nil => simp
    | cons c more =>
      rw [List.takeWhile_cons_of_neg, List.append_nil]
      rcases hmore c rfl with rfl | rfl <;> decide
  · intro c hc
    simp [ne_of_mem_of_not_mem hc hdot, ne_of_mem_of_not_mem hc hopen]

theorem key_plain {key : String} {rest : FieldPath} (h : parse field = .ok (.key key :: rest)) :
    isNestedField key = false ∧ key ≠ "" := by
  obtain ⟨more, -, hne, hdot, hopen, -⟩ := chars_of_parse h
  constructor
  · rw [isNestedField, List.any_eq_false]
    intro c hc
    simp [ne_of_mem_of_not_mem hc hdot, ne_of_mem_of_not_mem hc hopen]
  · rintro rfl
    exact hne rfl

theorem rootName_of_plain (h : isNestedField field = false) :
    rootName field = field ∧ ¬BracketBeforeDot field := by
  have hno : ∀ c ∈ field.toList, ¬(c = '.' || c = '[') = true := List.any_eq_false.mp h
  have hdot : '.' ∉ field.toList := fun hc => hno _ hc rfl
  have hopen : '[' ∉ field.toList := fun hc => hno _ hc rfl
  refine ⟨?_, fun hbracket => hdot hbracket.1⟩
  apply String.toList_inj.mp
  rw [rootName_chars, takeWhile_ne hdot, takeWhile_ne hopen]

end Cuts

section Roots

theorem buildReviewRoots_append (inputs : List StepInputBinding)
    (acc : BTreeMap String Bool × List String) :
    (inputs.foldl addReviewRoot acc).2 = acc.2 ++ inputs.map (reviewRoot ·.field) ∧
      ∀ root, ((inputs.foldl addReviewRoot acc).1.get? root).getD false =
        ((acc.1.get? root).getD false || inputs.any fun b =>
          !isNestedField b.field && reviewRoot b.field = root && b.showInReview) := by
  induction inputs generalizing acc with
  | nil => simp
  | cons b inputs ih =>
    obtain ⟨hroots, hflags⟩ := ih (addReviewRoot acc b)
    refine ⟨by rw [List.foldl_cons, hroots]; simp [addReviewRoot], fun root => ?_⟩
    rw [List.foldl_cons, hflags, List.any_cons, ← Bool.or_assoc]
    congr 1
    unfold addReviewRoot
    extract_lets name entry flag
    rw [BTreeMap.get?_insert]
    by_cases hroot : root = name
    · subst hroot
      rw [if_pos rfl, Option.getD_some]
      by_cases hnested : isNestedField b.field = true
      · simp [flag, entry, hnested]
      · simp [flag, entry, hnested, name]
    · rw [if_neg hroot]
      simp [name, Ne.symm hroot]

/-- The plan reads its roots and its review flags from `build_review_roots`. -/
theorem buildReviewRoots_reads (step : CompiledStep) :
    (buildReviewRoots step).2 = boundRoots step ∧ ∀ root,
      ((buildReviewRoots step).1.get? root).getD false = showInReviewByRoot step root := by
  obtain ⟨hroots, hflags⟩ := buildReviewRoots_append step.inputs (.empty, [])
  refine ⟨hroots, fun root => ?_⟩
  rw [buildReviewRoots, hflags, showInReviewByRoot, BTreeMap.get?_empty]
  simp only [Option.getD_none, Bool.false_or]
  congr 1
  funext b
  by_cases hnested : isNestedField b.field = true
  · simp [hnested]
  · obtain ⟨hroot, hbracket⟩ := rootName_of_plain (by simpa using hnested)
    have hself : reviewRoot b.field = b.field := (reviewRoot_eq_iff.mpr hbracket).trans hroot
    rw [hself]

theorem addReviewRoot_iff {binding : StepInputBinding} {key : String} (h : Sets binding key) :
    (∀ acc, ∃ flag, addReviewRoot acc binding = (acc.1.insert key flag, acc.2 ++ [key])) ↔
      ¬BracketBeforeDot binding.field := by
  obtain ⟨rest, h⟩ := h
  rw [← reviewRoot_eq_iff, rootName_of_parse h]
  constructor
  · intro hall
    obtain ⟨flag, heq⟩ := hall (.empty, [])
    simpa [addReviewRoot] using congrArg Prod.snd heq
  · intro hroot acc
    unfold addReviewRoot
    rw [hroot]
    exact ⟨_, rfl⟩

end Roots

section Rows

variable {step : CompiledStep} {scope : StepScope} {specs : List WorkflowInputSpec}
  {defaultNames : List String}

/-- The names seen are those of the rows pushed, and the overflow row is not among them. -/
structure Tracked (acc : PlanState) : Prop where
  seen : ∀ name, name ∈ acc.seen ↔ ∃ row ∈ acc.fields, row.field = name
  own : ∀ row ∈ acc.fields, row.bodyOverflow = false

theorem pushField_tracked {acc acc' : PlanState} {name : String} {description : Option String}
    {location : StepFieldLocation} {schema : Value} {required showInReview : Bool}
    (h : pushField scope step.inputs defaultNames acc name description location schema required
      showInReview = .ok acc') (hacc : Tracked acc) :
    Tracked acc' ∧ ∀ k, k ∈ acc'.seen ↔ k ∈ acc.seen ∨ k = name := by
  unfold pushField at h
  split at h
  · rename_i hseen
    obtain rfl := Except.ok.inj h
    have hmem : name ∈ acc.seen := by simpa using hseen
    refine ⟨hacc, fun k => ⟨Or.inl, ?_⟩⟩
    rintro (hk | rfl)
    · exact hk
    · exact hmem
  · split at h
    · cases h
    · obtain rfl := Except.ok.inj h
      refine ⟨⟨fun k => ?_, ?_⟩, fun k => by simp [or_comm]⟩
      · simp [hacc.seen, or_comm, eq_comm]
      · intro row hrow
        rcases List.mem_append.mp hrow with hrow | hrow
        · exact hacc.own row hrow
        · rw [List.mem_singleton.mp hrow]

theorem pushParams_tracked {params : List ParameterSchema} {acc acc' : PlanState}
    (h : pushParams step scope specs defaultNames params acc = .ok acc') (hacc : Tracked acc) :
    Tracked acc' ∧ ∀ k, k ∈ acc'.seen ↔
      k ∈ acc.seen ∨ ∃ param ∈ params, param.location ≠ .body ∧ param.name = k := by
  induction params generalizing acc with
  | nil =>
    obtain rfl := Except.ok.inj h
    simpa using hacc
  | cons param params ih =>
    unfold pushParams at h
    split at h
    · rename_i hbody
      obtain ⟨htracked, hseen⟩ := ih h hacc
      exact ⟨htracked, fun k => by simp [hseen, hbody]⟩
    · rename_i hbody
      extract_lets description at h
      split at h
      · cases h
      · rename_i mid hpush
        obtain ⟨hmid, hname⟩ := pushField_tracked hpush hacc
        obtain ⟨htracked, hseen⟩ := ih h hmid
        refine ⟨htracked, fun k => ?_⟩
        have hown : k = param.name ↔ param.location ≠ .body ∧ param.name = k := by
          rw [and_iff_right hbody, eq_comm]
        rw [hseen, hname, or_assoc, hown]
        simp only [List.mem_cons, exists_eq_or_imp]

/-- A name gets a row or goes to the overflow by the first body field of that name. -/
theorem pushBodyFields_tracked {fields : List BodyField} {acc acc' : PlanState}
    {overflow overflow' : List BodyField}
    (h : pushBodyFields step scope specs defaultNames fields acc overflow = .ok (acc', overflow'))
    (hacc : Tracked acc) :
    Tracked acc' ∧ ∀ k, (k ∈ acc'.seen ∧ k ∉ overflow'.map (·.name) ↔
      k ∉ overflow.map (·.name) ∧ (k ∈ acc.seen ∨
        ∃ field, fields.find? (·.name = k) = some field ∧
          isIndividual step scope field = true)) := by
  induction fields generalizing acc overflow with
  | nil =>
    cases Except.ok.inj h
    exact ⟨hacc, fun k => by simp [and_comm]⟩
  | cons field fields ih =>
    unfold pushBodyFields at h
    split at h
    · rename_i hown
      split at h
      · cases h
      · rename_i mid hpush
        obtain ⟨hmid, hname⟩ := pushField_tracked hpush hacc
        obtain ⟨htracked, hrows⟩ := ih h hmid
        refine ⟨htracked, fun k => ?_⟩
        rw [hrows, hname]
        by_cases hk : field.name = k
        · simp [hk, hown]
        · simp [hk, Ne.symm hk]
    · rename_i hown
      split at h
      · rename_i hseen
        obtain ⟨htracked, hrows⟩ := ih h hacc
        refine ⟨htracked, fun k => ?_⟩
        rw [hrows]
        by_cases hk : field.name = k
        · subst hk
          have hmem : field.name ∈ acc.seen := by simpa using hseen
          simp [hmem]
        · simp [hk]
      · rename_i hseen
        obtain ⟨htracked, hrows⟩ := ih h hacc
        refine ⟨htracked, fun k => ?_⟩
        rw [hrows]
        by_cases hk : field.name = k
        · subst hk
          have hnot : field.name ∉ acc.seen := by simpa using hseen
          simp [hnot, hown]
        · simp [hk, Ne.symm hk]

/-- The rows of nested literals come behind the others, under their bindings' fields. -/
theorem pushNestedLiterals_append (stepLocal : Values) (inputs : List StepInputBinding)
    (fields : List StepField) :
    ∃ literals, pushNestedLiterals stepLocal inputs fields = fields ++ literals ∧
      ∀ row ∈ literals, row.field ∈ inputs.map (·.field) ∧ isNestedField row.field = true ∧
        row.bodyOverflow = false := by
  induction inputs generalizing fields with
  | nil => exact ⟨[], (List.append_nil fields).symm, nofun⟩
  | cons b inputs ih =>
    have hlater : ∀ row : StepField, row.field ∈ inputs.map (·.field) →
        row.field ∈ (b :: inputs).map (·.field) := fun _ => List.mem_cons_of_mem _
    unfold pushNestedLiterals
    split
    · rename_i literal hliteral
      obtain ⟨literals, heq, hrows⟩ := ih (fields ++ [literal])
      refine ⟨literal :: literals, by rw [heq, List.append_assoc]; rfl, fun row hrow => ?_⟩
      rcases List.mem_cons.mp hrow with rfl | hrow
      · unfold nestedLiteralField? at hliteral
        split_ifs at hliteral with hskip
        split at hliteral
        · obtain rfl := Option.some.inj hliteral
          simp only [Bool.or_eq_true, not_or, Bool.not_eq_true', Bool.not_eq_false] at hskip
          exact ⟨List.mem_cons_self, hskip.1, rfl⟩
        · cases hliteral
      · exact ⟨hlater row (hrows row hrow).1, (hrows row hrow).2⟩
    · obtain ⟨literals, heq, hrows⟩ := ih fields
      exact ⟨literals, heq, fun row hrow => ⟨hlater row (hrows row hrow).1, (hrows row hrow).2⟩⟩

theorem get?_ofPairs_isSome {pairs : List (String × Value)} {k : String} :
    ((Value.ofPairs pairs).get? k).isSome = true ↔ k ∈ pairs.map Prod.fst := by
  have hfold : ∀ acc : List (String × Value),
      (Entries.lookup k (pairs.foldl (fun acc e => Entries.insert e.1 e.2 acc) acc)).isSome = true ↔
        (Entries.lookup k acc).isSome = true ∨ k ∈ pairs.map Prod.fst := by
    induction pairs with
    | nil => simp
    | cons e pairs ih =>
      intro acc
      rw [List.foldl_cons, ih, Entries.lookup_insert]
      by_cases hk : k = e.1
      · simp [hk]
      · simp [hk]
  rw [Value.ofPairs, Value.get?, hfold]
  simp

theorem overflowField_offers {id : StepFieldId} {overflow : List BodyField} {k : String} :
    ((((overflowField id overflow).schema.get? "properties").bind (·.get? k)).isSome = true) ↔
      k ∈ overflow.map (·.name) := by
  have hproperties : (overflowField id overflow).schema.get? "properties" =
      some (.ofPairs (overflow.map fun f => (f.name, bodyFieldSchema f))) := by
    simp [overflowField, Value.ofPairs, Value.get?]
  rw [hproperties, Option.bind_some, get?_ofPairs_isSome, List.map_map]
  rfl

/-- The rows of a plan, from the names seen and the names in the overflow. -/
theorem plan_rows {acc : PlanState} {overflow : List BodyField} {stepLocal : Values}
    {plan : StepFieldPlan} {k : String} (hacc : Tracked acc) (hplain : isNestedField k = false)
    (hname : k ≠ "")
    (hfields : plan.fields = pushNestedLiterals stepLocal step.inputs (withOverflow acc overflow)) :
    (Shown plan k ↔ k ∈ acc.seen) ∧ (Offered plan k ↔ k ∈ overflow.map (·.name)) := by
  obtain ⟨literals, hliterals, hnested⟩ :=
    pushNestedLiterals_append stepLocal step.inputs (withOverflow acc overflow)
  rw [hliterals] at hfields
  have hrow : ∀ row ∈ plan.fields, row ∈ acc.fields ∨
      (row = overflowField acc.fields.length overflow ∧ overflow ≠ []) ∨
        isNestedField row.field = true ∧ row.bodyOverflow = false := by
    intro row hrow
    rw [hfields] at hrow
    rcases List.mem_append.mp hrow with hmem | hmem
    · unfold withOverflow at hmem
      split_ifs at hmem with hempty
      · exact Or.inl hmem
      · rcases List.mem_append.mp hmem with hmem | hmem
        · exact Or.inl hmem
        · exact Or.inr (Or.inl ⟨List.mem_singleton.mp hmem, by simpa using hempty⟩)
    · exact Or.inr (Or.inr (hnested row hmem).2)
  constructor
  · constructor
    · rintro ⟨row, hmem, rfl, hown⟩
      rcases hrow row hmem with hmem | ⟨rfl, -⟩ | ⟨hnested, -⟩
      · exact (hacc.seen _).mpr ⟨row, hmem, rfl⟩
      · cases hown
      · rw [hplain] at hnested
        cases hnested
    · intro hseen
      obtain ⟨row, hmem, rfl⟩ := (hacc.seen _).mp hseen
      refine ⟨row, ?_, rfl, hacc.own row hmem⟩
      rw [hfields]
      apply List.mem_append_left
      unfold withOverflow
      split_ifs
      · exact hmem
      · exact List.mem_append_left _ hmem
  · constructor
    · rintro ⟨row, hmem, hoverflow, hoffer⟩
      rcases hrow row hmem with hmem | ⟨rfl, -⟩ | ⟨-, hown⟩
      · rw [hacc.own row hmem] at hoverflow
        cases hoverflow
      · exact overflowField_offers.mp hoffer
      · rw [hown] at hoverflow
        cases hoverflow
    · intro hoffer
      refine ⟨overflowField acc.fields.length overflow, ?_, rfl, overflowField_offers.mpr hoffer⟩
      rw [hfields]
      apply List.mem_append_left
      have hne : overflow.isEmpty = false := by
        cases overflow with
        | nil => cases hoffer
        | cons f overflow => rfl
      simp [withOverflow, hne]

section Plans

variable {ctx : Context} {supplied stepLocal : Values} {serviceSchema : ServiceSchema}
  {plan : StepFieldPlan} {opRef : OperationReference} {operation : OperationSchema}

/-- The rows of the parameters, of the body fields behind them, and of the nested literals. -/
theorem resolveStepFields_ok (hstep : step.operation = some opRef)
    (hoperation : findOperation serviceSchema opRef.operation = some operation)
    (hplan : resolveStepFields step ctx supplied stepLocal specs serviceSchema defaultNames =
      .ok plan) :
    ∃ params acc overflow,
      pushParams step (stepScope step ctx supplied stepLocal specs) specs defaultNames
        operation.parameters ⟨[], []⟩ = .ok params ∧
      pushBodyFields step (stepScope step ctx supplied stepLocal specs) specs defaultNames
        operation.bodyFields params [] = .ok (acc, overflow) ∧
      plan.fields = pushNestedLiterals stepLocal step.inputs (withOverflow acc overflow) := by
  unfold resolveStepFields at hplan
  rw [hstep] at hplan
  obtain ⟨opRef', href, hrest⟩ := Checks.bind_eq_ok.mp hplan
  obtain rfl := Except.ok.inj href
  obtain ⟨operation', hfound, hpushes⟩ := Checks.bind_eq_ok.mp hrest
  rw [findOperationOrError, hoperation] at hfound
  obtain rfl := Except.ok.inj hfound
  extract_lets scope at hpushes
  obtain ⟨params, hparams, hbodies⟩ := Checks.bind_eq_ok.mp hpushes
  obtain ⟨⟨acc, overflow⟩, hbody, hrows⟩ := Checks.bind_eq_ok.mp hbodies
  exact ⟨params, acc, overflow, hparams, hbody,
    congrArg StepFieldPlan.fields (Except.ok.inj hrows).symm⟩

theorem resolveStepFields_rows {k : String} (hstep : step.operation = some opRef)
    (hoperation : findOperation serviceSchema opRef.operation = some operation)
    (hplan : resolveStepFields step ctx supplied stepLocal specs serviceSchema defaultNames =
      .ok plan) (hplain : isNestedField k = false) (hname : k ≠ "") :
    (Shown plan k ∧ ¬Offered plan k) ↔
      (∃ param ∈ operation.parameters, param.location ≠ .body ∧ param.name = k) ∨
        ∃ field, operation.bodyFields.find? (·.name = k) = some field ∧
          isIndividual step (stepScope step ctx supplied stepLocal specs) field = true := by
  obtain ⟨params, acc, overflow, hparams, hbody, hfields⟩ :=
    resolveStepFields_ok hstep hoperation hplan
  obtain ⟨htracked, hseen⟩ := pushParams_tracked hparams ⟨by simp, by simp⟩
  obtain ⟨hacc, hfirst⟩ := pushBodyFields_tracked hbody htracked
  obtain ⟨hshown, hoffered⟩ := plan_rows hacc hplain hname hfields
  rw [hshown, hoffered, hfirst, hseen]
  simp only [List.map_nil, List.not_mem_nil, not_false_eq_true, true_and, false_or]

end Plans

/-- The first body field of a name has its own row by its bindings, its input or its schema. -/
theorem isIndividual_iff {ctx : Context} {supplied stepLocal : Values} {field : BodyField}
    (hplain : isNestedField field.name = false) :
    isIndividual step (stepScope step ctx supplied stepLocal specs) field = true ↔
      (∃ b ∈ step.inputs, rootName b.field = field.name ∧ ¬BracketBeforeDot b.field) ∨
        field.name ∈ specs.map (·.name) ∨ field.required = true := by
  have hopen : '[' ∉ field.name.toList := fun hc => List.any_eq_false.mp hplain _ hc rfl
  have hroots : field.name ∈ boundRoots step ↔
      ∃ b ∈ step.inputs, rootName b.field = field.name ∧ ¬BracketBeforeDot b.field := by
    simp only [boundRoots, List.mem_map, reviewRoot_eq_key_iff hopen]
  have hbound : ((stepScope step ctx supplied stepLocal specs).bindings.get? field.name).isSome =
      true → field.name ∈ boundRoots step := by
    intro hbound
    obtain ⟨e, hmem, hfield⟩ := List.mem_map.mp (BTreeMap.contains_ofList.mp hbound)
    obtain ⟨b, hb, rfl⟩ := List.mem_map.mp hmem
    have hfield : b.field = field.name := hfield
    obtain ⟨hroot, hbracket⟩ := rootName_of_plain hplain
    exact hroots.mpr ⟨b, hb, by rw [hfield, hroot], by rw [hfield]; exact hbracket⟩
  rw [← hroots, isIndividual]
  simp only [Bool.or_eq_true, List.contains_iff_mem, stepScope]
  constructor
  · rintro (((hb | hr) | hi) | hreq)
    · exact Or.inl (hbound hb)
    · exact Or.inl hr
    · exact Or.inr (Or.inl hi)
    · exact Or.inr (Or.inr hreq)
  · rintro (hr | hi | hreq)
    · exact Or.inl (Or.inl (Or.inr hr))
    · exact Or.inl (Or.inr hi)
    · exact Or.inr hreq

end Rows

section Requests

variable {step : CompiledStep} {scope : StepScope}

def missingBodyField (step : CompiledStep) (name : String) : RuntimeError :=
  .validation s!"step '{step.id}' is missing required body field '{name}'"

theorem resolveReference_error {ctx : Context} {supplied : Values} {r : ReferenceBinding}
    {e : RuntimeError} (h : resolveReference ctx supplied r = .error e) : e.kind = .internal := by
  unfold resolveReference at h
  split at h
  · split at h <;> cases h
  · split at h
    · obtain rfl := Except.error.inj h
      rfl
    · split at h
      · cases h
      · obtain rfl := Except.error.inj h
        rfl

theorem resolveBinding_error {source : BindingSource} {e : RuntimeError}
    (h : scope.resolveBinding source = .error e) : e.kind = .internal := by
  unfold StepScope.resolveBinding resolveBinding at h
  split at h
  · cases h
  · exact resolveReference_error h
  · cases h
  · split at h
    · cases h
    · split at h
      · obtain rfl := Except.error.inj h
        rfl
      · obtain rfl := Except.error.inj h
        rfl
      · cases h
      · exact resolveReference_error h
      · cases h

theorem resolveFieldValue_error {name : String} {e : RuntimeError}
    (h : resolveFieldValue scope name = .error e) : e.kind = .internal := by
  unfold resolveFieldValue at h
  split at h
  · cases h
  · split at h
    · exact resolveBinding_error h
    · split at h <;> cases h

theorem not_missing_of_internal {e : RuntimeError} {name : String} (h : e.kind = .internal) :
    e ≠ missingBodyField step name := by
  rintro rfl
  cases h

theorem missingBodyField_inj {a b : String}
    (h : missingBodyField step a = missingBodyField step b) : a = b := by
  have hchars := congrArg (fun e : RuntimeError => e.message.toList) h
  apply String.toList_inj.mp
  simpa [missingBodyField, RuntimeError.validation, toString] using hchars

theorem collectParams_error {params : List ParameterSchema} {acc : NonBodyParams} {name : String} :
    collectParams step scope params acc ≠ .error (missingBodyField step name) := by
  induction params generalizing acc with
  | nil => exact nofun
  | cons param params ih =>
    unfold collectParams
    split
    · exact ih
    · split
      · rename_i e he
        exact fun h => not_missing_of_internal (resolveFieldValue_error he) (Except.error.inj h)
      · exact ih
      · split
        · intro h
          have hchars := congrArg (fun e : RuntimeError => e.message.toList) (Except.error.inj h)
          simp [missingBodyField, RuntimeError.validation, toString] at hchars
        · exact ih

theorem validateAndBuildFilePart_error {files : String → FileStatus} {field path name : String} :
    validateAndBuildFilePart files field path ≠ .error (missingBodyField step name) := by
  intro h
  unfold validateAndBuildFilePart at h
  split at h
  · have hchars := congrArg (fun e : RuntimeError => e.message.toList) (Except.error.inj h)
    simp [missingBodyField, RuntimeError.validation, toString] at hchars
  · have hchars := congrArg (fun e : RuntimeError => e.message.toList) (Except.error.inj h)
    simp [missingBodyField, RuntimeError.validation, toString] at hchars
  · cases h

theorem collectFormParts_error {files : String → FileStatus} {params : List ParameterSchema}
    {name : String} :
    collectFormParts files step scope params ≠ .error (missingBodyField step name) := by
  induction params with
  | nil => exact nofun
  | cons param params ih =>
    unfold collectFormParts
    split
    · exact ih
    · split
      · rename_i e he
        exact fun h => not_missing_of_internal (resolveFieldValue_error he) (Except.error.inj h)
      · split
        · intro h
          have hchars := congrArg (fun e : RuntimeError => e.message.toList) (Except.error.inj h)
          simp [missingBodyField, RuntimeError.validation, toString] at hchars
        · exact ih
      · intro h
        extract_lets text attach at h
        have hattach : ∀ part, attach part ≠ .error (missingBodyField step name) := by
          intro part hpart
          rcases Checks.bind_eq_error.mp hpart with hrest | ⟨parts, -, hok⟩
          · exact ih hrest
          · cases hok
        split_ifs at h
        · rcases Checks.bind_eq_error.mp h with hpart | ⟨part, -, hparts⟩
          · exact validateAndBuildFilePart_error hpart
          · exact hattach part hparts
        · rcases Checks.bind_eq_error.mp h with hpart | ⟨part, -, hparts⟩
          · cases hpart
          · exact hattach part hparts

theorem assembleFields_error {fields : List BodyField} {body : List (String × Value)}
    {name : String} (hnested : name ∈ nestedBindingRoots step) :
    assembleFields step scope fields body ≠ .error (missingBodyField step name) := by
  induction fields generalizing body with
  | nil => exact nofun
  | cons field fields ih =>
    unfold assembleFields
    split
    · rename_i e he
      exact fun h => not_missing_of_internal (resolveFieldValue_error he) (Except.error.inj h)
    · exact ih
    · split
      · rename_i hmissing
        intro h
        obtain rfl := missingBodyField_inj (Except.error.inj h)
        simp [hnested] at hmissing
      · exact ih

theorem mergeBindings_error {inputs : List StepInputBinding} {body : Value} {name : String} :
    mergeBindings scope inputs body ≠ .error (missingBodyField step name) := by
  induction inputs generalizing body with
  | nil => exact nofun
  | cons b inputs ih =>
    unfold mergeBindings
    split
    · exact ih
    · split
      · rename_i e he
        unfold resolveNested at he
        split at he
        · cases he
        · exact fun h => not_missing_of_internal (resolveBinding_error he) (Except.error.inj h)
      · exact ih
      · exact ih

theorem assembleBody_error {operation : OperationSchema} {options : RequestTypes.RunOptions}
    {name : String} (hnested : name ∈ nestedBindingRoots step) :
    assembleBody operation step scope options ≠ .error (missingBodyField step name) := by
  intro h
  unfold assembleBody at h
  split at h
  · cases h
  · rcases Checks.bind_eq_error.mp h with hfields | ⟨fields, -, hmerge⟩
    · exact assembleFields_error hnested hfields
    · rcases Checks.bind_eq_error.mp hmerge with hbody | ⟨body, -, hok⟩
      · exact mergeBindings_error hbody
      · cases hok

theorem assembleCommandRequest_error {files : String → FileStatus} {ctx : Context}
    {supplied stepLocal : Values} {specs : List WorkflowInputSpec} {serviceSchema : ServiceSchema}
    {«namespace» : Option String} {options : RequestTypes.RunOptions} {name : String}
    (hnested : name ∈ nestedBindingRoots step) :
    assembleCommandRequest files step ctx supplied stepLocal specs serviceSchema «namespace»
      options ≠ .error (missingBodyField step name) := by
  intro h
  unfold assembleCommandRequest at h
  cases hstep : step.operation with
  | none =>
    rw [hstep] at h
    cases h
  | some opRef =>
    rw [hstep] at h
    rcases Checks.bind_eq_error.mp h with href | ⟨opRef', -, hrest⟩
    · cases href
    rcases Checks.bind_eq_error.mp hrest with hfound | ⟨operation, -, hparams⟩
    · unfold findOperationOrError at hfound
      split at hfound
      · cases hfound
      · exact not_missing_of_internal rfl (Except.error.inj hfound)
    extract_lets scope at hparams
    rcases Checks.bind_eq_error.mp hparams with hbad | ⟨params, -, hforms⟩
    · exact collectParams_error hbad
    rcases Checks.bind_eq_error.mp hforms with hbad | ⟨formParts, -, hbody⟩
    · unfold resolveFormDataParams at hbad
      rcases Checks.bind_eq_error.mp hbad with hparts | ⟨parts, -, hok⟩
      · exact collectFormParts_error hparts
      · cases hok
    extract_lets request at hbody
    cases formParts with
    | some parts =>
      rcases Checks.bind_eq_error.mp hbody with hbad | ⟨body, -, hok⟩
      · cases hbad
      · cases hok
    | none =>
      rcases Checks.bind_eq_error.mp hbody with hbad | ⟨json, -, hrequest⟩
      · exact assembleBody_error hnested hbad
      · rcases Checks.bind_eq_error.mp hrequest with hbad | ⟨body, -, hok⟩
        · cases hbad
        · cases hok

end Requests

theorem autoDeriveStep_unbound {definition : StepDefinition} {serviceSchema : ServiceSchema}
    {workflowInputs : List WorkflowInputSpec} {derived : List AutoDerivedField}
    {binding : StepInputBinding} {key : String} (hbinding : binding ∈ definition.inputs)
    (hsets : Sets binding key)
    (hderived : autoDeriveStep definition serviceSchema workflowInputs = .ok derived) :
    ∀ d ∈ derived, d.field ≠ key := by
  obtain ⟨rest, hparse⟩ := hsets
  have hbound : key ∈ boundFields definition.inputs := by
    refine List.mem_flatMap.mpr ⟨binding, hbinding, ?_⟩
    rw [rootName_of_parse hparse]
    by_cases hself : key = binding.field
    · simp [hself]
    · simp [hself]
  unfold autoDeriveStep at hderived
  cases hstep : definition.operation with
  | none =>
    rw [hstep] at hderived
    cases hderived
  | some opRef =>
    rw [hstep] at hderived
    obtain ⟨opRef', -, hrest⟩ := Checks.bind_eq_ok.mp hderived
    obtain ⟨operation, -, hfields⟩ := Checks.bind_eq_ok.mp hrest
    obtain rfl := Except.ok.inj hfields
    rintro d hd rfl
    rcases List.mem_append.mp hd with hd | hd
    · obtain ⟨param, hparam, rfl⟩ := List.mem_map.mp hd
      have hfree := (List.mem_filter.mp hparam).2
      simp [derivedParameter] at hbound
      simp [hbound] at hfree
    · obtain ⟨field, hfield, rfl⟩ := List.mem_map.mp hd
      have hfree := (List.mem_filter.mp hfield).2
      simp [derivedBodyField] at hbound
      simp [hbound] at hfree

/-- Some binding of the key is cut at it by the review plan, or the key has a row by its schema, by
a declared input or by a parameter of its name. -/
def RowGiven (step : CompiledStep) (operation : OperationSchema) (specs : List WorkflowInputSpec)
    (field : BodyField) : Prop :=
  (∃ b ∈ step.inputs, rootName b.field = field.name ∧ ¬BracketBeforeDot b.field) ∨
    field.name ∈ specs.map (·.name) ∨ field.required = true ∨
    ∃ param ∈ operation.parameters, param.location ≠ .body ∧ param.name = field.name

/-- A binding's leading key is its root for auto-derivation and assembly, and for the review plan
exactly without a bracket in front of the first dot; the body field of the key has a row of its own
and is not offered again exactly when its row is given. -/
theorem binding_roots_iff (step : CompiledStep) (opRef : OperationReference)
    (serviceSchema : ServiceSchema) (operation : OperationSchema) (binding : StepInputBinding)
    (key : String) (hstep : step.operation = some opRef)
    (hoperation : findOperation serviceSchema opRef.operation = some operation)
    (hbinding : binding ∈ step.inputs) (hsets : Sets binding key) :
    rootName binding.field = key ∧
    ((∀ acc, ∃ flag, addReviewRoot acc binding = (acc.1.insert key flag, acc.2 ++ [key])) ↔
      ¬BracketBeforeDot binding.field) ∧
    (∀ ctx supplied stepLocal specs defaultNames plan field,
      resolveStepFields step ctx supplied stepLocal specs serviceSchema defaultNames = .ok plan →
      operation.bodyFields.find? (·.name = key) = some field →
      ((Shown plan key ∧ ¬Offered plan key) ↔ RowGiven step operation specs field)) ∧
    (∀ definition workflowInputs derived, definition.inputs = step.inputs →
      autoDeriveStep definition serviceSchema workflowInputs = .ok derived →
      ∀ d ∈ derived, d.field ≠ key) ∧
    (isNestedField binding.field = true →
      ∀ files ctx supplied stepLocal specs «namespace» options,
        assembleCommandRequest files step ctx supplied stepLocal specs serviceSchema «namespace»
          options ≠ .error (missingBodyField step key)) := by
  obtain ⟨rest, hparse⟩ := hsets
  have hroot : rootName binding.field = key := rootName_of_parse hparse
  refine ⟨hroot, addReviewRoot_iff ⟨rest, hparse⟩, ?_, ?_, ?_⟩
  · intro ctx supplied stepLocal specs defaultNames plan field hplan hfield
    obtain ⟨hplain, hne⟩ := key_plain hparse
    obtain rfl : field.name = key := by simpa using List.find?_some hfield
    rw [resolveStepFields_rows hstep hoperation hplan hplain hne, hfield, RowGiven]
    simp only [Option.some.injEq, exists_eq_left', isIndividual_iff hplain]
    rw [or_comm, or_assoc, or_assoc]
  · intro definition workflowInputs derived hinputs hderived
    exact autoDeriveStep_unbound (hinputs ▸ hbinding) ⟨rest, hparse⟩ hderived
  · intro hnested files ctx supplied stepLocal specs «namespace» options
    refine assembleCommandRequest_error (List.mem_map.mpr ⟨binding, ?_, hroot⟩)
    exact List.mem_filter.mpr ⟨hbinding, hnested⟩

section Hosts

def hostsField : BodyField :=
  ⟨"hosts", .array .object, false, none, [⟨"port", .string, false, none, [], none⟩], none⟩

def hostsOperation : OperationSchema :=
  { id := "Publish", name := "publish", summary := "", description := none
    mutationClass := .mutating, httpMethod := .post, pathTemplate := "/csm/hosts"
    parameters := [], requestBody := some ⟨"Hosts", [hostsField], false, none⟩, permissions := []
    scope := "admin", apiVersion := 1, deprecated := false, responseContentType := none }

def hostsSchema : ServiceSchema :=
  ⟨"csm", "", [⟨"host", "", [⟨"publish", "", some "admin", [⟨"admin", 1, [hostsOperation]⟩]⟩]⟩]⟩

def portBinding : StepInputBinding :=
  ⟨"hosts[0].port", .literal ⟨.string "80", false⟩, true, none⟩

def hostsDefinition : WorkflowDefinition :=
  { id := "hosts", name := "Hosts", briefing := none, inputs := [], isReviewedByDefault := false
    steps := [
      { id := "publish", description := none, kind := .api, action := none
        operation := some ⟨"csm", "Publish"⟩, dependencies := [], confirm := false
        isOptional := false, continueOnFailure := false, skipIfExists := false, isReviewed := none
        inputs := [portBinding], outputs := [] }]
    outputs := [], completion := none }

def hostsStep : CompiledStep :=
  { id := "publish", index := 0, description := none, kind := .api, action := none
    operation := some ⟨"csm", "Publish"⟩, dependencies := [], confirm := false
    isOptional := false, continueOnFailure := false, skipIfExists := false, isReviewed := none
    inputs := [portBinding], outputs := [], autoDerived := [] }

/-- A binding of an element's member. -/
theorem binding_roots_element : rootName portBinding.field = "hosts" :=
  (binding_roots_iff hostsStep ⟨"csm", "Publish"⟩ hostsSchema hostsOperation portBinding "hosts" rfl
    rfl List.mem_cons_self ⟨[.index 0, .key "port"], by decide⟩).1

/-- The compiled step sets `hosts`, and the plan offers `hosts` as an optional field to add. -/
theorem bracketed_root_offered :
    (Compile.compileWorkflow hostsDefinition ⟨fun _ => .ok hostsSchema⟩).map (·.steps) =
      .ok [hostsStep] ∧
    Sets portBinding "hosts" ∧ reviewRoot portBinding.field = "hosts[0]" ∧
    ∃ plan, resolveStepFields hostsStep .new .empty .empty [] hostsSchema [] = .ok plan ∧
      ¬Shown plan "hosts" ∧ Offered plan "hosts" := by
  refine ⟨rfl, ⟨[.index 0, .key "port"], by decide⟩, by decide, _, rfl, ?_, ?_⟩
  · rintro ⟨row, hrow, hfield, hown⟩
    rcases List.mem_cons.mp hrow with rfl | hrow
    · cases hown
    · obtain rfl := List.mem_singleton.mp hrow
      revert hfield
      decide
  · exact ⟨_, List.mem_cons_self, rfl, rfl⟩

end Hosts

end BindingRoots
