import AgsCli.Workflow.BindingRoots
import AgsCli.Workflow.CompileFacts
import AgsCli.Workflow.SubPaths

/-! # Colliding bindings

Compilation keeps two bindings off one leaf by the text of their paths. Assembly writes each value
at its parsed path and replaces what is in the way, so accepted bindings can still overwrite each
other. -/
namespace BindingCollisions

open OrderedMap Json CatalogueTypes ProtocolError RequestTypes WorkflowTypes WorkflowContext
  NestedPath NestedMerge Resolve Assemble SubPaths

def value (scope : StepScope) (binding : StepInputBinding) : Value :=
  match scope.resolveBinding binding.source with
  | .ok (some v) => v
  | _ => .null

/-- The merges of pass 2. -/
def writes (scope : StepScope) (inputs : List StepInputBinding) : List Write :=
  inputs.filterMap fun b => (nestedPath? b.field).map fun path => (path, value scope b)

def isBodyField (operation : OperationSchema) (field : String) : Bool :=
  (operation.bodyFields.map (·.name)).contains field

def bodyPath (operation : OperationSchema) (binding : StepInputBinding) : Option FieldPath :=
  if isNestedField binding.field || isBodyField operation binding.field then
    (parse binding.field).toOption
  else none

/-- A sub-path that is written itself, not as a part of another. -/
def Outermost (writes : List Write) (path : FieldPath) : Prop :=
  path ∈ writes.map Prod.fst ∧ ∀ q ∈ writes.map Prod.fst, q <+: path → q = path

/-- The members of an array body are those of its one element. -/
def envelope (operation : OperationSchema) : FieldPath :=
  if (operation.requestBody.map (·.isArray)).getD false then [.index 0] else []

def readBody (operation : OperationSchema) (body : Option Value) (path : FieldPath) :
    Option Value :=
  body.bind fun v => readAt v (envelope operation ++ path)

/-- The body has the binding's value at its path, but for the sub-paths that other bindings set,
and these find a place in it. -/
def Kept (operation : OperationSchema) (scope : StepScope) (inputs : List StepInputBinding)
    (body : Option Value) (binding : StepInputBinding) : Prop :=
  ∀ path, bodyPath operation binding = some path →
    readBody operation body path =
        some (setAll (deeper path (writes scope inputs)) (value scope binding)) ∧
      ∀ q, Outermost (deeper path (writes scope inputs)) q → Takes (value scope binding) q

/-- The body is the same in any order of the bindings, each field keeping its source. -/
def OrderFree (operation : OperationSchema) (step : CompiledStep) (scope : StepScope)
    (options : RunOptions) : Prop :=
  ∀ inputs, inputs.Perm step.inputs →
    assembleBody operation { step with inputs } scope options =
      assembleBody operation step scope options

/-- Nested paths begin with a key; their values agree with one another; the value of a top-level
binding takes the nested ones in, and two for one field differ there alone. -/
structure Separate (operation : OperationSchema) (scope : StepScope)
    (inputs : List StepInputBinding) : Prop where
  rooted : ∀ b ∈ inputs, isNestedField b.field = true →
    ∃ name rest, parse b.field = .ok (.key name :: rest)
  agree : (writes scope inputs).Pairwise Agree
  takes : ∀ b ∈ inputs, isNestedField b.field = false → isBodyField operation b.field = true →
    ∀ q, Outermost (deeper [.key b.field] (writes scope inputs)) q → Takes (value scope b) q
  single : ∀ b ∈ inputs, ∀ b' ∈ inputs, b'.field = b.field → isNestedField b.field = false →
    isBodyField operation b.field = true →
    setAll (deeper [.key b.field] (writes scope inputs)) (value scope b) =
      setAll (deeper [.key b.field] (writes scope inputs)) (value scope b')

section Fields

variable {field : String} {path : FieldPath}

theorem not_nested_iff : isNestedField field = false ↔ '.' ∉ field.toList ∧ '[' ∉ field.toList := by
  rw [isNestedField, List.any_eq_false]
  constructor
  · intro h
    exact ⟨fun hdot => h '.' hdot rfl, fun hopen => h '[' hopen rfl⟩
  · rintro ⟨hdot, hopen⟩ c hc
    simp [ne_of_mem_of_not_mem hc hdot, ne_of_mem_of_not_mem hc hopen]

/-- Pieces behind a key begin with a separator. -/
theorem separator_mem {ps : List PathGrammar.Piece} (h : PathGrammar.Readable .key ps)
    (hne : ps ≠ []) : '.' ∈ PathGrammar.spell ps ∨ '[' ∈ PathGrammar.spell ps := by
  cases hspell : PathGrammar.spell ps with
  | nil =>
    obtain ⟨p, ps, rfl⟩ := List.exists_cons_of_ne_nil hne
    rw [PathGrammar.spell_cons, List.append_eq_nil_iff, PathGrammar.Piece.spelling,
      List.append_eq_nil_iff] at hspell
    obtain ⟨-, hformed, -⟩ := h
    obtain ⟨⟨-, hitem⟩, -⟩ := hspell
    cases hp : p.item with
    | key name =>
      rw [hp] at hformed hitem
      exact absurd hitem hformed.1
    | index text =>
      rw [hp] at hitem
      cases hitem
  | cons c more =>
    rcases PathGrammar.head_behind_key h c (by rw [hspell]; rfl) with rfl | rfl
    · exact Or.inl List.mem_cons_self
    · exact Or.inr List.mem_cons_self

/-- A field without separators is a key. -/
theorem parse_plain (hplain : isNestedField field = false) (h : parse field = .ok path) :
    path = [.key field] := by
  obtain ⟨hdot, hopen⟩ := not_nested_iff.mp hplain
  obtain ⟨ps, hps, rfl⟩ := PathGrammar.spells_of_parse h
  obtain ⟨⟨dotted, item⟩, ps, rfl⟩ := List.exists_cons_of_ne_nil hps.nonempty
  obtain ⟨hstart, hformed, hrest⟩ := hps.readable
  have hstart : dotted = false := hstart
  have hchars : field.toList = item.spelling ++ PathGrammar.spell ps := by
    rw [hps.chars, PathGrammar.spell_cons, PathGrammar.Piece.spelling, hstart]
    rfl
  rw [hchars, List.mem_append, not_or] at hdot hopen
  cases item with
  | index text => exact absurd List.mem_cons_self hopen.1
  | key name =>
    have hnil : ps = [] := by
      by_contra hne
      exact (separator_mem hrest hne).elim hdot.2 hopen.2
    subst hnil
    have hname : field = String.ofList name := by
      rw [← String.ofList_toList (s := field), hchars]
      simp [PathGrammar.spell, PathGrammar.Item.spelling]
    rw [hname]
    rfl

/-- A field with separators is more than a key. -/
theorem parse_nested {name : String} (hnested : isNestedField field = true) :
    parse field ≠ .ok [.key name] := by
  intro h
  obtain ⟨ps, hps, hsegments⟩ := PathGrammar.spells_of_parse h
  obtain ⟨⟨dotted, item⟩, ps, rfl⟩ := List.exists_cons_of_ne_nil hps.nonempty
  obtain ⟨hstart, hformed, -⟩ := hps.readable
  obtain rfl : dotted = false := hstart
  have hnil : ps = [] := by
    simpa [PathGrammar.segments] using congrArg List.length hsegments
  subst hnil
  cases item with
  | index text => cases hsegments
  | key key =>
    have hchars : field.toList = key := by
      rw [hps.chars]
      simp [PathGrammar.spell, PathGrammar.Piece.spelling, PathGrammar.Item.spelling]
    have hplain : isNestedField field = false := by
      rw [not_nested_iff, hchars]
      exact hformed.2
    rw [hnested] at hplain
    cases hplain

end Fields

section Assembly

variable {scope : StepScope} {inputs : List StepInputBinding} {body : Value}

theorem resolveBinding_value {b : StepInputBinding}
    (h : ∃ v, scope.resolveBinding b.source = .ok (some v)) :
    scope.resolveBinding b.source = .ok (some (value scope b)) := by
  obtain ⟨v, hv⟩ := h
  rw [hv, value, hv]

theorem nestedPath?_eq_some {field : String} {path : FieldPath} :
    nestedPath? field = some path ↔
      isNestedField field = true ∧ parse field = .ok path ∧ 1 < path.length := by
  unfold nestedPath?
  cases hnested : isNestedField field with
  | false => simp
  | true =>
    cases hparse : parse field with
    | error e => simp
    | ok p =>
      by_cases hlength : p.length ≤ 1
      · simp only [Bool.not_true, Bool.false_eq_true, if_false, if_pos hlength, reduceCtorEq,
          true_and, false_iff, Except.ok.injEq, not_and]
        rintro rfl
        omega
      · simp only [Bool.not_true, Bool.false_eq_true, if_false, if_neg hlength, Option.some.injEq,
          true_and, Except.ok.injEq]
        constructor
        · rintro rfl
          exact ⟨rfl, by omega⟩
        · exact And.left

/-- Pass 2 makes its writes one after the other. -/
theorem mergeBindings_eq (hlocal : scope.stepLocal = .empty)
    (h : ∀ b ∈ inputs, ∃ v, scope.resolveBinding b.source = .ok (some v)) :
    mergeBindings scope inputs body = .ok (setAll (writes scope inputs) body) := by
  induction inputs generalizing body with
  | nil => rfl
  | cons b rest ih =>
    have hrest := fun b' hb' => h b' (List.mem_cons_of_mem b hb')
    unfold mergeBindings
    cases hpath : nestedPath? b.field with
    | none =>
      rw [ih hrest]
      simp [writes, hpath]
    | some path =>
      have hvalue : resolveNested scope b = .ok (some (value scope b)) := by
        rw [resolveNested, hlocal]
        exact resolveBinding_value (h b List.mem_cons_self)
      obtain ⟨-, -, hlength⟩ := nestedPath?_eq_some.mp hpath
      rw [hvalue]
      simp only
      rw [ih hrest, mergeNestedBinding_eq (List.ne_nil_of_length_pos (by omega))]
      simp [writes, hpath, setAll]

/-- Pass 1 sets the fields that have a value and leaves the other members. -/
theorem lookup_assembleFields {step : CompiledStep} {fields : List BodyField}
    {members out : List (String × Value)}
    (hout : assembleFields step scope fields members = .ok out) (name : String) :
    (name ∈ fields.map (·.name) → ∃ v, resolveFieldValue scope name = .ok v ∧
      Entries.lookup name out = v.or (Entries.lookup name members)) ∧
    (name ∉ fields.map (·.name) → Entries.lookup name out = Entries.lookup name members) := by
  induction fields generalizing members with
  | nil =>
    cases hout
    exact ⟨fun hmem => absurd hmem List.not_mem_nil, fun _ => rfl⟩
  | cons field rest ih =>
    rw [List.map_cons, List.mem_cons]
    unfold assembleFields at hout
    cases hvalue : resolveFieldValue scope field.name with
    | error e =>
      rw [hvalue] at hout
      cases hout
    | ok v =>
      rw [hvalue] at hout
      obtain ⟨next, hnext, hlookup⟩ : ∃ next, assembleFields step scope rest next = .ok out ∧
          Entries.lookup name next = if name = field.name then v.or (Entries.lookup name members)
            else Entries.lookup name members := by
        cases v with
        | none =>
          simp only at hout
          split_ifs at hout
          exact ⟨members, hout, by simp⟩
        | some v => exact ⟨_, hout, by rw [Entries.lookup_insert]; rfl⟩
      obtain ⟨hset, hkept⟩ := ih hnext
      by_cases hname : name = field.name
      · subst hname
        rw [if_pos rfl] at hlookup
        refine ⟨fun _ => ⟨v, hvalue, ?_⟩, fun hnot => absurd (Or.inl rfl) hnot⟩
        by_cases hmem : field.name ∈ rest.map (·.name)
        · obtain ⟨w, hw, hfinal⟩ := hset hmem
          obtain rfl := Except.ok.inj (hvalue.symm.trans hw)
          rw [hfinal, hlookup, ← Option.or_assoc, Option.or_self]
        · rw [hkept hmem, hlookup]
      · rw [if_neg hname] at hlookup
        rw [hlookup] at hset hkept
        simp only [hname, false_or]
        exact ⟨hset, hkept⟩

/-- Only the id of a step and the roots of its nested bindings matter to pass 1. -/
theorem assembleFields_congr {step step' : CompiledStep} (hid : step'.id = step.id)
    (hroots : ∀ name, name ∈ nestedBindingRoots step' ↔ name ∈ nestedBindingRoots step)
    (fields : List BodyField) (members : List (String × Value)) :
    assembleFields step' scope fields members = assembleFields step scope fields members := by
  have hcontains : ∀ name, (nestedBindingRoots step').contains name =
      (nestedBindingRoots step).contains name := fun name => by
    rw [Bool.eq_iff_iff, List.contains_iff_mem, List.contains_iff_mem, hroots]
  induction fields generalizing members with
  | nil => rfl
  | cons field rest ih =>
    unfold assembleFields
    simp only [hid, hcontains, ih]

end Assembly

section Envelope

variable {operation : OperationSchema} {members out : List (String × Value)} {path : FieldPath}

/-- The envelope of an assembled body is looked through. -/
theorem readBody_wrap (hne : members ≠ []) :
    readBody operation (wrapBody operation members) path = readAt (.object members) path := by
  have hempty : members.isEmpty = false := List.isEmpty_eq_false_iff.mpr hne
  unfold readBody envelope wrapBody
  cases harray : (operation.requestBody.map (·.isArray)).getD false with
  | true => simp [hempty, readAt, Value.item?]
  | false => simp [hempty]

theorem wrapBody_inj (hne : members ≠ []) (hne' : out ≠ [])
    (h : wrapBody operation members = wrapBody operation out) : members = out := by
  have hempty : members.isEmpty = false := List.isEmpty_eq_false_iff.mpr hne
  have hempty' : out.isEmpty = false := List.isEmpty_eq_false_iff.mpr hne'
  unfold wrapBody at h
  cases harray : (operation.requestBody.map (·.isArray)).getD false with
  | true => simpa [hempty, hempty', harray] using h
  | false => simpa [hempty, hempty', harray] using h

theorem readBody_index {index : Nat} :
    readBody operation (wrapBody operation members) (.index index :: path) = none := by
  have hobject : ∀ ms : List (String × Value),
      readAt (.object ms) (.index index :: path) = none := fun ms => rfl
  by_cases hnil : members = []
  · subst hnil
    unfold readBody envelope wrapBody
    cases harray : (operation.requestBody.map (·.isArray)).getD false with
    | true => simp
    | false => simpa using fun _ _ => hobject []
  · rw [readBody_wrap hnil]
    exact hobject members

end Envelope

section Steps

variable {operation : OperationSchema} {step : CompiledStep} {scope : StepScope}
  {options : RunOptions} {fields : List (String × Value)} {inputs : List StepInputBinding}

/-- The body of the bindings in another order: the fields of pass 1 with the merges of pass 2. -/
theorem assembleBody_perm (hlocal : scope.stepLocal = .empty)
    (hoptions : options.explicitBody = none)
    (hresolve : ∀ b ∈ step.inputs, ∃ v, scope.resolveBinding b.source = .ok (some v))
    (hfields : assembleFields step scope operation.bodyFields [] = .ok fields)
    (hperm : inputs.Perm step.inputs) :
    assembleBody operation { step with inputs } scope options =
      .ok (wrapBody operation (membersOf (setAll (writes scope inputs) (.object fields)))) := by
  have hroots : ∀ name, name ∈ nestedBindingRoots { step with inputs } ↔
      name ∈ nestedBindingRoots step := by
    intro name
    simp only [nestedBindingRoots, List.mem_map, List.mem_filter, hperm.mem_iff]
  have hpass1 : assembleFields { step with inputs } scope operation.bodyFields [] =
      assembleFields step scope operation.bodyFields [] := by
    refine assembleFields_congr ?_ hroots _ _
    rfl
  have hpass2 : mergeBindings scope inputs (.object fields) =
      .ok (setAll (writes scope inputs) (.object fields)) :=
    mergeBindings_eq hlocal fun b hb => hresolve b (hperm.mem_iff.mp hb)
  unfold assembleBody
  rw [hoptions]
  simp only
  rw [hpass1, hfields]
  simp only [Except.bind, bind]
  rw [hpass2]

theorem fields_of_assembleBody {body : Option Value} (hoptions : options.explicitBody = none)
    (hbody : assembleBody operation step scope options = .ok body) :
    ∃ fields, assembleFields step scope operation.bodyFields [] = .ok fields := by
  unfold assembleBody at hbody
  rw [hoptions] at hbody
  obtain ⟨fields, hfields, -⟩ := Checks.bind_eq_ok.mp hbody
  exact ⟨fields, hfields⟩

theorem writes_rooted (scope : StepScope) (hrooted : ∀ b ∈ inputs, isNestedField b.field = true →
      ∃ name rest, parse b.field = .ok (.key name :: rest)) :
    ∀ a ∈ writes scope inputs, ∃ name s rest, a.1 = PathSegment.key name :: s :: rest := by
  intro a ha
  obtain ⟨b, hb, hwrite⟩ := List.mem_filterMap.mp ha
  obtain ⟨path, hpath, rfl⟩ := Option.map_eq_some_iff.mp hwrite
  obtain ⟨hnested, hparse, hlength⟩ := nestedPath?_eq_some.mp hpath
  obtain ⟨name, rest, hroot⟩ := hrooted b hb hnested
  obtain rfl := Except.ok.inj (hparse.symm.trans hroot)
  cases rest with
  | nil => simp at hlength
  | cons s rest => exact ⟨name, s, rest, rfl⟩

theorem agree_of_orderFree
    (hrooted : ∀ b ∈ step.inputs, isNestedField b.field = true →
      ∃ name rest, parse b.field = .ok (.key name :: rest))
    (hbodies : ∀ inputs, inputs.Perm step.inputs →
      wrapBody operation (membersOf (setAll (writes scope inputs) (.object fields))) =
        wrapBody operation (membersOf (setAll (writes scope step.inputs) (.object fields)))) :
    (writes scope step.inputs).Pairwise Agree := by
  rw [writes, List.pairwise_filterMap, List.pairwise_iff_forall_sublist]
  intro b b' hsub w hw w' hw'
  obtain ⟨others, hperm⟩ := hsub.exists_perm_append
  have hfirst : (others ++ [b, b']).Perm step.inputs := (hperm.trans List.perm_append_comm).symm
  have hsecond : (others ++ [b', b]).Perm step.inputs :=
    ((List.Perm.swap b b' []).append_left others).trans hfirst
  -- in either order the two writes come last
  have hobject : ∀ inputs, inputs.Perm step.inputs → w ∈ writes scope inputs →
      ∃ out, out ≠ [] ∧ setAll (writes scope inputs) (.object fields) = .object out := by
    intro inputs hinputs hmem
    obtain ⟨out, hout, hne, -⟩ := setAll_members fields
      (writes_rooted scope fun b hb => hrooted b (hinputs.mem_iff.mp hb))
    exact ⟨out, hne (Or.inl (List.ne_nil_of_mem hmem)), hout⟩
  have hmem : ∀ inputs, inputs.Perm step.inputs → w ∈ writes scope inputs := fun inputs hinputs =>
    List.mem_filterMap.mpr ⟨b, hinputs.mem_iff.mpr (hsub.subset List.mem_cons_self), hw⟩
  obtain ⟨out, hne, hout⟩ := hobject _ hfirst (hmem _ hfirst)
  obtain ⟨out', hne', hout'⟩ := hobject _ hsecond (hmem _ hsecond)
  have hwrap := (hbodies _ hfirst).trans (hbodies _ hsecond).symm
  rw [hout, hout'] at hwrap
  have hsame : setAll (writes scope (others ++ [b, b'])) (.object fields) =
      setAll (writes scope (others ++ [b', b])) (.object fields) := by
    rw [hout, hout', wrapBody_inj hne hne' hwrap]
  have hlast : ∀ c c' u u', (nestedPath? c.field).map (fun path => (path, value scope c)) = some u →
      (nestedPath? c'.field).map (fun path => (path, value scope c')) = some u' →
      setAll (writes scope (others ++ [c, c'])) (.object fields) =
        setAt (setAt (setAll (writes scope others) (.object fields)) u.1 u.2) u'.1 u'.2 := by
    intro c c' u u' hu hu'
    have hwrites : writes scope (others ++ [c, c']) = writes scope others ++ [u, u'] := by
      simp [writes, List.filterMap_append, hu, hu']
    rw [hwrites, setAll_append]
    rfl
  rw [hlast b b' w w' hw hw', hlast b' b w' w hw' hw] at hsame
  have hread : readAt (setAt (setAt (setAll (writes scope others) (.object fields)) w.1 w.2)
      w'.1 w'.2) w.1 = some w.2 := by
    rw [hsame]
    exact readAt_setAt
  have hread' : readAt (setAt (setAt (setAll (writes scope others) (.object fields)) w'.1 w'.2)
      w.1 w.2) w'.1 = some w'.2 := by
    rw [← hsame]
    exact readAt_setAt
  exact compatible_of_readAt hread hread'

theorem rooted_of_kept {b : StepInputBinding} (hnested : isNestedField b.field = true)
    (hparse : ∃ path, parse b.field = .ok path) {members : List (String × Value)}
    (hkept : Kept operation scope inputs (wrapBody operation members) b) :
    ∃ name rest, parse b.field = .ok (.key name :: rest) := by
  obtain ⟨path, hpath⟩ := hparse
  have hbody : bodyPath operation b = some path := by
    simp [bodyPath, hnested, hpath, Except.toOption]
  cases path with
  | nil =>
    obtain ⟨ps, hps, hsegments⟩ := PathGrammar.spells_of_parse hpath
    obtain ⟨p, ps, rfl⟩ := List.exists_cons_of_ne_nil hps.nonempty
    simp [PathGrammar.segments] at hsegments
  | cons s rest =>
    cases s with
    | key name => exact ⟨name, rest, hpath⟩
    | index index =>
      have hread := (hkept _ hbody).1
      rw [readBody_index] at hread
      cases hread

/-- The value of a nested binding is in the body, and has the deeper ones already. -/
theorem kept_nested {b : StepInputBinding} (hb : b ∈ step.inputs)
    (hnested : isNestedField b.field = true)
    (hsep : Separate operation scope step.inputs) :
    Kept operation scope step.inputs
      (wrapBody operation (membersOf (setAll (writes scope step.inputs) (.object fields)))) b := by
  intro path hpath
  obtain ⟨name, rest, hroot⟩ := hsep.rooted b hb hnested
  obtain rfl : path = .key name :: rest := by
    simp only [bodyPath, hnested, Bool.true_or, if_true, hroot, Except.toOption,
      Option.some.injEq] at hpath
    exact hpath.symm
  have hrest : rest ≠ [] := by
    rintro rfl
    exact parse_nested hnested hroot
  have hlength : 1 < (PathSegment.key name :: rest).length := by
    have hpos := List.length_pos_of_ne_nil hrest
    simpa using hpos
  have hmem : (.key name :: rest, value scope b) ∈ writes scope step.inputs :=
    List.mem_filterMap.mpr ⟨b, hb, by
      rw [nestedPath?_eq_some.mpr ⟨hnested, hroot, hlength⟩]
      rfl⟩
  obtain ⟨out, hout, hne, -⟩ := setAll_members fields (writes_rooted scope hsep.rooted)
  have hread : readAt (.object out) (.key name :: rest) = some (value scope b) := by
    obtain ⟨front, back, hsplit⟩ := List.append_of_mem hmem
    have hperm : (writes scope step.inputs).Perm
        ((front ++ back) ++ [(.key name :: rest, value scope b)]) := by
      rw [hsplit, List.append_assoc]
      exact (List.perm_append_singleton _ back).symm.append_left front
    rw [← hout, setAll_perm hperm hsep.agree, setAll_append]
    exact readAt_setAt
  have hdeeper : ∀ a ∈ deeper (.key name :: rest) (writes scope step.inputs),
      setAt (value scope b) a.1 a.2 = value scope b := by
    rintro ⟨r, w⟩ ha
    obtain ⟨hne, hwrite⟩ := of_mem_deeper ha
    have hdistinct : (PathSegment.key name :: rest, value scope b) ≠
        (PathSegment.key name :: rest ++ r, w) := by
      intro heq
      exact hne (List.self_eq_append_right.mp (Prod.mk.inj heq).1)
    exact setAt_of_compatible (hsep.agree.forall hmem hwrite hdistinct)
  rw [hout, membersOf, readBody_wrap (hne (Or.inl (List.ne_nil_of_mem hmem))), hread,
    setAll_of_all hdeeper]
  refine ⟨rfl, fun q hq => ?_⟩
  obtain ⟨⟨q', w⟩, ha, rfl⟩ := List.mem_map.mp hq.1
  exact takes_of_setAt (hdeeper _ ha)

theorem resolveFieldValue_bound (hlocal : scope.stepLocal = .empty)
    (hbindings : scope.bindings = Compile.bindingsByField step.inputs)
    (hresolve : ∀ b ∈ step.inputs, ∃ v, scope.resolveBinding b.source = .ok (some v))
    {b : StepInputBinding} (hb : b ∈ step.inputs) :
    ∃ b' ∈ step.inputs, b'.field = b.field ∧
      resolveFieldValue scope b.field = .ok (some (value scope b')) := by
  have hsome : ((Compile.bindingsByField step.inputs).get? b.field).isSome = true :=
    BTreeMap.contains_ofList.mpr (List.mem_map.mpr ⟨(b.field, b.source),
      List.mem_map.mpr ⟨b, hb, rfl⟩, rfl⟩)
  obtain ⟨source, hsource⟩ := Option.isSome_iff_exists.mp hsome
  obtain ⟨b', hb', hentry⟩ := List.mem_map.mp (BTreeMap.mem_of_get?_ofList hsource)
  obtain ⟨hfield, rfl⟩ : b'.field = b.field ∧ b'.source = source := Prod.mk.inj hentry
  refine ⟨b', hb', hfield, ?_⟩
  rw [resolveFieldValue, hlocal, hbindings, hsource]
  exact resolveBinding_value (hresolve b' hb')

/-- The value of a top-level binding is in the body with the nested ones written into it. -/
theorem kept_plain (hlocal : scope.stepLocal = .empty)
    (hbindings : scope.bindings = Compile.bindingsByField step.inputs)
    (hresolve : ∀ b ∈ step.inputs, ∃ v, scope.resolveBinding b.source = .ok (some v))
    (hfields : assembleFields step scope operation.bodyFields [] = .ok fields)
    {b : StepInputBinding} (hb : b ∈ step.inputs) (hplain : isNestedField b.field = false)
    (hsep : Separate operation scope step.inputs) :
    Kept operation scope step.inputs
      (wrapBody operation (membersOf (setAll (writes scope step.inputs) (.object fields)))) b := by
  intro path hpath
  cases hbody : isBodyField operation b.field with
  | false => simp [bodyPath, hplain, hbody] at hpath
  | true =>
    have hparse : parse b.field = .ok path := by
      simp only [bodyPath, hbody, Bool.or_true, if_true] at hpath
      cases hp : parse b.field with
      | error e =>
        rw [hp] at hpath
        cases hpath
      | ok p =>
        rw [hp] at hpath
        rw [Option.some.inj hpath]
    obtain rfl := parse_plain hplain hparse
    obtain ⟨b', hb', hfield, hvalue⟩ := resolveFieldValue_bound hlocal hbindings hresolve hb
    have hlookup : Entries.lookup b.field fields = some (value scope b') := by
      obtain ⟨v, hv, hlookup⟩ :=
        (lookup_assembleFields hfields b.field).1 (by simpa [isBodyField] using hbody)
      rw [hvalue] at hv
      rw [hlookup, ← Except.ok.inj hv, Option.some_or]
    obtain ⟨out, hout, hne, hmembers⟩ :=
      setAll_members fields (writes_rooted scope hsep.rooted)
    have hnonempty : fields ≠ [] := by
      rintro rfl
      cases hlookup
    rw [hout, membersOf, readBody_wrap (hne (Or.inr hnonempty))]
    refine ⟨?_, hsep.takes b hb hplain hbody⟩
    rw [readAt, Value.get?, hmembers _ _ hlookup,
      ← hsep.single b hb b' hb' hfield hplain hbody]
    rfl

end Steps

theorem parse_of_accepted {definition : WorkflowDefinition} {catalogue : Catalogue}
    {compiled : CompiledWorkflow} (h : Compile.Accepted definition catalogue compiled)
    {step : CompiledStep} (hstep : step ∈ compiled.steps) {opRef : OperationReference}
    (hop : step.operation = some opRef) {b : StepInputBinding} (hb : b ∈ step.inputs) :
    ∃ path, parse b.field = .ok path := by
  obtain ⟨source, index, autoDerived, hsource, -, rfl⟩ := h.definition_of_mem hstep
  have hchecks := Checks.each_eq_ok.mp h.nestedPaths source hsource
  have hop : source.operation = some opRef := hop
  rw [hop] at hchecks
  obtain ⟨serviceSchema, -, hchecks⟩ := Checks.bind_eq_ok.mp hchecks
  obtain ⟨operation, -, hchecks⟩ := Checks.bind_eq_ok.mp hchecks
  have hcheck := Checks.each_eq_ok.mp hchecks b hb
  unfold Compile.checkNestedPath at hcheck
  cases hparse : parse b.field with
  | ok path => exact ⟨path, rfl⟩
  | error e =>
    rw [hparse] at hcheck
    cases hcheck

/-- The bindings of an accepted step are all kept, in any order, exactly when they are separate. -/
theorem bindings_kept_iff {definition : WorkflowDefinition} {catalogue : Catalogue}
    {compiled : CompiledWorkflow}
    (hcompiled : Compile.compileWorkflow definition catalogue = .ok compiled)
    {step : CompiledStep} (hstep : step ∈ compiled.steps) {opRef : OperationReference}
    (hop : step.operation = some opRef) (operation : OperationSchema) (ctx : Context)
    (supplied : Values) (specs : List WorkflowInputSpec) (options : RunOptions)
    (hoptions : options.explicitBody = none)
    (hresolve : ∀ b ∈ step.inputs, ∃ v,
      (stepScope step ctx supplied .empty specs).resolveBinding b.source = .ok (some v))
    {body : Option Value}
    (hbody : assembleBody operation step (stepScope step ctx supplied .empty specs) options =
      .ok body) :
    ((∀ b ∈ step.inputs,
        Kept operation (stepScope step ctx supplied .empty specs) step.inputs body b) ∧
      OrderFree operation step (stepScope step ctx supplied .empty specs) options) ↔
      Separate operation (stepScope step ctx supplied .empty specs) step.inputs := by
  have haccepted := Compile.compileWorkflow_ok hcompiled
  generalize hscope : stepScope step ctx supplied .empty specs = scope at *
  have hlocal : scope.stepLocal = .empty := by rw [← hscope]; rfl
  have hbindings : scope.bindings = Compile.bindingsByField step.inputs := by rw [← hscope]; rfl
  obtain ⟨fields, hfields⟩ := fields_of_assembleBody hoptions hbody
  have hbodies := fun (inputs : List StepInputBinding) (hperm : inputs.Perm step.inputs) =>
    assembleBody_perm hlocal hoptions hresolve hfields hperm
  have hown : assembleBody operation step scope options =
      .ok (wrapBody operation (membersOf (setAll (writes scope step.inputs) (.object fields)))) :=
    hbodies step.inputs (List.Perm.refl _)
  obtain rfl := Except.ok.inj (hbody.symm.trans hown)
  constructor
  · rintro ⟨hkept, horder⟩
    have hrooted : ∀ b ∈ step.inputs, isNestedField b.field = true →
        ∃ name rest, parse b.field = .ok (.key name :: rest) := fun b hb hnested =>
      rooted_of_kept hnested (parse_of_accepted haccepted hstep hop hb) (hkept b hb)
    have hread : ∀ b ∈ step.inputs, isNestedField b.field = false →
        isBodyField operation b.field = true →
        bodyPath operation b = some [.key b.field] := by
      intro b hb hplain hfield
      obtain ⟨path, hpath⟩ := parse_of_accepted haccepted hstep hop hb
      rw [parse_plain hplain hpath] at hpath
      simp [bodyPath, hfield, hpath, Except.toOption]
    have hwraps : ∀ inputs, inputs.Perm step.inputs →
        wrapBody operation (membersOf (setAll (writes scope inputs) (.object fields))) =
          wrapBody operation (membersOf (setAll (writes scope step.inputs) (.object fields))) := by
      intro inputs hperm
      have hsame := horder inputs hperm
      rw [hbodies inputs hperm, hown] at hsame
      exact Except.ok.inj hsame
    refine ⟨hrooted, agree_of_orderFree hrooted hwraps, ?_, ?_⟩
    · exact fun b hb hplain hfield => (hkept b hb _ (hread b hb hplain hfield)).2
    · intro b hb b' hb' hsame hplain hfield
      have hb := (hkept b hb _ (hread b hb hplain hfield)).1
      have hb' := (hkept b' hb' _ (hread b' hb' (hsame ▸ hplain) (hsame ▸ hfield))).1
      rw [hsame, hb] at hb'
      exact Option.some.inj hb'
  · intro hsep
    refine ⟨fun b hb => ?_, fun inputs hperm => ?_⟩
    · cases hnested : isNestedField b.field with
      | true => exact kept_nested hb hnested hsep
      | false => exact kept_plain hlocal hbindings hresolve hfields hb hnested hsep
    · have hwrites : (writes scope inputs).Perm (writes scope step.inputs) :=
        hperm.filterMap _
      rw [hbodies inputs hperm, hown, setAll_perm hwrites.symm hsep.agree]

section Orders

def dataField : BodyField := ⟨"data", .object, false, none, [], none⟩

def orderOperation : OperationSchema :=
  { id := "Place", name := "place", summary := "", description := none
    mutationClass := .mutating, httpMethod := .post, pathTemplate := "/shop/orders"
    parameters := [], requestBody := some ⟨"Order", [dataField], false, none⟩, permissions := []
    scope := "admin", apiVersion := 1, deprecated := false, responseContentType := none }

def shopSchema : ServiceSchema :=
  ⟨"shop", "", [⟨"order", "", [⟨"place", "", some "admin", [⟨"admin", 1, [orderOperation]⟩]⟩]⟩]⟩

def literal (field : String) (v : Value) : StepInputBinding :=
  ⟨field, .literal ⟨v, false⟩, false, none⟩

def orderDefinition (inputs : List StepInputBinding) : WorkflowDefinition :=
  { id := "order", name := "Order", briefing := none, inputs := [], isReviewedByDefault := false
    steps := [
      { id := "place", description := none, kind := .api, action := none
        operation := some ⟨"shop", "Place"⟩, dependencies := [], confirm := false
        isOptional := false, continueOnFailure := false, skipIfExists := false, isReviewed := none
        inputs, outputs := [] }]
    outputs := [], completion := none }

def orderStep (inputs : List StepInputBinding) : CompiledStep :=
  { id := "place", index := 0, description := none, kind := .api, action := none
    operation := some ⟨"shop", "Place"⟩, dependencies := [], confirm := false
    isOptional := false, continueOnFailure := false, skipIfExists := false, isReviewed := none
    inputs, outputs := [], autoDerived := [] }

/-- A member is set inside an object that another binding gives. -/
def separated : List StepInputBinding :=
  [literal "data" (.object [("y", .bool true)]), literal "data.x" (.number (.int 1))]

def colliding : List StepInputBinding :=
  [literal "data" (.string "plain"), literal "data.x" (.number (.int 1))]

def orderScope (inputs : List StepInputBinding) : StepScope :=
  stepScope (orderStep inputs) .new .empty .empty []

theorem separate_separated : Separate orderOperation (orderScope separated) separated := by
  have hwrites : writes (orderScope separated) separated =
      [([.key "data", .key "x"], .number (.int 1))] := rfl
  have hdeeper : deeper [.key "data"] (writes (orderScope separated) separated) =
      [([.key "x"], .number (.int 1))] := by
    rw [hwrites]
    rfl
  have hplain : ∀ b ∈ separated, isNestedField b.field = false →
      b = literal "data" (.object [("y", .bool true)]) := by
    intro b hb hplain
    rcases List.mem_cons.mp hb with rfl | hb
    · rfl
    · obtain rfl := List.mem_singleton.mp hb
      exact absurd hplain (by decide)
  refine ⟨?_, ?_, ?_, ?_⟩
  · intro b hb hnested
    rcases List.mem_cons.mp hb with rfl | hb
    · exact absurd hnested (by decide)
    · obtain rfl := List.mem_singleton.mp hb
      exact ⟨"data", [.key "x"], by decide⟩
  · rw [hwrites]
    exact List.pairwise_singleton _ _
  · intro b hb hb' _ q hq
    obtain rfl := hplain b hb hb'
    have hmem := hq.1
    rw [show [PathSegment.key (literal "data" (.object [("y", .bool true)])).field] =
      [.key "data"] from rfl, hdeeper] at hmem
    obtain rfl := List.mem_singleton.mp hmem
    intro child hchild
    cases hchild
  · intro b hb b' hb' hsame hb'' _
    obtain rfl := hplain b hb hb''
    obtain rfl := hplain b' hb' (hsame ▸ hb'')
    rfl

def orderCompiled (inputs : List StepInputBinding) : CompiledWorkflow :=
  { id := "order", name := "Order", briefing := none, inputs := [], isReviewedByDefault := false
    steps := [orderStep inputs], outputs := [], completion := none }

/-- The given object with the member set in it. -/
theorem bindings_kept_separated :
    (∀ b ∈ separated, Kept orderOperation (orderScope separated) separated
      (some (.object [("data", .object [("x", .number (.int 1)), ("y", .bool true)])])) b) ∧
    OrderFree orderOperation (orderStep separated) (orderScope separated) .default := by
  have hresolve : ∀ b ∈ separated, ∃ v,
      (orderScope separated).resolveBinding b.source = .ok (some v) := by
    intro b hb
    rcases List.mem_cons.mp hb with rfl | hb
    · exact ⟨_, rfl⟩
    · obtain rfl := List.mem_singleton.mp hb
      exact ⟨_, rfl⟩
  have hcompiled : Compile.compileWorkflow (orderDefinition separated)
      ⟨fun _ => .ok shopSchema⟩ = .ok (orderCompiled separated) := rfl
  exact (bindings_kept_iff hcompiled List.mem_cons_self rfl orderOperation .new .empty [] .default
    rfl hresolve rfl).mpr separate_separated

/-- A text given for a field is replaced by an object when a member of the field is bound too. -/
theorem member_of_text_replaces :
    Compile.compileWorkflow (orderDefinition colliding) ⟨fun _ => .ok shopSchema⟩ =
      .ok (orderCompiled colliding) ∧
    (∀ b ∈ colliding, ∃ v, (orderScope colliding).resolveBinding b.source = .ok (some v)) ∧
    assembleBody orderOperation (orderStep colliding) (orderScope colliding) .default =
      .ok (some (.object [("data", .object [("x", .number (.int 1))])])) ∧
    ¬ Kept orderOperation (orderScope colliding) colliding
      (some (.object [("data", .object [("x", .number (.int 1))])]))
      (literal "data" (.string "plain")) := by
  refine ⟨rfl, fun b hb => ?_, rfl, fun hkept => ?_⟩
  · rcases List.mem_cons.mp hb with rfl | hb
    · exact ⟨_, rfl⟩
    · obtain rfl := List.mem_singleton.mp hb
      exact ⟨_, rfl⟩
  · refine (hkept [.key "data"] (by decide)).2 [.key "x"] ⟨List.mem_singleton.mpr rfl, ?_⟩
    intro q hq _
    exact List.mem_singleton.mp hq

end Orders

end BindingCollisions
