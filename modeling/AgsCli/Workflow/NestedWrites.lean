import AgsCli.Workflow.BindingCollisions

/-! # Nested writes

What the nested bindings of a step write into its body, as they are bound and as their paths are
edited, and what one member of the body comes to under them. -/
namespace NestedWrites

open OrderedMap Json CatalogueTypes ProtocolError RequestTypes WorkflowTypes WorkflowContext
  NestedPath NestedMerge Resolve Assemble SubPaths BindingCollisions

def bound (scope : StepScope) (source : BindingSource) : Option Value :=
  match scope.resolveBinding source with
  | .ok v => v
  | .error _ => none

/-- What the field's own source gives: its edit, its binding, or the input of its name. -/
def own (scope : StepScope) (name : String) : Option Value :=
  match scope.stepLocal.get? name with
  | some v => some v
  | none =>
    match scope.bindings.get? name with
    | some source => bound scope source
    | none => if scope.workflowInputNames.contains name then scope.supplied.get? name else none

def HasSource (scope : StepScope) (name : String) : Prop :=
  scope.stepLocal.contains name = true ∨ scope.bindings.contains name = true ∨
    name ∈ scope.workflowInputNames

instance (scope : StepScope) (name : String) : Decidable (HasSource scope name) :=
  inferInstanceAs (Decidable (_ ∨ _))

def boundWrites (scope : StepScope) (inputs : List StepInputBinding) : List Write :=
  inputs.filterMap fun b => (nestedPath? b.field).bind fun path =>
    (bound scope b.source).map (path, ·)

/-- The writes with the step-local edits of their paths. -/
def editedWrites (scope : StepScope) (inputs : List StepInputBinding) : List Write :=
  inputs.filterMap fun b => (nestedPath? b.field).bind fun path =>
    ((scope.stepLocal.get? b.field).or (bound scope b.source)).map (path, ·)

/-- A write into the body, seen from one member. One that leads through an index makes the body an
array, and the member is lost. -/
def overwrite (name : String) (member : Option Value) (write : Write) : Option Value :=
  match write.1 with
  | [] => member
  | .key key :: rest =>
    if key = name then some (setAt (member.getD (.object [])) rest write.2) else member
  | .index _ :: _ => none

def overwritten (name : String) (writes : List Write) (member : Option Value) : Option Value :=
  writes.foldl (overwrite name) member

section Members

variable {scope : StepScope} {inputs : List StepInputBinding} {name : String} {body : Value}

theorem bound_of_resolve {source : BindingSource} {v : Option Value}
    (h : scope.resolveBinding source = .ok v) : bound scope source = v := by
  rw [bound, h]

theorem own_eq_some {v : Value} :
    own scope name = some v ↔ resolveFieldValue scope name = .ok (some v) := by
  unfold own resolveFieldValue
  cases scope.stepLocal.get? name with
  | some w => simp
  | none =>
    cases scope.bindings.get? name with
    | some source =>
      simp only [bound]
      cases scope.resolveBinding source <;> simp
    | none =>
      simp only
      split_ifs <;> simp

theorem own_of_resolve {v : Option Value} (h : resolveFieldValue scope name = .ok v) :
    own scope name = v := by
  refine Option.ext fun w => ?_
  rw [own_eq_some, h, Except.ok.injEq]

theorem lookup_setAt {path : FieldPath} (v : Value) (hpath : path ≠ []) :
    Entries.lookup name (membersOf (setAt body path v)) =
      overwrite name (Entries.lookup name (membersOf body)) (path, v) := by
  obtain ⟨s, rest, rfl⟩ := List.exists_cons_of_ne_nil hpath
  cases s with
  | index index => rfl
  | key key =>
    simp only [setAt, put, membersOf, overwrite, childAt, Entries.lookup_insert]
    by_cases hname : name = key
    · rw [if_pos hname, if_pos hname.symm, hname]
    · rw [if_neg hname, if_neg (Ne.symm hname)]

theorem lookup_setAll {writes : List Write} (h : ∀ write ∈ writes, write.1 ≠ []) :
    Entries.lookup name (membersOf (setAll writes body)) =
      overwritten name writes (Entries.lookup name (membersOf body)) := by
  induction writes generalizing body with
  | nil => rfl
  | cons write rest ih =>
    have hrest := @ih (setAt body write.1 write.2)
      fun other hother => h other (List.mem_cons_of_mem write hother)
    rw [lookup_setAt write.2 (h write List.mem_cons_self)] at hrest
    exact hrest

theorem editedWrites_ne {write : Write} (h : write ∈ editedWrites scope inputs) :
    write.1 ≠ [] := by
  obtain ⟨b, -, hwrite⟩ := List.mem_filterMap.mp h
  obtain ⟨path, hpath, hvalue⟩ := Option.bind_eq_some_iff.mp hwrite
  obtain ⟨v, -, rfl⟩ := Option.map_eq_some_iff.mp hvalue
  have hlength := (nestedPath?_eq_some.mp hpath).2.2
  exact List.ne_nil_of_length_pos (Nat.zero_lt_of_lt hlength)

theorem resolveNested_value {b : StepInputBinding} {v : Option Value}
    (h : resolveNested scope b = .ok v) :
    (scope.stepLocal.get? b.field).or (bound scope b.source) = v := by
  unfold resolveNested at h
  split at h
  · next w hw =>
    rw [hw]
    exact Except.ok.inj h
  · next hw =>
    rw [hw, Option.none_or, bound_of_resolve h]

/-- Pass 2 makes the edited writes one after the other. -/
theorem mergeBindings_edited {out : Value} (h : mergeBindings scope inputs body = .ok out) :
    out = setAll (editedWrites scope inputs) body := by
  induction inputs generalizing body with
  | nil => exact (Except.ok.inj h).symm
  | cons b rest ih =>
    unfold mergeBindings at h
    rw [editedWrites, List.filterMap_cons]
    cases hpath : nestedPath? b.field with
    | none =>
      rw [hpath] at h
      exact ih h
    | some path =>
      rw [hpath] at h
      obtain ⟨-, -, hlength⟩ := nestedPath?_eq_some.mp hpath
      cases hvalue : resolveNested scope b with
      | error e =>
        rw [hvalue] at h
        cases h
      | ok v =>
        rw [hvalue] at h
        rw [Option.bind_some, resolveNested_value hvalue]
        cases v with
        | none => exact ih h
        | some v =>
          simp only [mergeNestedBinding_eq (List.ne_nil_of_length_pos (Nat.zero_lt_of_lt hlength))]
            at h
          exact ih h

theorem lookup_fields {step : CompiledStep} {fields : List BodyField}
    {out : List (String × Value)} (h : assembleFields step scope fields [] = .ok out) :
    Entries.lookup name out = if name ∈ fields.map (·.name) then own scope name else none := by
  obtain ⟨hset, hkept⟩ := lookup_assembleFields h name
  split_ifs with hmem
  · obtain ⟨v, hv, hlookup⟩ := hset hmem
    rw [hlookup, own_of_resolve hv, Entries.lookup_nil, Option.or_none]
  · exact hkept hmem

theorem readBody_member {operation : OperationSchema} {members : List (String × Value)} :
    readBody operation (wrapBody operation members) [.key name] = Entries.lookup name members := by
  by_cases hnil : members = []
  · subst hnil
    have hobject : readAt (.object []) [.key name] = none := rfl
    unfold readBody envelope wrapBody
    cases harray : (operation.requestBody.map (·.isArray)).getD false with
    | true => simp
    | false => simpa using fun _ _ => hobject
  · rw [readBody_wrap hnil, readAt, Value.get?]
    cases Entries.lookup name members <;> rfl

/-- A member of the body: the field's own value under the edited writes. -/
theorem member_of_assembled {operation : OperationSchema} {step : CompiledStep}
    {options : RunOptions} {json : Option Value} (hoptions : options.explicitBody = none)
    (h : assembleBody operation step scope options = .ok json) :
    readBody operation json [.key name] = overwritten name (editedWrites scope step.inputs)
      (if name ∈ operation.bodyFields.map (·.name) then own scope name else none) := by
  unfold assembleBody at h
  rw [hoptions] at h
  obtain ⟨fields, hfields, h⟩ := Checks.bind_eq_ok.mp h
  obtain ⟨body, hbody, h⟩ := Checks.bind_eq_ok.mp h
  obtain rfl := Except.ok.inj h
  rw [readBody_member, mergeBindings_edited hbody, lookup_setAll fun _ => editedWrites_ne,
    membersOf, lookup_fields hfields]

end Members

end NestedWrites
