import AgsCli.Invocation.CommandLine
import AgsCli.Invocation.ServiceRoute
import Mathlib.Data.List.TakeWhile

/-! # The flag of a parameter

A parameter's flag is put among the other flags of a line. It reaches the parameter, and nothing
else changes, unless a scan, the help or the version check takes it first. -/
namespace ParameterFlags

open OrderedMap Json CatalogueTypes WorkflowTypes RequestTypes FlagCapture Strings Flags CommandLine
  CliInputs Synthesised AutoDerive
open HelpTree (LeafSelectors ResolvedContract)

/-- The long name `build_service_command_tree` gives a parameter. -/
def longName (table : Casing.CaseTable) (p : ParameterSchema) : String :=
  Casing.toKebabCase table p.name

def parameterFlag (table : Casing.CaseTable) (p : ParameterSchema) : String :=
  "--" ++ longName table p

def switchNames : List String :=
  ["verbose", "quiet", "no-input", "no-color", "yes", "dry-run", "skeleton", "page-all"]

def valueNames : List String :=
  ["format", "ui", "namespace", "output", "profile", "timeout", "page-limit"]

/-- The long names that never reach an operation's own arguments. -/
def takenNames : List String :=
  switchNames ++ ["format", "ui", "output", "profile", "timeout", "page-limit"] ++
    ["api-scope", "api-version", "version", "help"]

section Names

variable {name : String}

theorem dropped_long (name : String) : String.ofList (("--" ++ name).toList.drop 2) = name := by
  rw [toList_long]
  exact String.ofList_toList

theorem takesValue_long {b : Bool} (h : takesValue? ("--" ++ name) = some b) :
    name ∈ if b then valueNames else switchNames := by
  have hall : ∀ known ∈ knownGlobalFlags, known.1.toList.take 2 = ['-', '-'] →
      String.ofList (known.1.toList.drop 2) ∈ if known.2 then valueNames else switchNames := by
    simp [knownGlobalFlags, valueNames, switchNames]
  have hname := hall _ (mem_of_takesValue h) (by rw [toList_long]; rfl)
  rwa [dropped_long] at hname

theorem selector_long (h : "--" ++ name ∈ selectorFlags) :
    name = "api-scope" ∨ name = "api-version" := by
  have hall : ∀ flag ∈ selectorFlags, String.ofList (flag.toList.drop 2) = "api-scope" ∨
      String.ofList (flag.toList.drop 2) = "api-version" := by decide
  have hname := hall _ h
  rwa [dropped_long] at hname

theorem long_injective {name other : String} (h : "--" ++ name = "--" ++ other) : name = other := by
  rw [← dropped_long name, h, dropped_long]

theorem dash_long (name : String) : startsWithDash ("--" ++ name) = true := by
  rw [startsWithDash, toList_long]
  rfl

theorem isVersion_long : isVersion ("--" ++ name) = true ↔ name = "version" := by
  rw [isVersion, Bool.or_eq_true, beq_iff_eq, beq_iff_eq]
  constructor
  · rintro (heq | heq)
    · exact long_injective heq
    · have hlist := congrArg String.toList heq
      rw [toList_long] at hlist
      cases hlist
  · rintro rfl
    exact Or.inl rfl

theorem isHelp_long : isHelp ("--" ++ name) = true ↔ name = "help" := by
  rw [isHelp, Bool.or_eq_true, beq_iff_eq, beq_iff_eq]
  constructor
  · rintro (heq | heq)
    · exact long_injective heq
    · have hlist := congrArg String.toList heq
      rw [toList_long] at hlist
      cases hlist
  · rintro rfl
    exact Or.inl rfl

/-- A name without an equals sign is no flag with its value. -/
theorem splitInline_plain (h : '=' ∉ name.toList) : splitInline name = (name, none) := by
  have hdrop : name.toList.dropWhile (· ≠ '=') = [] := by
    rw [List.dropWhile_eq_nil_iff]
    intro c hc
    rw [decide_eq_true_eq]
    rintro rfl
    exact h hc
  unfold splitInline
  rw [hdrop]

theorem splitInline_inline (h : '=' ∈ name.toList) : (splitInline name).2.isSome = true := by
  have hdrop : name.toList.dropWhile (· ≠ '=') ≠ [] := by
    rw [Ne, List.dropWhile_eq_nil_iff]
    exact fun hall => of_decide_eq_true (hall '=' h) rfl
  unfold splitInline
  split
  · next hnil => exact absurd hnil hdrop
  · rfl

end Names

section Given

variable {k : String} {v w : String} {front back : List (String × String)}

theorem lookup_apart {k' : String} (h : k ≠ k') :
    Entries.lookup k (front ++ (k', v) :: back) = Entries.lookup k (front ++ back) := by
  induction front with
  | nil => rw [List.nil_append, List.nil_append, Entries.lookup_cons, if_neg h]
  | cons e front ih =>
    obtain ⟨k'', w⟩ := e
    rw [List.cons_append, List.cons_append, Entries.lookup_cons, Entries.lookup_cons, ih]

theorem lookup_here (h : k ∉ front.map Prod.fst) :
    Entries.lookup k (front ++ (k, v) :: back) = some v := by
  induction front with
  | nil => rw [List.nil_append, Entries.lookup_cons, if_pos rfl]
  | cons e front ih =>
    obtain ⟨k', w⟩ := e
    rw [List.map_cons, List.mem_cons, not_or] at h
    rw [List.cons_append, Entries.lookup_cons, if_neg h.1]
    exact ih h.2

theorem lookup_behind (h : k ∉ back.map Prod.fst) :
    Entries.lookup k (front ++ back) = Entries.lookup k front := by
  induction front with
  | nil =>
    cases hget : Entries.lookup k back with
    | none => exact hget
    | some v => exact absurd (List.mem_map_of_mem (Entries.mem_of_lookup hget)) h
  | cons e front ih =>
    obtain ⟨k', w⟩ := e
    rw [List.cons_append, Entries.lookup_cons, Entries.lookup_cons, ih]

theorem lookup_absent {ν : Type} {entries : List (String × ν)} (h : k ∉ entries.map Prod.fst) :
    Entries.lookup k entries = none := by
  cases hget : Entries.lookup k entries with
  | none => rfl
  | some v => exact absurd (List.mem_map_of_mem (Entries.mem_of_lookup hget)) h

end Given

section Inputs

variable {readers : Readers} {compiled : CompiledWorkflow} {operation : OperationSchema}
  {args args' : String → Option String} {body : Option Value} {name : String}

theorem flagOf_congr (h : args name = args' name) :
    flagOf operation args name = flagOf operation args' name := by
  rw [flagOf, flagOf, h]

/-- The flags and members of an input that is not declared are dropped. -/
theorem supplied_undeclared (h : name ∉ compiled.inputs.map (·.name)) :
    (cliFlagsMatchingWorkflowInputs readers compiled
      (buildCommandRequest operation args body)).get? name = none := by
  have hschemas : (inputSchemas compiled).contains name = false := by
    rw [Bool.eq_false_iff]
    intro hcontains
    have hmem := BTreeMap.contains_ofList.mp hcontains
    rw [List.map_map] at hmem
    exact h hmem
  have hflags : (BTreeMap.ofList ((stringParams (buildCommandRequest operation args
      body)).filterMap (coercedFlag? readers compiled))).get? name = none := by
    cases hget : (BTreeMap.ofList ((stringParams (buildCommandRequest operation args
        body)).filterMap (coercedFlag? readers compiled))).get? name with
    | none => rfl
    | some v =>
      obtain ⟨flag, -, hflag⟩ := List.mem_filterMap.mp (BTreeMap.mem_of_get?_ofList hget)
      obtain ⟨schema, hschema, heq⟩ := Option.map_eq_some_iff.mp hflag
      rw [(Prod.mk.inj heq).1] at hschema
      rw [BTreeMap.contains, hschema] at hschemas
      cases hschemas
  have hmembers : Entries.lookup name ((bodyMembers body).filter fun member =>
      (inputSchemas compiled).contains member.1).reverse = none := by
    refine lookup_absent fun hmem => ?_
    obtain ⟨member, hmember, rfl⟩ := List.mem_map.mp hmem
    have hkept := (List.mem_filter.mp (List.mem_reverse.mp hmember)).2
    rw [hschemas] at hkept
    cases hkept
  refine (BTreeMap.get?_insertAll _ _ name).trans ?_
  change (Entries.lookup name ((bodyMembers body).filter fun member =>
    (inputSchemas compiled).contains member.1).reverse).or _ = none
  rw [hmembers]
  exact hflags

/-- The pre-supplied value of a parameter: the body's member of its name, else its flag, else the
null of a body field. -/
theorem supplied_param {service operationId : String} {step : CompiledStep} {p : ParameterSchema}
    (h : OneStep service operationId operation compiled step) (hp : p ∈ operation.parameters)
    (hlocation : p.location ≠ .body) :
    (preSupplied readers compiled operation args body).get? p.name =
      ((memberOf body p.name).or ((args p.name).map fun raw =>
        coerceCliValue readers raw (some (parameterSchemaValue p)))).or
        (if body.isSome ∧ p.name ∈ operation.bodyFields.map (·.name) then some .null
          else none) := by
  obtain ⟨spec, hspec, hkept⟩ := h.parameters p hp hlocation
  have hname : spec.name = p.name := hkept.name
  have hschema : spec.schema = some (parameterSchemaValue p) := hkept.schema
  have hsupplied : (cliFlagsMatchingWorkflowInputs readers compiled
      (buildCommandRequest operation args body)).get? p.name =
      (memberOf body p.name).or ((args p.name).map fun raw =>
        coerceCliValue readers raw (some (parameterSchemaValue p))) := by
    rw [← hname]
    refine (members_get? h.nodup hspec _).trans (congrArg _ ?_)
    refine (flags_get? h.nodup hspec).trans ?_
    rw [hname, ServiceRoute.flagOf_eq hp hlocation, hschema]
  rw [preSupplied]
  cases body with
  | none =>
    rw [if_neg (by decide), hsupplied, if_neg (by simp), Option.or_none]
  | some value =>
    rw [if_pos Option.isSome_some, nulls_get?, hsupplied]
    simp

/-- An input is supplied from the flag and the member of its own name alone. -/
theorem supplied_congr (hnodup : (compiled.inputs.map (·.name)).Nodup)
    (h : args name = args' name) :
    (preSupplied readers compiled operation args body).get? name =
      (preSupplied readers compiled operation args' body).get? name := by
  have hsupplied : (cliFlagsMatchingWorkflowInputs readers compiled
      (buildCommandRequest operation args body)).get? name =
      (cliFlagsMatchingWorkflowInputs readers compiled
        (buildCommandRequest operation args' body)).get? name := by
    by_cases hname : name ∈ compiled.inputs.map (·.name)
    · obtain ⟨spec, hspec, rfl⟩ := List.mem_map.mp hname
      refine (members_get? hnodup hspec _).trans ?_
      refine Eq.trans (congrArg _ ?_) (members_get? hnodup hspec _).symm
      refine (flags_get? hnodup hspec).trans ?_
      rw [flagOf_congr h]
      exact (flags_get? hnodup hspec).symm
    · rw [supplied_undeclared hname, supplied_undeclared hname]
  rw [preSupplied, preSupplied]
  split_ifs
  · rw [nulls_get?, nulls_get?, hsupplied]
  · exact hsupplied

end Inputs

end ParameterFlags
