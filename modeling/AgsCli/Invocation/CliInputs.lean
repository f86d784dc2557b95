import AgsCli.Workflow.Synthesised

/-! # Command-line values as workflow inputs

`build_command_request`, `coerce_cli_value`, `cli_flags_matching_workflow_inputs` and the null
back-fill of `route_service`: the map of pre-supplied inputs, and what it has for one name. -/
namespace CliInputs

open OrderedMap Json CatalogueTypes WorkflowTypes RequestTypes Resolve Synthesised

/-- The readers of floats and of JSON texts; a float is kept by its rendered text. -/
structure Readers where
  parseFloat : String → Option String
  parseJson : String → Option Value

def parseI64 (raw : String) : Option Int :=
  let (negative, digits) := match raw.toList with
    | '-' :: rest => (true, rest)
    | '+' :: rest => (false, rest)
    | rest => (false, rest)
  if digits.isEmpty || !digits.all Strings.isAsciiDigit then none
  else
    let magnitude : Int := digits.foldl (fun n c => n * 10 + (c.toNat - '0'.toNat)) 0
    let n := if negative then -magnitude else magnitude
    if -2 ^ 63 ≤ n ∧ n < 2 ^ 63 then some n else none

def typeHint (schema : Option Value) : String :=
  ((schema.bind (·.get? "type")).bind (·.asStr?)).getD "string"

def coerceCliValue (readers : Readers) (raw : String) (schema : Option Value) : Value :=
  match typeHint schema with
  | "integer" => ((parseI64 raw).map fun n => .number (.int n)).getD (.string raw)
  | "number" => ((readers.parseFloat raw).map fun text => .number (.float text)).getD (.string raw)
  | "boolean" =>
    match Strings.asciiLower raw with
    | "true" => .bool true
    | "false" => .bool false
    | _ => .string raw
  | "array" | "object" => (readers.parseJson raw).getD (.string raw)
  | _ => .string raw

structure CliRequest where
  pathParams : BTreeMap String String
  queryParams : BTreeMap String String
  headerParams : BTreeMap String String
  formParams : BTreeMap String String
  «namespace» : Option String
  body : Option Value

def flagsAt (operation : OperationSchema) (args : String → Option String)
    (location : ParameterLocation) : BTreeMap String String :=
  .ofList ((operation.parameters.filter fun p => p.location = location).filterMap fun p =>
    (args p.name).map fun raw => (p.name, raw))

/-- `build_command_request`, `args` being the flags given. -/
def buildCommandRequest (operation : OperationSchema) (args : String → Option String)
    (body : Option Value) : CliRequest :=
  { pathParams := flagsAt operation args .path
    queryParams := flagsAt operation args .query
    headerParams := flagsAt operation args .header
    formParams := flagsAt operation args .formData
    «namespace» := none
    body }

def stringParams (request : CliRequest) : List (String × String) :=
  request.pathParams.entries ++ request.queryParams.entries ++ request.headerParams.entries ++
    request.formParams.entries

def inputSchemas (compiled : CompiledWorkflow) : BTreeMap String (Option Value) :=
  .ofList (compiled.inputs.map fun spec => (spec.name, spec.schema))

def coercedFlag? (readers : Readers) (compiled : CompiledWorkflow) (flag : String × String) :
    Option (String × Value) :=
  ((inputSchemas compiled).get? flag.1).map fun schema =>
    (flag.1, coerceCliValue readers flag.2 schema)

def bodyMembers (body : Option Value) : List (String × Value) :=
  match body with
  | some (.object members) => members
  | _ => []

/-- `cli_flags_matching_workflow_inputs`: flags, then the namespace, then body members. -/
def cliFlagsMatchingWorkflowInputs (readers : Readers) (compiled : CompiledWorkflow)
    (request : CliRequest) : Values :=
  let flags := (stringParams request).filterMap (coercedFlag? readers compiled)
  let named := (request.namespace.map fun ns => ("namespace", ns)).toList.filterMap
    (coercedFlag? readers compiled)
  let members := (bodyMembers request.body).filter fun member =>
    (inputSchemas compiled).contains member.1
  ((BTreeMap.ofList flags).insertAll named).insertAll members

/-- A body field not supplied yet is marked with a null. -/
def markNull (supplied : Values) (field : BodyField) : Values :=
  if supplied.contains field.name then supplied else supplied.insert field.name .null

/-- The `pre_supplied` map of `route_service`. -/
def preSupplied (readers : Readers) (compiled : CompiledWorkflow) (operation : OperationSchema)
    (args : String → Option String) (body : Option Value) : Values :=
  let supplied := cliFlagsMatchingWorkflowInputs readers compiled
    (buildCommandRequest operation args body)
  if body.isSome then operation.bodyFields.foldl markNull supplied else supplied

def flagOf (operation : OperationSchema) (args : String → Option String) (name : String) :
    Option String :=
  if ∃ p ∈ operation.parameters, p.location ≠ .body ∧ p.name = name then args name else none

/-- The member of a body for a name; a later one of the name wins. -/
def memberOf (body : Option Value) (name : String) : Option Value :=
  (BTreeMap.ofList (bodyMembers body)).get? name

section Lookup

variable {readers : Readers} {compiled : CompiledWorkflow} {operation : OperationSchema}
  {args : String → Option String} {body : Option Value}

theorem flag_of_mem {location : ParameterLocation} {e : String × String}
    (h : e ∈ (flagsAt operation args location).entries) : args e.1 = some e.2 ∧
      ∃ p ∈ operation.parameters, p.location = location ∧ p.name = e.1 := by
  have hget := BTreeMap.get?_of_mem h
  obtain ⟨p, hp, hsome⟩ := List.mem_filterMap.mp (BTreeMap.mem_of_get?_ofList hget)
  obtain ⟨raw, hraw, heq⟩ := Option.map_eq_some_iff.mp hsome
  obtain ⟨hmem, hlocation⟩ := List.mem_filter.mp hp
  obtain ⟨hname, rfl⟩ := Prod.mk.inj heq
  rw [← hname]
  exact ⟨hraw, p, hmem, of_decide_eq_true hlocation, rfl⟩

theorem mem_of_flag {p : ParameterSchema} {raw : String} (hp : p ∈ operation.parameters)
    (hraw : args p.name = some raw) :
    (p.name, raw) ∈ (flagsAt operation args p.location).entries := by
  have hmem : p ∈ operation.parameters.filter fun q => q.location = p.location :=
    List.mem_filter.mpr ⟨hp, decide_eq_true rfl⟩
  have hget := BTreeMap.get?_ofList_graph _ ParameterSchema.name args hmem
  rw [hraw] at hget
  exact Entries.mem_of_lookup hget

theorem mem_stringParams {e : String × String} :
    e ∈ stringParams (buildCommandRequest operation args body) ↔
      args e.1 = some e.2 ∧ ∃ p ∈ operation.parameters, p.location ≠ .body ∧ p.name = e.1 := by
  simp only [stringParams, buildCommandRequest, List.mem_append]
  constructor
  · rintro (((h | h) | h) | h)
    all_goals
      obtain ⟨hraw, p, hp, hlocation, hname⟩ := flag_of_mem h
      refine ⟨hraw, p, hp, ?_, hname⟩
      rw [hlocation]
      decide
  · rintro ⟨hraw, p, hp, hlocation, hname⟩
    rw [← hname] at hraw
    have hmem := mem_of_flag hp hraw
    have heq : e = (p.name, e.2) := Prod.ext hname.symm rfl
    rw [heq]
    cases hat : p.location with
    | path => rw [hat] at hmem; exact Or.inl (Or.inl (Or.inl hmem))
    | query => rw [hat] at hmem; exact Or.inl (Or.inl (Or.inr hmem))
    | header => rw [hat] at hmem; exact Or.inl (Or.inr hmem)
    | formData => rw [hat] at hmem; exact Or.inr hmem
    | body => exact absurd hat hlocation

theorem mem_stringParams_iff {name raw : String} :
    (name, raw) ∈ stringParams (buildCommandRequest operation args body) ↔
      flagOf operation args name = some raw := by
  rw [mem_stringParams, flagOf]
  split_ifs with h
  · exact and_iff_left h
  · exact ⟨fun hmem => absurd hmem.2 h, fun hnone => hnone.elim⟩

theorem inputSchemas_get? (hnodup : (compiled.inputs.map (·.name)).Nodup)
    {spec : WorkflowInputSpec} (hspec : spec ∈ compiled.inputs) :
    (inputSchemas compiled).get? spec.name = some spec.schema := by
  have hmem : (spec.name, spec.schema) ∈ compiled.inputs.map fun s => (s.name, s.schema) :=
    List.mem_map_of_mem hspec
  refine BTreeMap.get?_ofList_of_nodup ?_ hmem
  rwa [List.map_map]

/-- The flags part of the map: the coerced flag of each declared input. -/
theorem flags_get? (hnodup : (compiled.inputs.map (·.name)).Nodup) {spec : WorkflowInputSpec}
    (hspec : spec ∈ compiled.inputs) :
    (BTreeMap.ofList ((stringParams (buildCommandRequest operation args body)).filterMap
      (coercedFlag? readers compiled))).get? spec.name =
      (flagOf operation args spec.name).map fun raw => coerceCliValue readers raw spec.schema := by
  have hschema := inputSchemas_get? hnodup hspec
  have hentry : ∀ {v}, (spec.name, v) ∈ (stringParams (buildCommandRequest operation args
      body)).filterMap (coercedFlag? readers compiled) ↔
      (flagOf operation args spec.name).map
        (fun raw => coerceCliValue readers raw spec.schema) = some v := by
    intro v
    rw [List.mem_filterMap, Option.map_eq_some_iff]
    constructor
    · rintro ⟨e, he, hcoerced⟩
      obtain ⟨schema, hget, heq⟩ := Option.map_eq_some_iff.mp hcoerced
      obtain ⟨hname, rfl⟩ := Prod.mk.inj heq
      rw [hname, hschema] at hget
      obtain rfl := Option.some.inj hget
      obtain ⟨name, raw⟩ := e
      obtain rfl : name = spec.name := hname
      exact ⟨raw, mem_stringParams_iff.mp he, rfl⟩
    · rintro ⟨raw, hflag, rfl⟩
      refine ⟨(spec.name, raw), mem_stringParams_iff.mpr hflag, ?_⟩
      rw [coercedFlag?, hschema, Option.map_some]
  cases hget : (BTreeMap.ofList ((stringParams (buildCommandRequest operation args body)).filterMap
      (coercedFlag? readers compiled))).get? spec.name with
  | some v => exact (hentry.mp (BTreeMap.mem_of_get?_ofList hget)).symm
  | none =>
    cases hflag : (flagOf operation args spec.name).map
        fun raw => coerceCliValue readers raw spec.schema with
    | none => rfl
    | some v =>
      have hkey := BTreeMap.contains_ofList.mpr
        (List.mem_map_of_mem (f := Prod.fst) (hentry.mpr hflag))
      rw [BTreeMap.contains, hget] at hkey
      cases hkey

theorem members_get? (hnodup : (compiled.inputs.map (·.name)).Nodup) {spec : WorkflowInputSpec}
    (hspec : spec ∈ compiled.inputs) (flags : Values) :
    (flags.insertAll ((bodyMembers body).filter fun member =>
      (inputSchemas compiled).contains member.1)).get? spec.name =
      (memberOf body spec.name).or (flags.get? spec.name) := by
  have hdeclared : (inputSchemas compiled).contains spec.name = true := by
    rw [BTreeMap.contains, inputSchemas_get? hnodup hspec]
    rfl
  rw [BTreeMap.get?_insertAll, ← List.filter_reverse,
    Entries.lookup_filter_key (fun name => (inputSchemas compiled).contains name) hdeclared,
    memberOf, BTreeMap.get?_ofList]

theorem nulls_get? (fields : List BodyField) (supplied : Values) (name : String) :
    (fields.foldl markNull supplied).get? name =
      (supplied.get? name).or (if name ∈ fields.map (·.name) then some .null else none) := by
  induction fields generalizing supplied with
  | nil => simp
  | cons field rest ih =>
    rw [List.foldl_cons, ih, markNull]
    by_cases hname : name = field.name
    · subst hname
      rw [if_pos (c := _ ∈ List.map _ (field :: rest)) List.mem_cons_self]
      split_ifs with hcontained hrest
      · rfl
      · obtain ⟨v, hv⟩ := BTreeMap.contains_eq_true.mp hcontained
        rw [hv]
        rfl
      · simp_all [BTreeMap.contains]
      · simp_all [BTreeMap.contains]
    · have hmem : name ∈ (field :: rest).map (·.name) ↔ name ∈ rest.map (·.name) := by
        rw [List.map_cons, List.mem_cons, or_iff_right hname]
      rw [if_congr hmem rfl rfl]
      split_ifs
      · rfl
      · rfl
      · rw [BTreeMap.get?_insert_of_ne _ hname]
      · rw [BTreeMap.get?_insert_of_ne _ hname]

end Lookup

end CliInputs
