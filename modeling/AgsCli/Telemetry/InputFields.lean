import AgsCli.Protocol.Workflow
import AgsCli.Support.Casing
import Mathlib.Data.List.Infix

/-! # The input fields of a failed step

What telemetry sends of the resolved fields of a step: values redacted by the name and the schema
of the field and by the names inside the value, and cut off where they are too long. -/
namespace InputFields

open OrderedMap Json WorkflowTypes Casing

section Redaction

def maxInputFieldValueBytes : ℕ := 2048

def oversizedValueMarker : String := "<oversized-value-omitted>"

def nestedRedactedMarker : String := "<redacted>"

def sensitiveNameNeedles : List String :=
  ["secret", "password", "token", "key", "credential", "auth", "passwd", "pwd", "bearer",
   "signature", "session", "cookie", "salt", "private"]

variable (table : CaseTable)

def isSensitiveName (name : String) : Bool :=
  sensitiveNameNeedles.any fun needle =>
    decide (needle.toList <:+: toLowercase table name.toList)

def asBool? : Value → Option Bool
  | .bool b => some b
  | _ => none

def schemaMarksSensitive (schema : Value) : Bool :=
  ((schema.get? "writeOnly").bind asBool?).getD false ||
    (schema.get? "format").bind Value.asStr? = some "password"

mutual

def redactAllLeaves : Value → Value
  | .object members => .object (redactAllMembers members)
  | .array items => .array (redactAllItems items)
  | .null | .bool _ | .number _ | .string _ => .string nestedRedactedMarker

def redactAllItems : List Value → List Value
  | [] => []
  | v :: rest => redactAllLeaves v :: redactAllItems rest

def redactAllMembers : List (String × Value) → List (String × Value)
  | [] => []
  | (k, v) :: rest => (k, redactAllLeaves v) :: redactAllMembers rest

end

mutual

def redactNested : Value → Value
  | .object members => .object (redactMembers members)
  | .array items => .array (redactItems items)
  | .null => .null
  | .bool b => .bool b
  | .number n => .number n
  | .string s => .string s

def redactItems : List Value → List Value
  | [] => []
  | v :: rest => redactNested v :: redactItems rest

def redactMembers : List (String × Value) → List (String × Value)
  | [] => []
  | (k, v) :: rest =>
    (k, if isSensitiveName table k then redactAllLeaves v else redactNested v) ::
      redactMembers rest

end

def capValueSize (value : Value) : Value :=
  if maxInputFieldValueBytes < value.render.utf8ByteSize then .string oversizedValueMarker
  else value

def redactFieldValue (name : String) (schema value : Value) : Option Value :=
  if isSensitiveName table name || schemaMarksSensitive schema then none
  else some (capValueSize (redactNested table value))

def sourceLabel (flagNames : List String) : StepFieldSource → String
  | .workflowInput name => if flagNames.contains name then "flag" else "prompt"
  | .default _ => "default"
  | .priorOutput => "prior_output"
  | .literal => "literal"
  | .unset => "unset"
  | .derived _ => "derived"

structure StepInputField where
  field : String
  location : StepFieldLocation
  source : String
  required : Bool
  value : Option Value
  deriving DecidableEq

/-- `disabled` is the kill switch of the environment. -/
def buildStepInputFields (planFields : List StepField) (flagNames : List String)
    (bundled disabled : Bool) : List StepInputField :=
  let transmitValues := bundled && !disabled
  planFields.map fun field =>
    { field := field.field
      location := field.location
      source := sourceLabel flagNames field.source
      required := field.required
      value :=
        if transmitValues then redactFieldValue table field.field field.schema field.value
        else none }

end Redaction

section Secrets

variable (table : CaseTable)

mutual

/-- A value without its secret leaves: all of them where `hidden`, those below a sensitive name,
and those at a place whose own schema says so. -/
def blank (hidden : Bool) (schema : Option Value) : Value → Value
  | .object members => .object (blankMembers hidden (schema.bind (·.get? "properties")) members)
  | .array items => .array (blankItems hidden (schema.bind (·.get? "items")) items)
  | .null => .null
  | .bool b => if hidden || schema.any schemaMarksSensitive then .null else .bool b
  | .number n => if hidden || schema.any schemaMarksSensitive then .null else .number n
  | .string s => if hidden || schema.any schemaMarksSensitive then .null else .string s

def blankItems (hidden : Bool) (schema : Option Value) : List Value → List Value
  | [] => []
  | v :: rest => blank hidden schema v :: blankItems hidden schema rest

def blankMembers (hidden : Bool) (properties : Option Value) :
    List (String × Value) → List (String × Value)
  | [] => []
  | (k, v) :: rest =>
    (k, blank (hidden || isSensitiveName table k) (properties.bind (·.get? k)) v) ::
      blankMembers hidden properties rest

end

def isSensitiveField (field : StepField) : Bool :=
  isSensitiveName table field.field || schemaMarksSensitive field.schema

/-- A field without its secret leaves; `nested` goes by the schemas inside the schema too. -/
def blankField (nested : Bool) (field : StepField) : StepField :=
  { field with
    value := blank table (isSensitiveField table field) (if nested then some field.schema else none)
      field.value }

def Alike (nested : Bool) (fields fields' : List StepField) : Prop :=
  fields.map (blankField table nested) = fields'.map (blankField table nested)

def SameButValues (fields fields' : List StepField) : Prop :=
  fields.map (fun field => { field with value := .null }) =
    fields'.map fun field => { field with value := .null }

end Secrets

section Blanking

variable {table : CaseTable} {hidden : Bool}

mutual

theorem redactAllLeaves_blank (hidden : Bool) :
    ∀ v, redactAllLeaves (blank table hidden none v) = redactAllLeaves v
  | .object members =>
    congrArg Value.object (redactAllMembers_blank hidden members)
  | .array items => congrArg Value.array (redactAllItems_blank hidden items)
  | .null => rfl
  | .bool b => by cases hidden <;> rfl
  | .number n => by cases hidden <;> rfl
  | .string s => by cases hidden <;> rfl

theorem redactAllItems_blank (hidden : Bool) :
    ∀ items, redactAllItems (blankItems table hidden none items) = redactAllItems items
  | [] => rfl
  | v :: rest => congrArg₂ List.cons (redactAllLeaves_blank hidden v)
    (redactAllItems_blank hidden rest)

theorem redactAllMembers_blank (hidden : Bool) :
    ∀ members, redactAllMembers (blankMembers table hidden none members) =
      redactAllMembers members
  | [] => rfl
  | (k, v) :: rest => congrArg₂ List.cons (congrArg (Prod.mk k) (redactAllLeaves_blank _ v))
    (redactAllMembers_blank hidden rest)

end

mutual

/-- Redaction does not look at the leaves that blanking takes away. -/
theorem redactNested_blank : ∀ v, redactNested table (blank table false none v) =
    redactNested table v
  | .object members => congrArg Value.object (redactMembers_blank members)
  | .array items => congrArg Value.array (redactItems_blank items)
  | .null | .bool _ | .number _ | .string _ => rfl

theorem redactItems_blank : ∀ items, redactItems table (blankItems table false none items) =
    redactItems table items
  | [] => rfl
  | v :: rest => congrArg₂ List.cons (redactNested_blank v) (redactItems_blank rest)

theorem redactMembers_blank : ∀ members,
    redactMembers table (blankMembers table false none members) = redactMembers table members
  | [] => rfl
  | (k, v) :: rest => by
    refine congrArg₂ List.cons (congrArg (Prod.mk k) ?_) (redactMembers_blank rest)
    by_cases hk : isSensitiveName table k = true
    · rw [if_pos hk, if_pos hk]
      exact redactAllLeaves_blank _ v
    · rw [if_neg hk, if_neg hk, Bool.eq_false_iff.mpr hk]
      exact redactNested_blank v

end

/-- What is sent of a field is sent of the field without its secret leaves. -/
theorem redactFieldValue_blank (table : CaseTable) (field : StepField) :
    redactFieldValue table field.field field.schema (blankField table false field).value =
      redactFieldValue table field.field field.schema field.value := by
  by_cases hfield : isSensitiveField table field = true
  · have hwithheld : ∀ v, redactFieldValue table field.field field.schema v = none :=
      fun v => if_pos hfield
    rw [hwithheld, hwithheld]
  · have hblank : (blankField table false field).value = blank table false none field.value := by
      rw [blankField, Bool.eq_false_iff.mpr hfield]
      rfl
    rw [hblank, redactFieldValue, redactFieldValue, redactNested_blank]

variable {fields fields' : List StepField} {flagNames : List String} {bundled disabled : Bool}

theorem build_blank (fields : List StepField) :
    buildStepInputFields table (fields.map (blankField table false)) flagNames bundled disabled =
      buildStepInputFields table fields flagNames bundled disabled := by
  rw [buildStepInputFields, List.map_map]
  refine List.map_congr_left fun field _ => ?_
  have hvalue := redactFieldValue_blank table field
  simp only [Function.comp_apply, StepInputField.mk.injEq]
  refine ⟨rfl, rfl, rfl, rfl, ?_⟩
  split_ifs
  · exact hvalue
  · rfl

theorem build_of_alike (h : Alike table false fields fields') :
    buildStepInputFields table fields flagNames bundled disabled =
      buildStepInputFields table fields' flagNames bundled disabled := by
  rw [← build_blank fields, h, build_blank fields']

/-- No value is told of a workflow of somebody else's, nor with the kill switch set. -/
theorem build_withheld (hwithheld : bundled = false ∨ disabled = true)
    (h : SameButValues fields fields') :
    buildStepInputFields table fields flagNames bundled disabled =
      buildStepInputFields table fields' flagNames bundled disabled := by
  have htransmit : (bundled && !disabled) = false := by
    rcases hwithheld with rfl | rfl
    · rfl
    · exact Bool.and_false bundled
  have hmap : ∀ fields, buildStepInputFields table fields flagNames bundled disabled =
      (fields.map fun field : StepField => { field with value := .null }).map fun field =>
        { field := field.field, location := field.location
          source := sourceLabel flagNames field.source, required := field.required
          value := none } := by
    intro fields
    rw [buildStepInputFields, htransmit, List.map_map]
    rfl
  rw [hmap, hmap, h]

/-- What is sent does not depend on the leaves of a field that is sensitive, nor on those below a
sensitive name at any depth; and on no value at all unless the workflow is bundled and the kill
switch off. -/
theorem input_fields_hide (table : CaseTable) {fields fields' : List StepField}
    (flagNames : List String) (bundled disabled : Bool) :
    (Alike table false fields fields' →
      buildStepInputFields table fields flagNames bundled disabled =
        buildStepInputFields table fields' flagNames bundled disabled) ∧
    (bundled = false ∨ disabled = true → SameButValues fields fields' →
      buildStepInputFields table fields flagNames bundled disabled =
        buildStepInputFields table fields' flagNames bundled disabled) :=
  ⟨build_of_alike, build_withheld⟩

end Blanking

section Accounts

/-- A body field whose `pin` is write-only by the schema inside its schema. -/
def account (pin session : String) : StepField :=
  { id := 0, field := "account", label := "account", description := none, location := .body
    schema := .object [("type", .string "object"), ("properties", .object
      [("pin", .object [("type", .string "string"), ("writeOnly", .bool true)])])]
    value := .object [("pin", .string pin), ("session", .object [("id", .string session)])]
    source := .literal, required := true, workflowInput := none, bodyOverflow := false
    showInReview := false }

theorem input_fields_hide_session :
    buildStepInputFields sampleTable [account "1234" "s1"] [] true false =
        buildStepInputFields sampleTable [account "1234" "s2"] [] true false ∧
      buildStepInputFields sampleTable [account "1234" "s1"] [] false false =
        buildStepInputFields sampleTable [account "9999" "s2"] [] false false :=
  ⟨(input_fields_hide sampleTable [] true false).1 rfl,
    (input_fields_hide sampleTable [] false false).2 (.inl rfl) rfl⟩

/-- The schemas inside the schema are not looked at. -/
theorem write_only_pin_sent :
    Alike sampleTable true [account "1234" "s1"] [account "9999" "s1"] ∧
      buildStepInputFields sampleTable [account "1234" "s1"] [] true false ≠
        buildStepInputFields sampleTable [account "9999" "s1"] [] true false := by
  constructor
  · rfl
  · decide

end Accounts

end InputFields
