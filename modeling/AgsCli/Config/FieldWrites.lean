import AgsCli.Config.RoundTrip

/-! # What a writer does to the fields of a config file

The four kinds of locked write, the fields each declares to write, and that the document it
produces holds exactly these and otherwise what the file held. -/
namespace FieldWrites

open OrderedMap Json ConfigKeys ConfigStore ConfigRoundTrip

/-- What a file holds for a field: a value of its type, or some other JSON value. -/
inductive Held
  | typed (v : FieldValue)
  | raw (v : Value)

def heldValue (fieldType : FieldType) (member : Option Value) : Option Held :=
  match decodeField fieldType member with
  | some v => v.map .typed
  | none => member.map .raw

def heldIn (fields : Fields) (document : Value) (name : String) : Option Held :=
  (Entries.lookup name fields).bind fun fieldType => heldValue fieldType (document.get? name)

abbrev Writes := List (String × Option Held)

def overwrite (writes : Writes) (before : String → Option Held) (name : String) : Option Held :=
  (Entries.lookup name writes).getD (before name)

section Encoding

def encodeValue : FieldValue → Value
  | .string s => .string s
  | .bool b => .bool b
  | .u64 n => .number (.int n)
  | .format .human => .string "human"
  | .format .json => .string "json"
  | .grantType .authorizationCode => .string "authorization-code"
  | .grantType .clientCredentials => .string "client-credentials"

def insertField (config : Typed) (members : List (String × Value)) (e : String × FieldType) :
    List (String × Value) :=
  match config.field e.1 with
  | some v => Entries.insert e.1 (encodeValue v) members
  | none => members

/-- A struct as JSON, without the fields that are not set. -/
def encode (fields : Fields) (config : Typed) : Value :=
  .object (fields.foldl (insertField config) [])

def HasType : FieldType → FieldValue → Prop
  | .string, .string _ => True
  | .bool, .bool _ => True
  | .u64, .u64 n => n < 2 ^ 64
  | .format, .format _ => True
  | .grantType, .grantType _ => True
  | _, _ => False

theorem decode_encodeValue {fieldType : FieldType} {v : FieldValue} (h : HasType fieldType v) :
    decodeField fieldType (some (encodeValue v)) = some (some v) := by
  cases fieldType with
  | string =>
    cases v with
    | string s => rfl
    | bool | u64 | format | grantType => cases h
  | bool =>
    cases v with
    | bool b => rfl
    | string | u64 | format | grantType => cases h
  | u64 =>
    cases v with
    | u64 n =>
      have hlt : n < 2 ^ 64 := h
      have hfits : 0 ≤ (n : Int) ∧ (n : Int) < 2 ^ 64 := by omega
      change (decodeValue .u64 (.number (.int n))).map some = some (some (.u64 n))
      rw [decodeValue, if_pos hfits, Int.toNat_natCast, Option.map_some]
    | string | bool | format | grantType => cases h
  | format =>
    cases v with
    | format f =>
      cases f with
      | human => rfl
      | json => rfl
    | string | bool | u64 | grantType => cases h
  | grantType =>
    cases v with
    | grantType g =>
      cases g with
      | authorizationCode => rfl
      | clientCredentials => rfl
    | string | bool | u64 | format => cases h

theorem lookup_foldl_insertField (config : Typed) {fields : Fields} (members : List (String × Value))
    (hnodup : (fields.map Prod.fst).Nodup) (name : String) :
    Entries.lookup name (fields.foldl (insertField config) members) =
      if name ∈ fields.map Prod.fst then
        ((config.field name).map encodeValue).or (Entries.lookup name members)
      else Entries.lookup name members := by
  induction fields generalizing members with
  | nil => rfl
  | cons e rest ih =>
    obtain ⟨hfresh, hrest⟩ := List.nodup_cons.mp hnodup
    have hhead : Entries.lookup name (insertField config members e) =
        if name = e.1 then ((config.field e.1).map encodeValue).or (Entries.lookup name members)
        else Entries.lookup name members := by
      rw [insertField]
      cases config.field e.1 with
      | none =>
        split_ifs
        · rfl
        · rfl
      | some v =>
        rw [Entries.lookup_insert]
        split_ifs
        · rfl
        · rfl
    have hcons : name ∈ (e :: rest).map Prod.fst ↔ name = e.1 ∨ name ∈ rest.map Prod.fst :=
      List.mem_cons
    rw [List.foldl_cons, ih _ hrest, hhead]
    by_cases hname : name = e.1
    · subst hname
      rw [if_neg hfresh, if_pos rfl, if_pos (hcons.mpr (Or.inl rfl))]
    · rw [if_neg hname]
      by_cases hmem : name ∈ rest.map Prod.fst
      · rw [if_pos hmem, if_pos (hcons.mpr (Or.inr hmem))]
      · have hnone : ¬ name ∈ (e :: rest).map Prod.fst := by
          intro h
          rcases hcons.mp h with h | h
          · exact hname h
          · exact hmem h
        rw [if_neg hmem, if_neg hnone]

theorem mem_of_lookup_fields {fields : Fields} {name : String} {fieldType : FieldType}
    (h : Entries.lookup name fields = some fieldType) : (name, fieldType) ∈ fields :=
  Entries.mem_of_lookup h

theorem heldIn_encode {fields : Fields} (hnodup : (fields.map Prod.fst).Nodup) {config : Typed}
    (htyped : ∀ e ∈ fields, ∀ v, config.field e.1 = some v → HasType e.2 v) {name : String}
    {fieldType : FieldType} (hname : Entries.lookup name fields = some fieldType) :
    heldIn fields (encode fields config) name = (config.field name).map .typed := by
  have hmem := mem_of_lookup_fields hname
  have hlookup : (encode fields config).get? name = (config.field name).map encodeValue := by
    rw [encode, Value.get?, lookup_foldl_insertField config [] hnodup,
      if_pos (List.mem_map_of_mem (f := Prod.fst) hmem)]
    cases config.field name with
    | none => rfl
    | some v => rfl
  rw [heldIn, hname, Option.bind_some, hlookup, heldValue]
  cases hfield : config.field name with
  | none => rfl
  | some v =>
    have hdecode := decode_encodeValue (htyped _ hmem v hfield)
    rw [Option.map_some, hdecode]

end Encoding

/-- One locked write: `save` of the default struct, `set_json_value`, `unset_json_value`, or
`update_struct` with a closure and the fields it may write. -/
inductive Job
  | saveDefault
  | set (name value : String)
  | unset (name : String)
  | update (names : List String) (run : Typed → Option Typed)

namespace Job

def isDefault : Job → Bool
  | .saveDefault => true
  | _ => false

/-- The document a job writes over a file, with the writes it makes; `none` when it fails. -/
def run (fields : Fields) (file : Option (FileText fields)) : Job → Option (Value × Writes)
  | .saveDefault => some (encode fields (defaultTyped fields), [])
  | .set name value =>
    (setMember (updateBase file) name (parseJsonValue value)).map fun document =>
      (document, [(name, (Entries.lookup name fields).bind fun fieldType =>
        heldValue fieldType (some (parseJsonValue value)))])
  | .unset name => some (removeMember (updateBase file) name, [(name, none)])
  | .update names closure =>
    match loadStruct file "" with
    | .error _ => none
    | .ok config => (closure config).map fun config' =>
        (encode fields config', names.map fun name => (name, (config'.field name).map .typed))

/-- A closure sets fields to values of their types, and no others than it may write. -/
structure Lawful (fields : Fields) (names : List String) (closure : Typed → Option Typed) :
    Prop where
  known : ∀ name ∈ names, name ∈ fields.map Prod.fst
  frame : ∀ config config', closure config = some config' → ∀ name, name ∉ names →
    config'.field name = config.field name
  typed : ∀ config config', closure config = some config' →
    (∀ e ∈ fields, ∀ v, config.field e.1 = some v → HasType e.2 v) →
    ∀ e ∈ fields, ∀ v, config'.field e.1 = some v → HasType e.2 v

/-- The job belongs to the struct. -/
def Fits (fields : Fields) : Job → Prop
  | .update names closure => Job.Lawful fields names closure
  | .set name _ | .unset name => name ∈ fields.map Prod.fst
  | .saveDefault => True

end Job

section Laws

variable {fields : Fields}

/-- No file yet, or one that holds an object. -/
def Documented (file : Option Value) : Prop := ∀ v ∈ file, ∃ members, v = .object members

def held (fields : Fields) (file : Option Value) (name : String) : Option Held :=
  file.bind fun document => heldIn fields document name

def textOf (fields : Fields) (file : Option Value) : Option (FileText fields) :=
  file.map (written fields)

theorem hasType_of_decode {fieldType : FieldType} {member : Value} {v : FieldValue}
    (h : decodeValue fieldType member = some v) : HasType fieldType v := by
  unfold decodeValue at h
  split at h
  · cases h
    trivial
  · cases h
    trivial
  · next n =>
    split_ifs at h with hfits
    cases h
    change n.toNat < 2 ^ 64
    omega
  · obtain ⟨f, -, rfl⟩ := Option.map_eq_some_iff.mp h
    trivial
  · obtain ⟨g, -, rfl⟩ := Option.map_eq_some_iff.mp h
    trivial
  · cases h

theorem hasType_of_decodeField {fieldType : FieldType} {member : Option Value} {v : FieldValue}
    (h : decodeField fieldType member = some (some v)) : HasType fieldType v := by
  unfold decodeField at h
  split at h
  · cases h
  · cases h
  · obtain ⟨w, hw, heq⟩ := Option.map_eq_some_iff.mp h
    rw [← Option.some.inj heq]
    exact hasType_of_decode hw

theorem field_defaultTyped (fields : Fields) (name : String) :
    (defaultTyped fields).field name = none := by
  rw [defaultTyped, Typed.field]
  induction fields with
  | nil => rfl
  | cons e rest ih =>
    rw [List.map_cons, Entries.lookup_cons]
    split_ifs
    · rfl
    · exact ih

theorem loadStruct_textOf (hnodup : (fields.map Prod.fst).Nodup) {file : Option Value}
    (hdoc : Documented file) {label : String} {config : Typed}
    (h : loadStruct (textOf fields file) label = .ok config) {e : String × FieldType}
    (he : e ∈ fields) :
    held fields file e.1 = (config.field e.1).map .typed ∧
      ∀ v, config.field e.1 = some v → HasType e.2 v := by
  cases file with
  | none =>
    rw [← Except.ok.inj h, field_defaultTyped]
    exact ⟨rfl, fun v hv => nomatch hv⟩
  | some document =>
    obtain ⟨members, rfl⟩ := hdoc document rfl
    have hdecoded := field_of_decodeFields hnodup (loadStruct_written.mp h) he
    have hlookup : Entries.lookup e.1 fields = some e.2 := by
      cases hfind : Entries.lookup e.1 fields with
      | none =>
        have hsome := Entries.lookup_isSome_iff.mpr ⟨e.2, he⟩
        rw [hfind] at hsome
        cases hsome
      | some fieldType =>
        have hmem := mem_of_lookup_fields hfind
        have hpair := List.inj_on_of_nodup_map hnodup hmem he rfl
        exact congrArg some (congrArg Prod.snd hpair)
    have hget : (Value.object members).get? e.1 = Entries.lookup e.1 members := rfl
    constructor
    · rw [held, Option.bind_some, heldIn, hlookup, Option.bind_some, hget, heldValue, hdecoded]
    · intro v hv
      rw [hv] at hdecoded
      exact hasType_of_decodeField hdecoded

theorem heldIn_object (fields : Fields) (members : List (String × Value)) (name : String) :
    heldIn fields (.object members) name = (Entries.lookup name fields).bind fun fieldType =>
      heldValue fieldType (Entries.lookup name members) := rfl

theorem heldIn_eq_none {members : List (String × Value)} {name : String}
    (h : Entries.lookup name members = none) : heldIn fields (.object members) name = none := by
  rw [heldIn_object, h]
  cases Entries.lookup name fields with
  | none => rfl
  | some fieldType => rfl

/-- An update starts from an object that holds what the file holds. -/
theorem updateBase_textOf {file : Option Value} (hdoc : Documented file) :
    ∃ members, updateBase (textOf fields file) = .object members ∧
      ∀ name, held fields file name = heldIn fields (.object members) name := by
  cases file with
  | none => exact ⟨[], rfl, fun name => (heldIn_eq_none rfl).symm⟩
  | some document =>
    obtain ⟨members, rfl⟩ := hdoc document rfl
    exact ⟨members, rfl, fun name => rfl⟩

theorem lookup_map_names {β : Type} (names : List String) (f : String → β) (name : String) :
    Entries.lookup name (names.map fun n => (n, f n)) =
      if name ∈ names then some (f name) else none := by
  induction names with
  | nil => rfl
  | cons n rest ih =>
    rw [List.map_cons, Entries.lookup_cons, ih]
    by_cases hn : name = n
    · rw [if_pos hn, if_pos (hn ▸ List.mem_cons_self), hn]
    · rw [if_neg hn]
      by_cases hmem : name ∈ rest
      · rw [if_pos hmem, if_pos (List.mem_cons_of_mem _ hmem)]
      · rw [if_neg hmem, if_neg fun h => (List.mem_cons.mp h).elim hn hmem]

theorem overwrite_single (name : String) (h : Option Held) (before : String → Option Held)
    (other : String) : overwrite [(name, h)] before other =
      if other = name then h else before other := by
  rw [overwrite, Entries.lookup_cons]
  split_ifs
  · rfl
  · rfl

variable (hnodup : (fields.map Prod.fst).Nodup) {file : Option Value} (hdoc : Documented file)

include hdoc in
theorem run_set {name value : String} {document : Value} {writes : Writes}
    (h : (Job.set name value).run fields (textOf fields file) = some (document, writes)) :
    (∃ members, document = .object members) ∧
      ∀ other, heldIn fields document other = overwrite writes (held fields file) other := by
  obtain ⟨members, hbase, hheld⟩ := @updateBase_textOf fields file hdoc
  rw [Job.run, hbase, setMember, Option.map_some] at h
  obtain ⟨rfl, rfl⟩ := Prod.mk.inj (Option.some.inj h)
  refine ⟨⟨_, rfl⟩, fun other => ?_⟩
  rw [overwrite_single, heldIn_object]
  by_cases hother : other = name
  · rw [if_pos hother, hother, Entries.lookup_insert_self]
  · rw [if_neg hother, hheld, heldIn_object, Entries.lookup_insert_of_ne hother]

include hdoc in
theorem run_unset {name : String} {document : Value} {writes : Writes}
    (h : (Job.unset name).run fields (textOf fields file) = some (document, writes)) :
    (∃ members, document = .object members) ∧
      ∀ other, heldIn fields document other = overwrite writes (held fields file) other := by
  obtain ⟨members, hbase, hheld⟩ := @updateBase_textOf fields file hdoc
  rw [Job.run, hbase, removeMember] at h
  obtain ⟨rfl, rfl⟩ := Prod.mk.inj (Option.some.inj h)
  refine ⟨⟨_, rfl⟩, fun other => ?_⟩
  rw [overwrite_single]
  by_cases hother : other = name
  · rw [if_pos hother, hother]
    exact heldIn_eq_none (by rw [Entries.lookup_erase, if_pos rfl])
  · rw [if_neg hother, hheld, heldIn_object, heldIn_object, Entries.lookup_erase, if_neg hother]

include hnodup hdoc in
theorem run_update {names : List String} {closure : Typed → Option Typed}
    (hlawful : Job.Lawful fields names closure) {document : Value} {writes : Writes}
    (h : (Job.update names closure).run fields (textOf fields file) = some (document, writes)) :
    (∃ members, document = .object members) ∧
      ∀ other, heldIn fields document other = overwrite writes (held fields file) other := by
  rw [Job.run] at h
  cases hload : loadStruct (textOf fields file) "" with
  | error e =>
    rw [hload] at h
    cases h
  | ok config =>
    rw [hload] at h
    obtain ⟨config', hclosure, heq⟩ := Option.map_eq_some_iff.mp h
    obtain ⟨rfl, rfl⟩ := Prod.mk.inj heq
    have hloaded := fun (e : String × FieldType) (he : e ∈ fields) =>
      loadStruct_textOf hnodup hdoc hload he
    have htyped := hlawful.typed config config' hclosure fun e he => (hloaded e he).2
    refine ⟨⟨_, rfl⟩, fun other => ?_⟩
    rw [overwrite, lookup_map_names]
    cases hother : Entries.lookup other fields with
    | none =>
      have hunknown : other ∉ names := by
        intro hmem
        obtain ⟨e, he, rfl⟩ := List.mem_map.mp (hlawful.known other hmem)
        have hsome := Entries.lookup_isSome_iff.mpr ⟨e.2, he⟩
        rw [hother] at hsome
        cases hsome
      have hnone : held fields file other = none := by
        cases file with
        | none => rfl
        | some document => rw [held, Option.bind_some, heldIn, hother, Option.bind_none]
      rw [if_neg hunknown, heldIn, hother, Option.bind_none, Option.getD_none, hnone]
    | some fieldType =>
      rw [heldIn_encode hnodup htyped hother]
      by_cases hmem : other ∈ names
      · rw [if_pos hmem, Option.getD_some]
      · have hsame := (hloaded (other, fieldType) (mem_of_lookup_fields hother)).1
        rw [if_neg hmem, Option.getD_none, hsame, hlawful.frame config config' hclosure other hmem]

include hnodup in
theorem run_saveDefault {document : Value} {writes : Writes}
    (h : Job.saveDefault.run fields (textOf fields file) = some (document, writes)) :
    (∃ members, document = .object members) ∧ writes = [] ∧
      ∀ other, heldIn fields document other = none := by
  obtain ⟨rfl, rfl⟩ := Prod.mk.inj (Option.some.inj h)
  refine ⟨⟨_, rfl⟩, rfl, fun other => ?_⟩
  refine heldIn_eq_none ?_
  rw [lookup_foldl_insertField _ _ hnodup, field_defaultTyped]
  split_ifs
  · rfl
  · rfl

include hnodup hdoc in
/-- A job leaves in each field what it writes there, and in the others what the file held; a
default snapshot does so when the file holds nothing. -/
theorem run_writes {job : Job} (hfits : job.Fits fields) {document : Value} {writes : Writes}
    (h : job.run fields (textOf fields file) = some (document, writes))
    (hdefault : job.isDefault = true → ∀ name, held fields file name = none) :
    ∀ other, heldIn fields document other = overwrite writes (held fields file) other := by
  cases job with
  | saveDefault =>
    obtain ⟨-, rfl, hnone⟩ := run_saveDefault hnodup h
    intro other
    rw [hnone, overwrite, hdefault rfl]
    rfl
  | set name value => exact (run_set hdoc h).2
  | unset name => exact (run_unset hdoc h).2
  | update names closure => exact (run_update hnodup hdoc hfits h).2

include hnodup hdoc in
theorem run_object {job : Job} (hfits : job.Fits fields) {document : Value} {writes : Writes}
    (h : job.run fields (textOf fields file) = some (document, writes)) :
    ∃ members, document = .object members := by
  cases job with
  | saveDefault => exact (run_saveDefault hnodup h).1
  | set name value => exact (run_set hdoc h).1
  | unset name => exact (run_unset hdoc h).1
  | update names closure => exact (run_update hnodup hdoc hfits h).1

end Laws

end FieldWrites
