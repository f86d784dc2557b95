import AgsCli.Config.Facade
import AgsCli.Support.Decimals
import Mathlib.Data.List.Nodup

/-! # What `config_set` stores, `config_get` and the loaders read

A value survives being stored by the type its text looks like exactly when a text field's value
does not look like a boolean or a number, and a number is written the way it is printed. -/
namespace ConfigRoundTrip

open OrderedMap Json ProtocolError Strings Decimals ConfigKeys ConfigStore ConfigFacade

section Decoding

variable {fields : Fields} {members : List (String × Value)} {config : Typed}

theorem decodeFields_cons (e : String × FieldType) (rest : Fields)
    (members : List (String × Value)) : decodeFields (e :: rest) members =
      (decodeField e.2 (Entries.lookup e.1 members)).bind fun v =>
        (decodeFields rest members).map fun config => (e.1, v) :: config := by
  rw [decodeFields, decodeFields, List.mapM_cons]
  cases decodeField e.2 (Entries.lookup e.1 members) with
  | none => rfl
  | some v =>
    cases rest.mapM fun e =>
        (decodeField e.2 (Entries.lookup e.1 members)).map fun v => (e.1, v) with
    | none => simp
    | some config => simp

/-- A struct that loads holds what each of its fields reads. -/
theorem field_of_decodeFields (hnodup : (fields.map Prod.fst).Nodup)
    (h : decodeFields fields members = some config) {e : String × FieldType} (he : e ∈ fields) :
    decodeField e.2 (Entries.lookup e.1 members) = some (config.field e.1) := by
  induction fields generalizing config with
  | nil => cases he
  | cons e' rest ih =>
    rw [decodeFields_cons] at h
    obtain ⟨v, hv, h⟩ := Option.bind_eq_some_iff.mp h
    obtain ⟨others, hothers, rfl⟩ := Option.map_eq_some_iff.mp h
    obtain ⟨hfresh, hrest⟩ := List.nodup_cons.mp hnodup
    rcases List.mem_cons.mp he with rfl | hmem
    · rw [hv, Typed.field, Entries.lookup_cons, if_pos rfl]
      rfl
    · have hne : e.1 ≠ e'.1 := by
        intro heq
        exact hfresh (heq ▸ List.mem_map_of_mem hmem)
      rw [ih hrest hothers hmem, Typed.field, Typed.field, Entries.lookup_cons, if_neg hne]

theorem decodeFields_of_fields (h : ∀ e ∈ fields, ∃ v,
    decodeField e.2 (Entries.lookup e.1 members) = some v) :
    ∃ config, decodeFields fields members = some config := by
  induction fields with
  | nil => exact ⟨[], rfl⟩
  | cons e rest ih =>
    obtain ⟨v, hv⟩ := h e List.mem_cons_self
    obtain ⟨config, hconfig⟩ := ih fun e he => h e (List.mem_cons_of_mem _ he)
    rw [decodeFields_cons, hv, hconfig]
    exact ⟨(e.1, v) :: config, rfl⟩

end Decoding

section Update

variable {fields : Fields} {file : Option (FileText fields)} {updated : FileText fields}
  {name value label : String}

theorem decodeField_parseJsonValue (fieldType : FieldType) (value : String) :
    decodeField fieldType (some (parseJsonValue value)) =
      (decodeValue fieldType (parseJsonValue value)).map some := by
  rw [parseJsonValue]
  split_ifs
  · rfl
  · rfl
  · cases parseUsize value.toList with
    | none => rfl
    | some n => rfl

/-- An update writes an object: the field's new value, and the other fields there were. -/
theorem updated_members (h : updateJsonFileField file name (some value) = some updated) :
    ∃ members, updated = written fields (.object members) ∧
      Entries.insert name (parseJsonValue value) members = members ∧
      Entries.lookup name members = some (parseJsonValue value) ∧
      ∀ other, other ≠ name → Entries.lookup other members = (updateBase file).get? other := by
  obtain ⟨v, hset, rfl⟩ := Option.map_eq_some_iff.mp h
  cases hbase : updateBase file with
  | object members =>
    rw [hbase] at hset
    cases hset
    refine ⟨_, rfl, Entries.insert_insert _ _ _ _, Entries.lookup_insert_self _ _ _, ?_⟩
    intro other hne
    exact Entries.lookup_insert_of_ne hne _ _
  | null =>
    rw [hbase] at hset
    cases hset
    refine ⟨_, rfl, ?_, ?_, ?_⟩
    · exact Entries.insert_insert name (parseJsonValue value) (parseJsonValue value) []
    · exact Entries.lookup_insert_self name (parseJsonValue value) []
    · intro other hne
      exact Entries.lookup_insert_of_ne hne (parseJsonValue value) []
  | bool b => rw [hbase] at hset; cases hset
  | number n => rw [hbase] at hset; cases hset
  | string s => rw [hbase] at hset; cases hset
  | array items => rw [hbase] at hset; cases hset

/-- The fields of a file that loads and is updated were all read. -/
theorem base_decodes (hnodup : (fields.map Prod.fst).Nodup) {config : Typed}
    (hloads : loadStruct file label = .ok config)
    (h : updateJsonFileField file name (some value) = some updated) :
    ∀ e ∈ fields, ∃ v, decodeField e.2 ((updateBase file).get? e.1) = some v := by
  intro e he
  cases file with
  | none => exact ⟨none, rfl⟩
  | some text =>
    cases hvalue : text.value with
    | error message =>
      have hbase : updateBase (some text) = .object [] := by rw [updateBase, hvalue]
      rw [hbase]
      exact ⟨none, rfl⟩
    | ok v =>
      have hbase : updateBase (some text) = v := by rw [updateBase, hvalue]
      have htyped : text.typed = .ok config := by
        rw [loadStruct] at hloads
        cases htext : text.typed with
        | error message =>
          rw [htext] at hloads
          cases hloads
        | ok loaded =>
          rw [htext] at hloads
          dsimp only at hloads
          rw [Except.ok.inj hloads]
      have hof := text.coherent v config hvalue htyped
      rw [updateJsonFileField, hbase] at h
      rw [hbase]
      cases v with
      | object members => exact ⟨_, field_of_decodeFields hnodup hof he⟩
      | null => cases hof
      | array items => cases h
      | bool b => cases h
      | number n => cases h
      | string s => cases h

theorem loadStruct_written {members : List (String × Value)} {config : Typed} :
    loadStruct (some (written fields (.object members))) label = .ok config ↔
      decodeFields fields members = some config := by
  have htyped : typedOf fields (.object members) = decodeFields fields members := rfl
  rw [loadStruct]
  cases hdecode : decodeFields fields members with
  | none =>
    have hread : (written fields (.object members)).typed = .error "invalid type" := by
      simp only [written, htyped, hdecode]
    rw [hread]
    constructor
    · intro h
      cases h
    · intro h
      cases h
  | some loaded =>
    have hread : (written fields (.object members)).typed = .ok loaded := by
      simp only [written, htyped, hdecode]
    rw [hread]
    constructor
    · intro h
      rw [Except.ok.inj h]
    · intro h
      rw [Option.some.inj h]

variable {fieldType : FieldType} (hnodup : (fields.map Prod.fst).Nodup)
  (hname : (name, fieldType) ∈ fields)
  (h : updateJsonFileField file name (some value) = some updated)

include hnodup hname h in
/-- A value of the field's type: the file loads and holds it. -/
theorem load_updated {config : Typed} (hloads : loadStruct file label = .ok config)
    {stored : FieldValue} (hstored : decodeValue fieldType (parseJsonValue value) = some stored) :
    ∃ config, loadStruct (some updated) label = .ok config ∧
      config.field name = some stored := by
  obtain ⟨members, rfl, -, hself, hother⟩ := updated_members h
  have hdecoded : ∀ e ∈ fields, ∃ v, decodeField e.2 (Entries.lookup e.1 members) = some v := by
    intro e he
    by_cases heq : e.1 = name
    · have hpair : e = (name, fieldType) := List.inj_on_of_nodup_map hnodup he hname heq
      rw [hpair, hself, decodeField_parseJsonValue, hstored]
      exact ⟨some stored, rfl⟩
    · rw [hother e.1 heq]
      exact base_decodes hnodup hloads h e he
  obtain ⟨loaded, hload⟩ := decodeFields_of_fields hdecoded
  refine ⟨loaded, loadStruct_written.mpr hload, ?_⟩
  have hfield := field_of_decodeFields hnodup hload hname
  rw [hself, decodeField_parseJsonValue, hstored] at hfield
  exact (Option.some.inj hfield).symm

include hnodup hname h in
/-- A value of another type: the file does not load. -/
theorem decode_of_load {config : Typed} (hload : loadStruct (some updated) label = .ok config) :
    decodeValue fieldType (parseJsonValue value) = config.field name := by
  obtain ⟨members, rfl, -, hself, -⟩ := updated_members h
  have hfield := field_of_decodeFields hnodup (loadStruct_written.mp hload) hname
  rw [hself, decodeField_parseJsonValue] at hfield
  cases hdecode : decodeValue fieldType (parseJsonValue value) with
  | none =>
    rw [hdecode] at hfield
    cases hfield
  | some stored =>
    rw [hdecode] at hfield
    exact Option.some.inj hfield

theorem read_written (members : List (String × Value)) (other : String) :
    loadJsonValue (some (written fields (.object members))) label other =
      .ok ((Entries.lookup other members).bind valueToString) := rfl

include h in
theorem read_updated : loadJsonValue (some updated) label name =
    .ok (valueToString (parseJsonValue value)) := by
  obtain ⟨members, rfl, -, hself, -⟩ := updated_members h
  rw [read_written, hself]
  rfl

def Readable (file : Option (FileText fields)) : Prop :=
  ∀ text ∈ file, ∃ v, text.value = .ok v

include h in
theorem read_updated_other {other : String} (hne : other ≠ name) :
    loadJsonValue (some updated) label other =
      .ok (((updateBase file).get? other).bind valueToString) := by
  obtain ⟨members, rfl, -, -, hother⟩ := updated_members h
  rw [read_written, hother other hne]

/-- Exactly in a file the raw reader reads, the other fields read as before. -/
theorem read_base_iff (other : String) : loadJsonValue file label other =
    .ok (((updateBase file).get? other).bind valueToString) ↔ Readable file := by
  cases file with
  | none =>
    refine ⟨fun _ text htext => ?_, fun _ => rfl⟩
    cases htext
  | some text =>
    rw [loadJsonValue, updateBase]
    cases hvalue : text.value with
    | error message =>
      constructor
      · intro hread
        cases hread
      · intro hreadable
        obtain ⟨v, hv⟩ := hreadable text rfl
        rw [hvalue] at hv
        cases hv
    | ok v =>
      refine ⟨fun _ text' htext => ?_, fun _ => rfl⟩
      rw [← Option.some.inj htext]
      exact ⟨v, hvalue⟩

include h in
/-- Updating a field with its value again changes nothing. -/
theorem update_updated : updateJsonFileField (some updated) name (some value) = some updated := by
  obtain ⟨members, rfl, hinsert, -, -⟩ := updated_members h
  have hset : setMember (.object members) name (parseJsonValue value) = some (.object members) := by
    rw [setMember, hinsert]
  exact congrArg (Option.map (written fields)) hset

end Update

section Values

/-- The text of a boolean or of a number. -/
def LooksTyped (s : String) : Prop :=
  s = "true" ∨ s = "false" ∨ (parseUsize s.toList).isSome = true

instance (s : String) : Decidable (LooksTyped s) := inferInstanceAs (Decidable (_ ∨ _ ∨ _))

theorem not_looksTyped_of_colon {s : String} (h : ':' ∈ s.toList) : ¬ LooksTyped s := by
  rintro (rfl | rfl | hparse)
  · revert h
    decide
  · revert h
    decide
  · obtain ⟨n, hn⟩ := Option.isSome_iff_exists.mp hparse
    have hcolon := digits_of_parseUsize hn ':' h
    revert hcolon
    decide

theorem parseJsonValue_string {s : String} (h : ¬ LooksTyped s) : parseJsonValue s = .string s := by
  rw [LooksTyped, not_or, not_or] at h
  obtain ⟨htrue, hfalse, hnumber⟩ := h
  rw [parseJsonValue, if_neg htrue, if_neg hfalse]
  cases hparse : parseUsize s.toList with
  | none => rfl
  | some n => exact absurd (by rw [hparse]; rfl) hnumber

theorem parseJsonValue_number {s : String} {n : Nat} (h : parseUsize s.toList = some n) :
    parseJsonValue s = .number (.int n) := by
  have htrue : s ≠ "true" := by
    rintro rfl
    cases h
  have hfalse : s ≠ "false" := by
    rintro rfl
    cases h
  rw [parseJsonValue, if_neg htrue, if_neg hfalse, h]

/-- The stored form of a value is read back, typed and as text. -/
def Faithful (fieldType : FieldType) (value : String) : Prop :=
  decodeValue fieldType (parseJsonValue value) = fieldType.parse value ∧
    valueToString (parseJsonValue value) = some value

theorem faithful_string_iff (value : String) : Faithful .string value ↔ ¬ LooksTyped value := by
  constructor
  · rintro ⟨hdecode, -⟩ (rfl | rfl | hnumber)
    · cases hdecode
    · cases hdecode
    · obtain ⟨n, hn⟩ := Option.isSome_iff_exists.mp hnumber
      rw [parseJsonValue_number hn] at hdecode
      cases hdecode
  · intro h
    rw [Faithful, parseJsonValue_string h]
    exact ⟨rfl, rfl⟩

theorem faithful_bool {value : String} (h : value = "true" ∨ value = "false") :
    Faithful .bool value ∧ (FieldType.bool.parse value).isSome = true := by
  rcases h with rfl | rfl
  · exact ⟨⟨rfl, rfl⟩, rfl⟩
  · exact ⟨⟨rfl, rfl⟩, rfl⟩

theorem faithful_u64_iff {value : String} {n : Nat} (h : parseUsize value.toList = some n) :
    Faithful .u64 value ↔ toString n = value := by
  have hlt := lt_of_parseUsize h
  have hdecode : decodeValue .u64 (.number (.int n)) = some (.u64 n) := by
    rw [decodeValue, if_pos ⟨Int.natCast_nonneg n, by exact_mod_cast hlt⟩, Int.toNat_natCast]
  have htext : valueToString (.number (.int n)) = some (toString n) := rfl
  rw [Faithful, parseJsonValue_number h, hdecode, htext, FieldType.parse, h, Option.some.injEq]
  exact ⟨fun hfaithful => hfaithful.2, fun heq => ⟨rfl, heq⟩⟩

end Values

section Keys

def structOf : ConfigScope → Fields
  | .global => globalFields
  | .profile => profileFields

def fieldTypeOf (keyDef : ConfigKeyDef) : FieldType :=
  (Entries.lookup keyDef.jsonName (structOf keyDef.scope)).getD .string

theorem structOf_nodup (scope : ConfigScope) : ((structOf scope).map Prod.fst).Nodup := by
  cases scope <;> decide

theorem mem_structOf {keyDef : ConfigKeyDef} (h : keyDef ∈ knownKeys) :
    (keyDef.jsonName, fieldTypeOf keyDef) ∈ structOf keyDef.scope := by
  revert keyDef
  decide

theorem exists_other_key {keyDef : ConfigKeyDef} (h : keyDef ∈ knownKeys) :
    ∃ other ∈ knownKeys, other.scope = keyDef.scope ∧ other.jsonName ≠ keyDef.jsonName := by
  revert keyDef
  decide

/-- What the url crate documents of an http URL: it has a scheme, and the slashes at its end
belong neither to its scheme nor to its host. -/
structure UrlLaws (url : UrlParser) : Prop where
  scheme : ∀ s, url.isHttp s = true → ':' ∈ s.toList
  trimmed : ∀ s, url.isHttp s = true → url.isHttp (trimEndMatches '/' s) = true

/-- The value given for a key survives being stored by the type its text looks like. -/
def Kept (key value : String) : Prop :=
  match key with
  | "active-profile" | "namespace" => ¬ LooksTyped value
  | "client-id" => ¬ LooksTyped (normaliseClientId value)
  | "timeout" | "page-limit" => (parseUsize value.toList).map toString = some value
  | _ => True

structure Settles (url : UrlParser) (home : Home) (keyDef : ConfigKeyDef) (value saved : String) :
    Prop where
  typed : ((fieldTypeOf keyDef).parse saved).isSome = true
  kept : Faithful (fieldTypeOf keyDef) saved ↔ Kept keyDef.cliName value
  again : ∀ later : Home, (∀ p, (home.profiles p).isSome = true → (later.profiles p).isSome = true) →
    ∃ normalised, validateConfigValue url later keyDef saved = .ok normalised ∧
      normalised.getD saved = saved

variable {url : UrlParser} {home : Home} {value : String} {normalised : Option String}

theorem settles_activeProfile (h : validateActiveProfile home value = .ok normalised) :
    Settles url home ⟨"active-profile", "active_profile", .global⟩ value
      (normalised.getD value) := by
  rw [validateActiveProfile] at h
  split_ifs at h with hexists
  cases h
  refine ⟨rfl, faithful_string_iff value, fun later hlater => ⟨none, ?_, rfl⟩⟩
  exact if_pos (hlater value hexists)

theorem settles_namespace (h : validateNamespace value = .ok normalised) :
    Settles url home ⟨"namespace", "namespace", .profile⟩ value (normalised.getD value) := by
  rw [validateNamespace] at h
  split_ifs at h with hvalid
  cases h
  refine ⟨rfl, faithful_string_iff value, fun later _ => ⟨none, ?_, rfl⟩⟩
  exact if_pos hvalid

/-- The value saved is the normal form, whether or not it is a new text. -/
theorem getD_replacement (saved value : String) :
    (if saved ≠ value then some saved else none).getD value = saved := by
  by_cases hsame : saved = value
  · rw [if_neg (not_not.mpr hsame), hsame]
    rfl
  · rw [if_pos hsame]
    rfl

theorem settles_clientId (h : validateClientId value = .ok normalised) :
    Settles url home ⟨"client-id", "client_id", .profile⟩ value (normalised.getD value) := by
  rw [validateClientId] at h
  by_cases hvalid : isValidClientId value = true
  · rw [if_pos hvalid] at h
    obtain ⟨hagain, hidem⟩ := normaliseClientId_valid hvalid
    rw [← Except.ok.inj h, getD_replacement]
    have hkept : Kept "client-id" value = ¬ LooksTyped (normaliseClientId value) := rfl
    generalize normaliseClientId value = normal at hagain hidem hkept
    have hvalidate : validateClientId normal =
        .ok (if normaliseClientId normal ≠ normal then some (normaliseClientId normal) else none) := by
      rw [validateClientId, if_pos hagain]
    refine ⟨rfl, ?_, fun later _ => ⟨_, hvalidate, ?_⟩⟩
    · exact (faithful_string_iff normal).trans (iff_of_eq hkept.symm)
    · rw [getD_replacement, hidem]
  · rw [if_neg hvalid] at h
    cases h

theorem settles_baseUrl (hurl : UrlLaws url) (h : validateBaseUrl url value = .ok normalised) :
    Settles url home ⟨"base-url", "base_url", .profile⟩ value (normalised.getD value) := by
  rw [validateBaseUrl] at h
  by_cases hvalid : isValidBaseUrl url value = true
  · rw [if_pos hvalid] at h
    rw [← Except.ok.inj h, getD_replacement]
    have hagain := hurl.trimmed value hvalid
    have hplain := not_looksTyped_of_colon (hurl.scheme _ hagain)
    refine ⟨rfl, ?_, fun later _ => ⟨_, if_pos hagain, ?_⟩⟩
    · exact ⟨fun _ => trivial, fun _ => (faithful_string_iff _).mpr hplain⟩
    · rw [getD_replacement, trimEndMatches_idem]
  · rw [if_neg hvalid] at h
    cases h

theorem settles_format (h : validateFormat value = .ok normalised) :
    Settles url home ⟨"format", "format", .global⟩ value (normalised.getD value) := by
  rw [validateFormat] at h
  split_ifs at h with hjson
  cases h
  subst hjson
  exact ⟨rfl, ⟨fun _ => trivial, fun _ => ⟨rfl, rfl⟩⟩, fun later _ => ⟨none, rfl, rfl⟩⟩

theorem settles_grantType (h : validateGrantType value = .ok normalised) :
    Settles url home ⟨"grant-type", "grant_type", .profile⟩ value (normalised.getD value) := by
  rw [validateGrantType] at h
  split_ifs at h with hgrant
  cases h
  have hagain : ∀ later : Home, validateConfigValue url later
      ⟨"grant-type", "grant_type", .profile⟩ value = .ok none := fun _ => if_pos hgrant
  rcases hgrant with rfl | rfl
  · exact ⟨rfl, ⟨fun _ => trivial, fun _ => ⟨rfl, rfl⟩⟩, fun later _ => ⟨none, hagain later, rfl⟩⟩
  · exact ⟨rfl, ⟨fun _ => trivial, fun _ => ⟨rfl, rfl⟩⟩, fun later _ => ⟨none, hagain later, rfl⟩⟩

theorem settles_boolean {keyDef : ConfigKeyDef} (hbool : fieldTypeOf keyDef = .bool)
    (hkept : Kept keyDef.cliName value = True)
    (hvalidate : ∀ home, validateConfigValue url home keyDef value =
      validateBoolean value keyDef.cliName)
    (h : validateConfigValue url home keyDef value = .ok normalised) :
    Settles url home keyDef value (normalised.getD value) := by
  rw [hvalidate, validateBoolean] at h
  split_ifs at h with hvalue
  cases h
  obtain ⟨hfaithful, hparse⟩ := faithful_bool hvalue
  refine ⟨?_, ?_, fun later _ => ⟨none, ?_, rfl⟩⟩
  · rw [hbool]
    exact hparse
  · rw [hbool, hkept]
    exact ⟨fun _ => trivial, fun _ => hfaithful⟩
  · refine (hvalidate later).trans ?_
    rw [validateBoolean]
    exact if_pos hvalue

theorem settles_number {keyDef : ConfigKeyDef} (hnumber : fieldTypeOf keyDef = .u64)
    (hkept : Kept keyDef.cliName value = ((parseUsize value.toList).map toString = some value))
    {n : Nat} (hparse : parseUsize value.toList = some n)
    (hvalidate : ∀ home, validateConfigValue url home keyDef value = .ok none) :
    Settles url home keyDef value value := by
  refine ⟨?_, ?_, fun later _ => ⟨none, hvalidate later, rfl⟩⟩
  · rw [hnumber, FieldType.parse, hparse]
    rfl
  · rw [hnumber, hkept, hparse, Option.map_some, Option.some.injEq]
    exact faithful_u64_iff hparse

theorem settles_timeout (h : validateTimeout value = .ok normalised) :
    Settles url home ⟨"timeout", "timeout", .global⟩ value (normalised.getD value) := by
  have hsame := h
  rw [validateTimeout] at h
  split at h
  · next n hn =>
    split_ifs at h
    cases h
    exact settles_number rfl rfl hn fun _ => hsame
  · cases h

theorem settles_pageLimit (h : validatePageLimit value = .ok normalised) :
    Settles url home ⟨"page-limit", "page_limit", .global⟩ value (normalised.getD value) := by
  have hsame := h
  rw [validatePageLimit] at h
  split at h
  · next n hn =>
    split_ifs at h
    cases h
    exact settles_number rfl rfl hn fun _ => hsame
  · cases h

theorem settles (hurl : UrlLaws url) {keyDef : ConfigKeyDef} (hkey : keyDef ∈ knownKeys)
    (h : validateConfigValue url home keyDef value = .ok normalised) :
    Settles url home keyDef value (normalised.getD value) := by
  simp only [knownKeys, List.mem_cons, List.not_mem_nil, or_false] at hkey
  rcases hkey with rfl | rfl | rfl | rfl | rfl | rfl | rfl | rfl | rfl | rfl | rfl
  · exact settles_activeProfile h
  · exact settles_format h
  · exact settles_boolean rfl rfl (fun _ => rfl) h
  · exact settles_timeout h
  · exact settles_pageLimit h
  · exact settles_boolean rfl rfl (fun _ => rfl) h
  · exact settles_baseUrl hurl h
  · exact settles_clientId h
  · exact settles_namespace h
  · exact settles_grantType h
  · exact settles_boolean rfl rfl (fun _ => rfl) h

end Keys

section Commands

def fileOf (home : Home) (profile : String) : (scope : ConfigScope) →
    Option (FileText (structOf scope))
  | .global => home.global
  | .profile => home.profileFile profile

def labelOf (profile : String) : ConfigScope → String
  | .global => globalLabel
  | .profile => profileLabel profile

def setFile (home : Home) (profile : String) : (scope : ConfigScope) →
    FileText (structOf scope) → Home
  | .global => home.setGlobal
  | .profile => home.setProfile profile

theorem getValue_eq (home : Home) (profile : String) (keyDef : ConfigKeyDef) :
    getValue home profile keyDef =
      loadJsonValue (fileOf home profile keyDef.scope) (labelOf profile keyDef.scope)
        keyDef.jsonName := by
  obtain ⟨cliName, jsonName, scope⟩ := keyDef
  cases scope with
  | global => rfl
  | profile => rfl

theorem updateValue_eq (home : Home) (profile : String) (keyDef : ConfigKeyDef)
    (value : Option String) : updateValue home profile keyDef value =
      (updateJsonFileField (fileOf home profile keyDef.scope) keyDef.jsonName value).map
        (setFile home profile keyDef.scope) := by
  obtain ⟨cliName, jsonName, scope⟩ := keyDef
  cases scope with
  | global => rfl
  | profile => rfl

theorem fileOf_setFile (home : Home) (profile : String) (scope : ConfigScope)
    (file : FileText (structOf scope)) :
    fileOf (setFile home profile scope file) profile scope = some file := by
  cases scope with
  | global => rfl
  | profile =>
    have hself : (setFile home profile .profile file).profiles profile = some (some file) :=
      Function.update_self _ _ _
    rw [fileOf, Home.profileFile, hself]
    rfl

theorem fileOf_setFile_other (home : Home) {profile other : String} {scope scope' : ConfigScope}
    (file : FileText (structOf scope)) (h : scope' ≠ scope ∨ (scope = .profile ∧ other ≠ profile)) :
    fileOf (setFile home profile scope file) other scope' = fileOf home other scope' := by
  cases scope with
  | global =>
    cases scope' with
    | global =>
      rcases h with hne | ⟨hscope, -⟩
      · exact absurd rfl hne
      · cases hscope
    | profile => rfl
  | profile =>
    cases scope' with
    | global => rfl
    | profile =>
      have hne : other ≠ profile := by
        rcases h with hscope | ⟨-, hne⟩
        · exact absurd rfl hscope
        · exact hne
      have hother : (setFile home profile .profile file).profiles other = home.profiles other :=
        Function.update_of_ne hne _ _
      rw [fileOf, fileOf, Home.profileFile, Home.profileFile, hother]

/-- The profile's directory, created with an empty config, makes no difference to the update. -/
theorem updateValue_ensured (home : Home) (profile : String) (keyDef : ConfigKeyDef)
    (hscope : keyDef.scope = .profile) (value : Option String) :
    updateValue (ensureProfileExists home profile) profile keyDef value =
      updateValue home profile keyDef value := by
  rw [ensureProfileExists]
  cases hdir : home.profiles profile with
  | some file => rfl
  | none =>
    have hself : (home.setProfile profile (written profileFields (.object []))).profileFile profile =
        some (written profileFields (.object [])) := fileOf_setFile home profile .profile _
    have hnone : home.profileFile profile = none := by
      rw [Home.profileFile, hdir]
      rfl
    have hbase : updateJsonFileField (some (written profileFields (.object []))) keyDef.jsonName
        value = updateJsonFileField (none : Option (FileText profileFields)) keyDef.jsonName
          value := rfl
    have hset : (home.setProfile profile (written profileFields (.object []))).setProfile profile =
        home.setProfile profile := by
      funext file
      exact congrArg (Home.mk home.global) (Function.update_idem _ _ _)
    rw [updateValue, updateValue, hscope]
    dsimp only
    rw [hself, hnone, hbase, hset]

/-- Setting an accepted value updates the key's field in its file. -/
theorem configSet_eq {url : UrlParser} {home : Home} {profile value : String}
    {keyDef : ConfigKeyDef} (hkey : keyDef ∈ knownKeys) {normalised : Option String}
    (h : validateConfigValue url home keyDef value = .ok normalised) :
    configSet url home profile keyDef.cliName value =
      (updateJsonFileField (fileOf home profile keyDef.scope) keyDef.jsonName
        (some (normalised.getD value))).map fun file =>
          .ok (.set keyDef.cliName (normalised.getD value),
            setFile home profile keyDef.scope file) := by
  have hupdate : updateValue (ensureScope home profile keyDef.scope) profile keyDef
      (some (normalised.getD value)) =
        updateValue home profile keyDef (some (normalised.getD value)) := by
    cases hscope : keyDef.scope with
    | global => rfl
    | profile => exact updateValue_ensured home profile keyDef hscope _
  rw [configSet, not_secret hkey, findKey_cliName hkey]
  dsimp only
  rw [if_neg Bool.noConfusion, h]
  dsimp only
  rw [hupdate, updateValue_eq, Option.map_map]
  rfl

theorem configSet_ok {url : UrlParser} {home home' : Home} {profile key value : String}
    {view : ConfigView} (h : configSet url home profile key value = some (.ok (view, home'))) :
    ∃ keyDef ∈ knownKeys, keyDef.cliName = key ∧ ∃ normalised,
      validateConfigValue url home keyDef value = .ok normalised ∧
      view = .set key (normalised.getD value) ∧ ∃ file,
        updateJsonFileField (fileOf home profile keyDef.scope) keyDef.jsonName
          (some (normalised.getD value)) = some file ∧
        home' = setFile home profile keyDef.scope file := by
  have hfull := h
  rw [configSet] at h
  by_cases hsecret : isClientSecretKey key = true
  · rw [if_pos hsecret] at h
    cases h
  · rw [if_neg hsecret] at h
    cases hfind : findKey key with
    | none =>
      rw [hfind] at h
      cases h
    | some keyDef =>
      obtain ⟨hkey, rfl⟩ := findKey_some hfind
      cases hvalidate : validateConfigValue url home keyDef value with
      | error e =>
        rw [hfind] at h
        dsimp only at h
        rw [hvalidate] at h
        cases h
      | ok normalised =>
        rw [configSet_eq hkey hvalidate] at hfull
        obtain ⟨file, hupdate, heq⟩ := Option.map_eq_some_iff.mp hfull
        obtain ⟨rfl, rfl⟩ := Prod.mk.inj (Except.ok.inj heq)
        exact ⟨keyDef, hkey, rfl, normalised, hvalidate, rfl, file, hupdate, rfl⟩

theorem configGet_eq (secretSource : ConfigSource) (home : Home) (profile : String)
    {keyDef : ConfigKeyDef} (hkey : keyDef ∈ knownKeys) :
    configGet secretSource home profile keyDef.cliName =
      (loadJsonValue (fileOf home profile keyDef.scope) (labelOf profile keyDef.scope)
        keyDef.jsonName).map fun value =>
          .getOne keyDef.cliName value (sourceOf profile keyDef.scope value) false := by
  rw [configGet, not_secret hkey, if_neg Bool.noConfusion, findKey_cliName hkey]
  dsimp only
  rw [getValue_eq]

theorem setFile_profiles (home : Home) (profile : String) (scope : ConfigScope)
    (file : FileText (structOf scope)) (p : String) (h : (home.profiles p).isSome = true) :
    ((setFile home profile scope file).profiles p).isSome = true := by
  cases scope with
  | global => exact h
  | profile =>
    by_cases hp : p = profile
    · subst hp
      have hself : (setFile home p .profile file).profiles p = some (some file) :=
        Function.update_self _ _ _
      rw [hself]
      rfl
    · have hother : (setFile home profile .profile file).profiles p = home.profiles p :=
        Function.update_of_ne hp _ _
      rw [hother]
      exact h

theorem setFile_setFile (home : Home) (profile : String) (scope : ConfigScope)
    (file : FileText (structOf scope)) :
    setFile (setFile home profile scope file) profile scope file =
      setFile home profile scope file := by
  cases scope with
  | global => rfl
  | profile => exact congrArg (Home.mk home.global) (Function.update_idem _ _ _)

def ofScope (global config : Typed) : ConfigScope → Typed
  | .global => global
  | .profile => config

/-- What was set is read by all three readers, nothing else has changed, and setting it again is
accepted and changes nothing. -/
structure RoundTrips (url : UrlParser) (secretSource : ConfigSource) (home home' : Home)
    (profile : String) (keyDef : ConfigKeyDef) (w : String) : Prop where
  get : configGet secretSource home' profile keyDef.cliName =
    .ok (.getOne keyDef.cliName (some w) (sourceOf profile keyDef.scope (some w)) false)
  others : ∀ other profile',
    (other ≠ keyDef.cliName ∨ (keyDef.scope = .profile ∧ profile' ≠ profile)) →
      configGet secretSource home' profile' other = configGet secretSource home profile' other
  typed : ∃ global config, loadGlobal home' = .ok global ∧ loadProfile home' profile = .ok config ∧
    ∃ stored, (fieldTypeOf keyDef).parse w = some stored ∧
      (ofScope global config keyDef.scope).field keyDef.jsonName = some stored
  again : configSet url home' profile keyDef.cliName w =
    some (.ok (.set keyDef.cliName w, home'))

variable {home home' : Home} {profile w : String} {keyDef : ConfigKeyDef}

/-- The other keys read as before when the updated file is readable. -/
theorem configGet_other (secretSource : ConfigSource) (hkey : keyDef ∈ knownKeys)
    {file : FileText (structOf keyDef.scope)}
    (hupdate : updateJsonFileField (fileOf home profile keyDef.scope) keyDef.jsonName (some w) =
      some file)
    (hreadable : Readable (fileOf home profile keyDef.scope)) {other profile' : String}
    (hother : other ≠ keyDef.cliName ∨ (keyDef.scope = .profile ∧ profile' ≠ profile)) :
    configGet secretSource (setFile home profile keyDef.scope file) profile' other =
      configGet secretSource home profile' other := by
  cases hfind : findKey other with
  | none => rw [configGet, configGet, hfind]
  | some otherDef =>
    obtain ⟨hknown, rfl⟩ := findKey_some hfind
    rw [configGet_eq secretSource _ _ hknown, configGet_eq secretSource _ _ hknown]
    refine congrArg (Except.map _) ?_
    by_cases hapart : otherDef.scope ≠ keyDef.scope ∨ (keyDef.scope = .profile ∧ profile' ≠ profile)
    · rw [fileOf_setFile_other home file hapart]
    · rw [not_or, not_not, not_and_or, not_not] at hapart
      obtain ⟨hscope, hsame⟩ := hapart
      have hname : otherDef.cliName ≠ keyDef.cliName := by
        rcases hother with hne | ⟨hprofile, hne⟩
        · exact hne
        · rcases hsame with hglobal | heq
          · exact absurd hprofile hglobal
          · exact absurd heq hne
      have hfield : otherDef.jsonName ≠ keyDef.jsonName := by
        intro heq
        exact hname (congrArg _ (List.inj_on_of_nodup_map knownKeys_distinct.2 hknown hkey heq))
      obtain ⟨cliName, jsonName, scope⟩ := keyDef
      obtain ⟨otherName, otherField, otherScope⟩ := otherDef
      dsimp only at hscope hsame hfield file hupdate hreadable ⊢
      subst hscope
      have hfile : fileOf home profile' otherScope = fileOf home profile otherScope ∧
          fileOf (setFile home profile otherScope file) profile' otherScope = some file := by
        rcases hsame with hglobal | rfl
        · cases otherScope with
          | global => exact ⟨rfl, rfl⟩
          | profile => exact absurd rfl hglobal
        · exact ⟨rfl, fileOf_setFile home _ otherScope file⟩
      rw [hfile.1, hfile.2, read_updated_other hupdate hfield]
      exact ((read_base_iff otherField).mpr hreadable).symm

/-- Both structs load again, and the key's field holds what the update stored. -/
theorem load_setFile (hkey : keyDef ∈ knownKeys) {global config : Typed}
    (hglobal : loadGlobal home = .ok global) (hprofile : loadProfile home profile = .ok config)
    {file : FileText (structOf keyDef.scope)}
    (hupdate : updateJsonFileField (fileOf home profile keyDef.scope) keyDef.jsonName (some w) =
      some file)
    {stored : FieldValue}
    (hstored : decodeValue (fieldTypeOf keyDef) (parseJsonValue w) = some stored) :
    ∃ global' config', loadGlobal (setFile home profile keyDef.scope file) = .ok global' ∧
      loadProfile (setFile home profile keyDef.scope file) profile = .ok config' ∧
      (ofScope global' config' keyDef.scope).field keyDef.jsonName = some stored := by
  have hname := mem_structOf hkey
  generalize fieldTypeOf keyDef = fieldType at hname hstored
  obtain ⟨cliName, jsonName, scope⟩ := keyDef
  dsimp only at hname file hupdate ⊢
  cases scope with
  | global =>
    obtain ⟨loaded, hload, hfield⟩ :=
      load_updated (structOf_nodup .global) hname hupdate hglobal hstored
    exact ⟨loaded, config, hload, hprofile, hfield⟩
  | profile =>
    obtain ⟨loaded, hload, hfield⟩ :=
      load_updated (structOf_nodup .profile) hname hupdate hprofile hstored
    have hfile : (setFile home profile .profile file).profileFile profile = some file :=
      fileOf_setFile home profile .profile file
    refine ⟨global, loaded, hglobal, ?_, hfield⟩
    rw [loadProfile, hfile]
    exact hload

/-- What the struct holds is what the stored value decodes to. -/
theorem decode_of_loads (hkey : keyDef ∈ knownKeys) {global config : Typed}
    {file : FileText (structOf keyDef.scope)}
    (hupdate : updateJsonFileField (fileOf home profile keyDef.scope) keyDef.jsonName (some w) =
      some file)
    (hglobal : loadGlobal (setFile home profile keyDef.scope file) = .ok global)
    (hprofile : loadProfile (setFile home profile keyDef.scope file) profile = .ok config) :
    decodeValue (fieldTypeOf keyDef) (parseJsonValue w) =
      (ofScope global config keyDef.scope).field keyDef.jsonName := by
  have hname := mem_structOf hkey
  generalize fieldTypeOf keyDef = fieldType at hname
  obtain ⟨cliName, jsonName, scope⟩ := keyDef
  dsimp only at hname file hupdate hglobal hprofile ⊢
  cases scope with
  | global => exact decode_of_load (structOf_nodup .global) hname hupdate hglobal
  | profile =>
    have hfile : (setFile home profile .profile file).profileFile profile = some file :=
      fileOf_setFile home profile .profile file
    rw [loadProfile, hfile] at hprofile
    exact decode_of_load (structOf_nodup .profile) hname hupdate hprofile

theorem readable_of_others (secretSource : ConfigSource) (hkey : keyDef ∈ knownKeys)
    {file : FileText (structOf keyDef.scope)}
    (hupdate : updateJsonFileField (fileOf home profile keyDef.scope) keyDef.jsonName (some w) =
      some file)
    (hothers : ∀ other, other ≠ keyDef.cliName →
      configGet secretSource (setFile home profile keyDef.scope file) profile other =
        configGet secretSource home profile other) :
    Readable (fileOf home profile keyDef.scope) := by
  obtain ⟨otherDef, hknown, hscope, hfield⟩ := exists_other_key hkey
  have hname : otherDef.cliName ≠ keyDef.cliName := by
    intro heq
    exact hfield (congrArg _ (List.inj_on_of_nodup_map knownKeys_distinct.1 hknown hkey heq))
  have hsame := hothers otherDef.cliName hname
  rw [configGet_eq secretSource _ _ hknown, configGet_eq secretSource _ _ hknown] at hsame
  obtain ⟨cliName, jsonName, scope⟩ := keyDef
  obtain ⟨otherName, otherField, otherScope⟩ := otherDef
  dsimp only at hscope hfield file hupdate hsame ⊢
  subst hscope
  rw [fileOf_setFile, read_updated_other hupdate hfield] at hsame
  have hbase : loadJsonValue (fileOf home profile otherScope) (labelOf profile otherScope)
      otherField =
        .ok (((updateBase (fileOf home profile otherScope)).get? otherField).bind valueToString) := by
    cases hread : loadJsonValue (fileOf home profile otherScope) (labelOf profile otherScope)
        otherField with
    | error e =>
      rw [hread] at hsame
      cases hsame
    | ok value =>
      rw [hread] at hsame
      injection hsame with hview
      injection hview with _ hvalue
      rw [hvalue]
  exact (read_base_iff otherField).mp hbase

end Commands

/-- An accepted value round-trips exactly when it is kept by the type its text looks like and the
file it goes to can be read as a JSON value. -/
theorem config_set_get_iff {url : UrlParser} (hurl : UrlLaws url) (secretSource : ConfigSource)
    {home home' : Home} {profile key value w : String} {keyDef : ConfigKeyDef}
    (hkey : findKey key = some keyDef) {global config : Typed}
    (hglobal : loadGlobal home = .ok global) (hprofile : loadProfile home profile = .ok config)
    (hset : configSet url home profile key value = some (.ok (.set key w, home'))) :
    RoundTrips url secretSource home home' profile keyDef w ↔
      Kept key value ∧ Readable (fileOf home profile keyDef.scope) := by
  obtain ⟨keyDef', hknown, rfl, normalised, hvalidate, hview, file, hupdate, rfl⟩ :=
    configSet_ok hset
  rw [findKey_cliName hknown] at hkey
  obtain rfl := Option.some.inj hkey
  obtain ⟨-, rfl⟩ := ConfigView.set.inj hview
  have hsettles := settles hurl hknown hvalidate
  obtain ⟨stored, hstored⟩ := Option.isSome_iff_exists.mp hsettles.typed
  rw [← hsettles.kept]
  constructor
  · intro h
    obtain ⟨global', config', hglobal', hprofile', stored', hparse, hfield⟩ := h.typed
    have hdecode := decode_of_loads hknown hupdate hglobal' hprofile'
    rw [hfield, ← hparse] at hdecode
    have hget := h.get
    rw [configGet_eq secretSource _ _ hknown, fileOf_setFile, read_updated hupdate] at hget
    injection hget with hget
    injection hget with _ hvalue
    exact ⟨⟨hdecode, hvalue⟩, readable_of_others secretSource hknown hupdate fun other hne =>
      h.others other profile (Or.inl hne)⟩
  · rintro ⟨⟨hdecode, hvalue⟩, hreadable⟩
    refine ⟨?_, ?_, ?_, ?_⟩
    · rw [configGet_eq secretSource _ _ hknown, fileOf_setFile, read_updated hupdate, hvalue]
      rfl
    · exact fun other profile' hother =>
        configGet_other secretSource hknown hupdate hreadable hother
    · rw [hstored] at hdecode
      obtain ⟨global', config', hglobal', hprofile', hfield⟩ :=
        load_setFile hknown hglobal hprofile hupdate hdecode
      exact ⟨global', config', hglobal', hprofile', stored, hstored, hfield⟩
    · obtain ⟨again, hagain, hsaved⟩ :=
        hsettles.again _ (setFile_profiles home profile _ file)
      rw [configSet_eq hknown hagain, hsaved, fileOf_setFile, update_updated hupdate]
      refine congrArg some (congrArg Except.ok (congrArg (Prod.mk _) ?_))
      exact setFile_setFile home profile _ file

section Samples

def freshHome : Home := ⟨none, fun _ => none⟩

/-- Knows one URL, with and without its slash. -/
def demoUrl : UrlParser := ⟨fun s => s = "https://demo.test" || s = "https://demo.test/"⟩

theorem demoUrl_laws : UrlLaws demoUrl := by
  have hcases : ∀ s, demoUrl.isHttp s = true → s = "https://demo.test" ∨ s = "https://demo.test/" := by
    intro s h
    simpa [demoUrl] using h
  constructor
  · intro s h
    rcases hcases s h with rfl | rfl
    · decide
    · decide
  · intro s h
    rcases hcases s h with rfl | rfl
    · decide
    · decide

def homeAfter (profile key value : String) : Home :=
  match configSet demoUrl freshHome profile key value with
  | some (.ok (_, home)) => home
  | _ => freshHome

theorem base_url_set : configSet demoUrl freshHome "default" "base-url" "https://demo.test/" =
    some (.ok (.set "base-url" "https://demo.test",
      homeAfter "default" "base-url" "https://demo.test/")) := rfl

theorem base_url_readable : Readable (fileOf freshHome "default" .profile) := by
  intro text htext
  cases htext

/-- A base URL is kept without its slash. -/
theorem config_set_get_base_url : RoundTrips demoUrl .notSet freshHome
    (homeAfter "default" "base-url" "https://demo.test/") "default"
    ⟨"base-url", "base_url", .profile⟩ "https://demo.test" :=
  (config_set_get_iff demoUrl_laws .notSet rfl rfl rfl base_url_set).mpr
    ⟨trivial, base_url_readable⟩

/-- A namespace of digits makes the profile unreadable, and a timeout loses its zeros. -/
theorem config_set_loses :
    (configSet demoUrl freshHome "default" "namespace" "123" =
        some (.ok (.set "namespace" "123", homeAfter "default" "namespace" "123")) ∧
      ¬ RoundTrips demoUrl .notSet freshHome (homeAfter "default" "namespace" "123") "default"
        ⟨"namespace", "namespace", .profile⟩ "123") ∧
    (configSet demoUrl freshHome "default" "timeout" "007" =
        some (.ok (.set "timeout" "007", homeAfter "default" "timeout" "007")) ∧
      ¬ RoundTrips demoUrl .notSet freshHome (homeAfter "default" "timeout" "007") "default"
        ⟨"timeout", "timeout", .global⟩ "007") := by
  refine ⟨⟨rfl, fun h => ?_⟩, rfl, fun h => ?_⟩
  · obtain ⟨global, config, -, hprofile, -⟩ := h.typed
    cases hprofile
  · have hseven : configGet .notSet (homeAfter "default" "timeout" "007") "default" "timeout" =
        .ok (.getOne "timeout" (some "7") .global false) := rfl
    have hget := h.get.symm.trans hseven
    injection hget with hview
    injection hview with _ hvalue
    exact absurd hvalue (by decide)

end Samples

end ConfigRoundTrip
