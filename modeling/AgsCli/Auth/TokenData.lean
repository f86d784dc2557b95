import AgsCli.Config.FieldWrites
import AgsCli.Protocol.JsonText

/-! # Stored tokens

The record of a token, as JSON text and back. -/
namespace AuthToken

open OrderedMap Json ConfigStore FieldWrites

structure TokenData where
  accessToken : String
  expiresAt : UInt64
  refreshToken : Option String
  refreshExpiresAt : Option UInt64
  grantType : Option GrantType
  clientId : Option String
  deriving DecidableEq, Repr

section Structs

variable {fields : Fields} {config : Typed}

def structJson (fields : Fields) (config : Typed) : Value :=
  .object (fields.filterMap fun e => (config.field e.1).map fun v => (e.1, encodeValue v))

theorem lookup_structJson (hnodup : (fields.map Prod.fst).Nodup) {e : String × FieldType}
    (he : e ∈ fields) :
    Entries.lookup e.1 (fields.filterMap fun e =>
      (config.field e.1).map fun v => (e.1, encodeValue v)) =
      (config.field e.1).map encodeValue := by
  induction fields with
  | nil => cases he
  | cons first rest ih =>
    obtain ⟨hfresh, hrest⟩ := List.nodup_cons.mp hnodup
    have hskip : e.1 ∉ rest.map Prod.fst →
        Entries.lookup e.1 (rest.filterMap fun e =>
          (config.field e.1).map fun v => (e.1, encodeValue v)) = none := by
      intro hnone
      cases hlookup : Entries.lookup e.1 (rest.filterMap fun e =>
          (config.field e.1).map fun v => (e.1, encodeValue v)) with
      | none => rfl
      | some w =>
        obtain ⟨e', he', hmap⟩ := List.mem_filterMap.mp (Entries.mem_of_lookup hlookup)
        obtain ⟨v, -, heq⟩ := Option.map_eq_some_iff.mp hmap
        have hname := (Prod.mk.inj heq).1
        exact absurd (hname ▸ List.mem_map_of_mem (f := Prod.fst) he') hnone
    rcases List.mem_cons.mp he with rfl | hmem
    · cases hfield : config.field e.1 with
      | none =>
        rw [List.filterMap_cons, hfield]
        exact hskip hfresh
      | some v =>
        rw [List.filterMap_cons, hfield]
        exact (Entries.lookup_cons ..).trans (if_pos rfl)
    · have hne : e.1 ≠ first.1 := by
        intro heq
        exact hfresh (heq ▸ List.mem_map_of_mem (f := Prod.fst) hmem)
      cases hfield : config.field first.1 with
      | none =>
        rw [List.filterMap_cons, hfield]
        exact ih hrest hmem
      | some v =>
        rw [List.filterMap_cons, hfield]
        exact ((Entries.lookup_cons ..).trans (if_neg hne)).trans (ih hrest hmem)

theorem decodeField_encode {fieldType : FieldType} {field : Option FieldValue}
    (h : ∀ v, field = some v → HasType fieldType v) :
    decodeField fieldType (field.map encodeValue) = some field := by
  cases field with
  | none => rfl
  | some v => exact decode_encodeValue (h v rfl)

theorem mapM_some {α β : Type} {f : α → Option β} {g : α → β} {l : List α}
    (h : ∀ a ∈ l, f a = some (g a)) : l.mapM f = some (l.map g) := by
  induction l with
  | nil => rfl
  | cons a rest ih =>
    rw [List.mapM_cons, h a List.mem_cons_self, ih fun b hb => h b (List.mem_cons_of_mem _ hb)]
    rfl

theorem typedOf_structJson (hnodup : (fields.map Prod.fst).Nodup)
    (htyped : ∀ e ∈ fields, ∀ v, config.field e.1 = some v → HasType e.2 v) :
    typedOf fields (structJson fields config) =
      some (fields.map fun e => (e.1, config.field e.1)) := by
  refine mapM_some fun e he => ?_
  rw [lookup_structJson hnodup he, decodeField_encode (htyped e he)]
  rfl

theorem nesting_encodeValue (v : FieldValue) :
    (encodeValue v).nesting = 0 ∧ (encodeValue v).floats = [] := by
  cases v with
  | string s => exact ⟨rfl, rfl⟩
  | bool b => exact ⟨rfl, rfl⟩
  | u64 n => exact ⟨rfl, rfl⟩
  | format f =>
    cases f with
    | human | json => exact ⟨rfl, rfl⟩
  | grantType g =>
    cases g with
    | authorizationCode | clientCredentials => exact ⟨rfl, rfl⟩

theorem flat_structJson :
    (structJson fields config).nesting = 1 ∧ (structJson fields config).floats = [] := by
  have hmembers : nestingMembers (fields.filterMap fun e =>
        (config.field e.1).map fun v => (e.1, encodeValue v)) = 0 ∧
      floatsMembers (fields.filterMap fun e =>
        (config.field e.1).map fun v => (e.1, encodeValue v)) = [] := by
    induction fields with
    | nil => exact ⟨rfl, rfl⟩
    | cons e rest ih =>
      cases hfield : config.field e.1 with
      | none =>
        rw [List.filterMap_cons, hfield]
        exact ih
      | some v =>
        obtain ⟨hnesting, hfloats⟩ := nesting_encodeValue v
        rw [List.filterMap_cons, hfield]
        constructor
        · exact (congrArg₂ max hnesting ih.1).trans rfl
        · exact (congrArg₂ _ hfloats ih.2).trans rfl
  refine ⟨?_, ?_⟩
  · rw [structJson, Value.nesting, hmembers.1]
  · rw [structJson, Value.floats, hmembers.2]

theorem isSized_encodeValue {fieldType : FieldType} {v : FieldValue} (h : HasType fieldType v) :
    (encodeValue v).isSized = true := by
  cases v with
  | u64 n =>
    cases fieldType with
    | u64 =>
      have hn : n < 2 ^ 64 := h
      exact isSized_int.mpr ⟨by omega, by omega⟩
    | string | bool | format | grantType => cases h
  | string s => rfl
  | bool b => rfl
  | format f =>
    cases f with
    | human | json => rfl
  | grantType g =>
    cases g with
    | authorizationCode | clientCredentials => rfl

theorem isSized_structJson
    (htyped : ∀ e ∈ fields, ∀ v, config.field e.1 = some v → HasType e.2 v) :
    (structJson fields config).isSized = true := by
  rw [structJson, Value.isSized, sizedMembers_iff]
  intro member hmember
  obtain ⟨e, he, hfield⟩ := List.mem_filterMap.mp hmember
  obtain ⟨v, hv, rfl⟩ := Option.map_eq_some_iff.mp hfield
  exact isSized_encodeValue (htyped e he v hv)

theorem read_structJson (r : Reader)
    (htyped : ∀ e ∈ fields, ∀ v, config.field e.1 = some v → HasType e.2 v) :
    r.read (structJson fields config).render = some (structJson fields config) := by
  obtain ⟨hnesting, hfloats⟩ := @flat_structJson fields config
  refine r.read_render _ (isSized_structJson htyped) ?_ ?_
  · rw [hnesting, recursionLimit]
    omega
  · rw [hfloats]
    intro t ht
    cases ht

end Structs

namespace TokenData

def fields : Fields :=
  [("access_token", .string), ("expires_at", .u64), ("refresh_token", .string),
   ("refresh_expires_at", .u64), ("grant_type", .grantType), ("client_id", .string)]

def typed (t : TokenData) : Typed :=
  [("access_token", some (.string t.accessToken)),
   ("expires_at", some (.u64 t.expiresAt.toNat)),
   ("refresh_token", t.refreshToken.map .string),
   ("refresh_expires_at", t.refreshExpiresAt.map fun n => .u64 n.toNat),
   ("grant_type", t.grantType.map .grantType),
   ("client_id", t.clientId.map .string)]

def text : FieldValue → Option String
  | .string s => some s
  | _ => none

def number : FieldValue → Option UInt64
  | .u64 n => some (UInt64.ofNat n)
  | _ => none

def grant : FieldValue → Option GrantType
  | .grantType g => some g
  | _ => none

/-- The record of decoded fields; the first two are required. -/
def ofTyped (config : Typed) : Option TokenData :=
  match (config.field "access_token").bind text, (config.field "expires_at").bind number with
  | some accessToken, some expiresAt => some
    { accessToken, expiresAt
      refreshToken := (config.field "refresh_token").bind text
      refreshExpiresAt := (config.field "refresh_expires_at").bind number
      grantType := (config.field "grant_type").bind grant
      clientId := (config.field "client_id").bind text }
  | _, _ => none

def json (t : TokenData) : String := (structJson fields t.typed).render

/-- `serde_json::from_str` on an object; an array, which serde reads field by field, is refused. -/
def parse (r : Reader) (json : String) : Option TokenData :=
  ((r.read json).bind (typedOf fields)).bind ofTyped

theorem fields_nodup : (fields.map Prod.fst).Nodup := by decide

theorem hasType_typed (t : TokenData) :
    ∀ e ∈ fields, ∀ v, t.typed.field e.1 = some v → HasType e.2 v := by
  have hnumber : ∀ n : UInt64, HasType .u64 (.u64 n.toNat) := fun n => n.toNat_lt
  intro e he v hv
  simp only [fields, List.mem_cons, List.not_mem_nil, or_false] at he
  rcases he with rfl | rfl | rfl | rfl | rfl | rfl
  · rw [← Option.some.inj hv]
    trivial
  · rw [← Option.some.inj hv]
    exact hnumber _
  · obtain ⟨s, -, rfl⟩ := Option.map_eq_some_iff.mp hv
    trivial
  · obtain ⟨n, -, rfl⟩ := Option.map_eq_some_iff.mp hv
    exact hnumber n
  · obtain ⟨g, -, rfl⟩ := Option.map_eq_some_iff.mp hv
    trivial
  · obtain ⟨s, -, rfl⟩ := Option.map_eq_some_iff.mp hv
    trivial

theorem ofTyped_typed (t : TokenData) : ofTyped t.typed = some t := by
  obtain ⟨accessToken, expiresAt, refreshToken, refreshExpiresAt, grantType, clientId⟩ := t
  have htext : ∀ o : Option String, (o.map FieldValue.string).bind text = o := by
    intro o
    cases o <;> rfl
  have hnumber : ∀ o : Option UInt64,
      (o.map fun n => FieldValue.u64 n.toNat).bind number = o := by
    intro o
    cases o with
    | none => rfl
    | some n => exact congrArg some UInt64.ofNat_toNat
  have hgrant : ∀ o : Option GrantType, (o.map FieldValue.grantType).bind grant = o := by
    intro o
    cases o <;> rfl
  have hexpires : number (.u64 expiresAt.toNat) = some expiresAt :=
    congrArg some UInt64.ofNat_toNat
  have hof : ofTyped (typed ⟨accessToken, expiresAt, refreshToken, refreshExpiresAt, grantType,
      clientId⟩) = match some accessToken, number (.u64 expiresAt.toNat) with
      | some accessToken, some expiresAt => some
        { accessToken, expiresAt
          refreshToken := (refreshToken.map FieldValue.string).bind text
          refreshExpiresAt := (refreshExpiresAt.map fun n => FieldValue.u64 n.toNat).bind number
          grantType := (grantType.map FieldValue.grantType).bind grant
          clientId := (clientId.map FieldValue.string).bind text }
      | _, _ => none := rfl
  rw [hof, hexpires, htext, hnumber, hgrant, htext]

/-- What was serialised is read back as it was. -/
theorem parse_json (r : Reader) (t : TokenData) : parse r t.json = some t := by
  have htyped : fields.map (fun e => (e.1, t.typed.field e.1)) = t.typed := rfl
  rw [parse, json, read_structJson r t.hasType_typed, Option.bind_some,
    typedOf_structJson fields_nodup t.hasType_typed, htyped, Option.bind_some, ofTyped_typed]

end TokenData

end AuthToken
