import AgsCli.Terminal.BodyShapes
import AgsCli.Terminal.RawEditor

/-! # The structured body editor

The tree of a JSON body over its schema, the value a tree stands for, and the flip to raw text and
back. A tree stands for the projection of its value on the shape of the schema. -/
namespace JsonEditor

open Json OrderedMap BodyShapes RawEditing

inductive ScalarValue
  | string (s : String)
  | integer (n : Int)
  | number (text : String)
  | boolean (b : Bool)
  | enum (s : String)
  deriving DecidableEq

mutual

inductive NodeKind
  | object (children : List Node)
  | array (children : List Node)
  | scalar (value : Option ScalarValue)
  | oneOf (variants : List Node) (selected : Option Nat)
  | freeMap (entries : List (String × Node))

structure Node where
  name : String
  schema : Value
  required : Bool
  kind : NodeKind
  expanded : Bool

end

def inferSchemaFromValue : Value → Value
  | .string _ => Value.ofPairs [("type", .string "string")]
  | .bool _ => Value.ofPairs [("type", .string "boolean")]
  | .number (.int _) => Value.ofPairs [("type", .string "integer")]
  | .number (.float _) => Value.ofPairs [("type", .string "number")]
  | .array [] => Value.ofPairs [("type", .string "array"), ("items", .object [])]
  | .array (first :: _) =>
    Value.ofPairs [("type", .string "array"), ("items", inferSchemaFromValue first)]
  | .object _ => Value.ofPairs [("type", .string "object")]
  | .null => .object []

section Reading

variable (nearest : Int → String)

/-- A number that is not an `i64` is read as the nearest float. -/
def scalarFromValue (value schema : Value) : Option ScalarValue :=
  if (schema.get? "enum").isSome then value.asStr?.map .enum
  else match value with
    | .string s => some (.string s)
    | .bool b => some (.boolean b)
    | .number (.int n) =>
      if -2 ^ 63 ≤ n ∧ n < 2 ^ 63 then some (.integer n) else some (.number (nearest n))
    | .number (.float text) => some (.number text)
    | _ => none

def asArray? : Value → Option (List Value)
  | .array items => some items
  | _ => none

inductive Layout
  | object (properties : Option (List (String × Value)))
  | array (items : Value)
  | scalar
  | oneOf (variants : List Value)
  | freeMap

def layout (schema : Value) : Layout :=
  match (schema.get? "type").bind Value.asStr? with
  | some "object" => .object ((schema.get? "properties").bind Value.asObject?)
  | some "array" => .array (memberOf "items" schema)
  | some "string" | some "integer" | some "number" | some "boolean" => .scalar
  | _ =>
    match (schema.get? "oneOf").bind asArray? with
    | some variants => .oneOf variants
    | none => if (schema.get? "additionalProperties").isSome then .freeMap else .scalar

def requiredSet (schema : Value) : List String :=
  (((schema.get? "required").bind asArray?).getD []).filterMap Value.asStr?

theorem get_size {key : String} {v w : Value} (h : v.get? key = some w) : sizeOf w < sizeOf v := by
  cases v with
  | object members =>
    have hsize := lookup_size h
    simp only [Value.object.sizeOf_spec]
    omega
  | _ => cases h

theorem layout_object {schema : Value} {properties : Option (List (String × Value))}
    (h : layout schema = .object properties) :
    (schema.get? "properties").bind Value.asObject? = properties := by
  unfold layout at h
  split at h
  · exact Layout.object.inj h
  any_goals cases h
  split at h
  · cases h
  · split at h <;> cases h

theorem layout_array {schema item : Value} (h : layout schema = .array item) :
    memberOf "items" schema = item ∧ (schema.get? "type").isSome := by
  unfold layout at h
  split at h
  · cases h
  · rename_i htype
    refine ⟨Layout.array.inj h, ?_⟩
    cases hget : schema.get? "type" with
    | none => rw [hget] at htype; cases htype
    | some _ => rfl
  any_goals cases h
  split at h
  · cases h
  · split at h <;> cases h

theorem layout_oneOf {schema : Value} {variants : List Value}
    (h : layout schema = .oneOf variants) :
    (schema.get? "oneOf").bind asArray? = some variants := by
  unfold layout at h
  split at h
  any_goals cases h
  split at h
  · rename_i hvariants
    cases h
    exact hvariants
  · split at h <;> cases h

theorem layout_properties_size {schema : Value} {props : List (String × Value)}
    (h : layout schema = .object (some props)) {p : String × Value} (hp : p ∈ props) :
    sizeOf p.2 < sizeOf schema := by
  obtain ⟨v, hget, hprops⟩ := Option.bind_eq_some_iff.mp (layout_object h)
  have hsize := get_size hget
  cases v with
  | object members =>
    cases hprops
    have hmem := List.sizeOf_lt_of_mem hp
    obtain ⟨name, child⟩ := p
    simp only [Prod.mk.sizeOf_spec] at hmem
    simp only [Value.object.sizeOf_spec] at hsize
    change sizeOf child < sizeOf schema
    omega
  | _ => cases hprops

theorem layout_items_size {schema item : Value} (h : layout schema = .array item) :
    sizeOf item < sizeOf schema := by
  obtain ⟨rfl, htype⟩ := layout_array h
  obtain ⟨t, ht⟩ := Option.isSome_iff_exists.mp htype
  have hsize := get_size ht
  unfold memberOf
  cases hitems : schema.get? "items" with
  | none => exact lt_of_le_of_lt (null_size t) hsize
  | some v => exact get_size hitems

theorem layout_variants_size {schema : Value} {variants : List Value}
    (h : layout schema = .oneOf variants) {v : Value} (hv : v ∈ variants) :
    sizeOf v < sizeOf schema := by
  obtain ⟨w, hget, hvariants⟩ := Option.bind_eq_some_iff.mp (layout_oneOf h)
  have hsize := get_size hget
  cases w with
  | array items =>
    cases hvariants
    have hmem := List.sizeOf_lt_of_mem hv
    simp only [Value.array.sizeOf_spec] at hsize
    omega
  | _ => cases hvariants

section Descent

variable {schema value : Value}

/-- The value gets smaller, or stays and the schema gets smaller. -/
def Descends (value schema value' schema' : Value) : Prop :=
  Prod.Lex (· < ·) (· < ·) (sizeOf value, sizeOf schema) (sizeOf value', sizeOf schema')

theorem property_lt {props : List (String × Value)} (h : layout schema = .object (some props))
    {p : String × Value} (hp : p ∈ props) :
    Descends (memberOf p.1 value) p.2 value schema := by
  have hschema := layout_properties_size h hp
  unfold Descends
  rcases lt_or_eq_of_le (memberOf_size p.1 value) with hlt | heq
  · exact Prod.Lex.left _ _ hlt
  · rw [heq]
    exact Prod.Lex.right _ hschema

theorem member_lt {members : List (String × Value)} {e : String × Value} (he : e ∈ members)
    {schema' : Value} : Descends e.2 schema' (.object members) schema := by
  have hmember := List.sizeOf_lt_of_mem he
  obtain ⟨key, child⟩ := e
  simp only [Prod.mk.sizeOf_spec] at hmember
  exact Prod.Lex.left _ _ (by
    simp only [Value.object.sizeOf_spec]
    omega)

theorem item_lt {items : List Value} {item : Value} (hitem : item ∈ items) {schema' : Value} :
    Descends item schema' (.array items) schema := by
  have hsize := List.sizeOf_lt_of_mem hitem
  exact Prod.Lex.left _ _ (by
    simp only [Value.array.sizeOf_spec]
    omega)

theorem variant_lt {variants : List Value} (h : layout schema = .oneOf variants) {v : Value}
    (hv : v ∈ variants) : Descends .null v value schema := by
  have hschema := layout_variants_size h hv
  unfold Descends
  rcases lt_or_eq_of_le (null_size value) with hlt | heq
  · exact Prod.Lex.left _ _ hlt
  · rw [heq]
    exact Prod.Lex.right _ hschema

end Descent

/-- `map`, with what is known of an item. -/
def mapMem {α β : Type} (l : List α) (f : (a : α) → a ∈ l → β) : List β :=
  l.attach.map fun a => f a.1 a.2

@[simp] theorem mapMem_eq {α β : Type} (l : List α) (f : α → β) :
    (mapMem l fun a _ => f a) = l.map f := List.attach_map_val

def fromSchema (name : String) (schema value : Value) (required : Bool) : Node :=
  let kind : NodeKind :=
    match _h : layout schema with
    | .object (some props) => .object (mapMem props fun p _ =>
        fromSchema p.1 p.2 (memberOf p.1 value) ((requiredSet schema).contains p.1))
    | .object none =>
      match value with
      | .object map => .object (mapMem map fun e _ =>
          fromSchema e.1 (inferSchemaFromValue e.2) e.2 false)
      | _ => .object []
    | .array itemSchema =>
      match value with
      | .array items => .array (mapMem items.zipIdx fun item _ =>
          fromSchema s!"[{item.2}]" itemSchema item.1 false)
      | _ => .array []
    | .oneOf variants => .oneOf (mapMem variants.zipIdx fun variant _ =>
        fromSchema s!"variant {variant.2}" variant.1 .null false) none
    | .freeMap => .freeMap []
    | .scalar => .scalar (scalarFromValue nearest value schema)
  { name, schema, required, kind, expanded := true }
termination_by (sizeOf value, sizeOf schema)
decreasing_by
  · exact property_lt _h ‹p ∈ props›
  · exact member_lt ‹e ∈ map›
  · exact item_lt (List.fst_mem_of_mem_zipIdx ‹item ∈ items.zipIdx›)
  · exact variant_lt _h (List.fst_mem_of_mem_zipIdx ‹variant ∈ variants.zipIdx›)

end Reading

namespace ScalarValue

def toValue : ScalarValue → Value
  | .string s | .enum s => .string s
  | .integer n => .number (.int n)
  | .number text => .number (.float text)
  | .boolean b => .bool b

end ScalarValue

def Node.toValue : Node → Value
  | ⟨_, _, _, .object children, _⟩ => ofMembers (children.map fun c => (c.name, c.toValue))
  | ⟨_, _, _, .array children, _⟩ => .array (children.map fun c => c.toValue)
  | ⟨_, _, _, .scalar (some s), _⟩ => s.toValue
  | ⟨_, _, _, .scalar none, _⟩ => .null
  | ⟨_, _, _, .oneOf variants (some i), _⟩ =>
    ((variants.map fun v => v.toValue)[i]?).getD .null
  | ⟨_, _, _, .oneOf _ none, _⟩ => .null
  | ⟨_, _, _, .freeMap entries, _⟩ => ofMembers (entries.map fun e => (e.1, e.2.toValue))
termination_by node => sizeOf node
decreasing_by
  · have hchild := List.sizeOf_lt_of_mem ‹c ∈ children›
    simp only [Node.mk.sizeOf_spec, NodeKind.object.sizeOf_spec]
    omega
  · have hchild := List.sizeOf_lt_of_mem ‹c ∈ children›
    simp only [Node.mk.sizeOf_spec, NodeKind.array.sizeOf_spec]
    omega
  · have hvariant := List.sizeOf_lt_of_mem ‹v ∈ variants›
    simp only [Node.mk.sizeOf_spec, NodeKind.oneOf.sizeOf_spec]
    omega
  · have hentry := List.sizeOf_lt_of_mem ‹e ∈ entries›
    obtain ⟨key, child⟩ := e
    simp only [Prod.mk.sizeOf_spec] at hentry
    simp only [Node.mk.sizeOf_spec, NodeKind.freeMap.sizeOf_spec]
    omega

/-- What the layouts of a schema and of its parts leave room for. -/
def shapeOf (schema : Value) : Shape :=
  match _h : layout schema with
  | .object (some props) => .record (mapMem props fun p _ => (p.1, shapeOf p.2))
  | .object none => .openRecord
  | .array item => .list (shapeOf item)
  | .scalar => .scalar (schema.get? "enum").isSome
  | .oneOf _ => .void
  | .freeMap => .emptyRecord
termination_by sizeOf schema
decreasing_by
  · exact layout_properties_size _h ‹p ∈ props›
  · exact layout_items_size _h

section Trees

variable {nearest : Int → String} {name : String} {schema value : Value} {required : Bool}

theorem shapeOf_eq (schema : Value) : shapeOf schema =
    match layout schema with
    | .object (some props) => .record (props.map fun p => (p.1, shapeOf p.2))
    | .object none => .openRecord
    | .array item => .list (shapeOf item)
    | .scalar => .scalar (schema.get? "enum").isSome
    | .oneOf _ => .void
    | .freeMap => .emptyRecord := by
  rw [shapeOf]
  simp only [mapMem_eq]
  split <;> simp only [*]

theorem shapeOf_items (items : Value) :
    shapeOf (Value.ofPairs [("type", .string "array"), ("items", items)]) =
      .list (shapeOf items) := by
  have hpairs : Value.ofPairs [("type", .string "array"), ("items", items)] =
      .object [("items", items), ("type", .string "array")] := by
    simp [Value.ofPairs, Entries.insert, show "items" < "type" by decide]
  rw [hpairs, shapeOf_eq]
  rfl

theorem shapeOf_inferSchema : (v : Value) → shapeOf (inferSchemaFromValue v) = inferShape v
  | .array [] => by
    rw [inferSchemaFromValue, shapeOf_items, inferShape, shapeOf_eq]
    rfl
  | .array (first :: rest) => by
    rw [inferSchemaFromValue, shapeOf_items, inferShape, shapeOf_inferSchema first]
  | .object members => by rw [shapeOf_eq]; rfl
  | .null => by rw [shapeOf_eq]; rfl
  | .bool _ => by rw [shapeOf_eq]; rfl
  | .string _ => by rw [shapeOf_eq]; rfl
  | .number (.int _) => by rw [shapeOf_eq]; rfl
  | .number (.float _) => by rw [shapeOf_eq]; rfl

theorem fromSchema_eq (name : String) (schema value : Value) (required : Bool) :
    fromSchema nearest name schema value required = { name, schema, required, expanded := true
                                                      kind := match layout schema with
      | .object (some props) => .object (props.map fun p =>
          fromSchema nearest p.1 p.2 (memberOf p.1 value) ((requiredSet schema).contains p.1))
      | .object none =>
        match value with
        | .object map => .object (map.map fun e =>
            fromSchema nearest e.1 (inferSchemaFromValue e.2) e.2 false)
        | _ => .object []
      | .array itemSchema =>
        match value with
        | .array items => .array (items.zipIdx.map fun item =>
            fromSchema nearest s!"[{item.2}]" itemSchema item.1 false)
        | _ => .array []
      | .oneOf variants => .oneOf (variants.zipIdx.map fun variant =>
          fromSchema nearest s!"variant {variant.2}" variant.1 .null false) none
      | .freeMap => .freeMap []
      | .scalar => .scalar (scalarFromValue nearest value schema) } := by
  rw [fromSchema.eq_def]
  simp only [mapMem_eq]
  congr 1
  split <;> simp only [*]

@[simp] theorem name_fromSchema : (fromSchema nearest name schema value required).name = name := by
  rw [fromSchema_eq]

theorem toValue_scalar :
    (match scalarFromValue nearest value schema with
      | some s => s.toValue
      | none => .null) = keepScalar nearest (schema.get? "enum").isSome value := by
  unfold scalarFromValue
  by_cases henum : (schema.get? "enum").isSome = true
  · rw [if_pos henum, henum]
    cases value <;> rfl
  · rw [if_neg henum, Bool.eq_false_iff.mpr henum]
    cases value with
    | number n =>
      cases n with
      | int n =>
        by_cases hn : -2 ^ 63 ≤ n ∧ n < 2 ^ 63
        · simp only [if_pos hn, ScalarValue.toValue, keepScalar, keepNumber, Bool.false_eq_true,
            if_false]
        · simp only [if_neg hn, ScalarValue.toValue, keepScalar, keepNumber, Bool.false_eq_true,
            if_false]
      | float text => rfl
    | _ => rfl

/-- A tree stands for the projection of its value on the shape of its schema. -/
theorem toValue_fromSchema (nearest : Int → String) (name : String) (schema value : Value)
    (required : Bool) :
    (fromSchema nearest name schema value required).toValue =
      project nearest (shapeOf schema) value := by
  rw [fromSchema_eq, shapeOf_eq]
  cases hlayout : layout schema with
  | object properties =>
    cases properties with
    | some props =>
      rw [Node.toValue, project, List.map_map, List.map_map]
      congr 1
      refine List.map_congr_left fun p hp => Prod.ext name_fromSchema ?_
      exact toValue_fromSchema nearest p.1 p.2 (memberOf p.1 value) _
    | none =>
      cases value with
      | object map =>
        rw [Node.toValue, project, List.map_map]
        congr 1
        refine List.map_congr_left fun e he => Prod.ext name_fromSchema ?_
        rw [← shapeOf_inferSchema]
        exact toValue_fromSchema nearest e.1 (inferSchemaFromValue e.2) e.2 false
      | _ => simp [Node.toValue, project, ofMembers]
  | array itemSchema =>
    cases value with
    | array items =>
      have hitems : items.zipIdx.map (fun item => (fromSchema nearest
            s!"[{item.2}]" itemSchema item.1 false).toValue) =
          items.zipIdx.map fun item => project nearest (shapeOf itemSchema) item.1 :=
        List.map_congr_left fun item hitem => toValue_fromSchema nearest _ itemSchema item.1 false
      have hfst :
          (items.zipIdx.map Prod.fst).map (fun v => project nearest (shapeOf itemSchema) v) =
          items.map fun v => project nearest (shapeOf itemSchema) v := by
        rw [List.zipIdx_map_fst]
      rw [List.map_map] at hfst
      rw [Node.toValue, project, List.map_map]
      exact congrArg Value.array (hitems.trans hfst)
    | _ => simp [Node.toValue, project]
  | scalar =>
    rw [project, ← toValue_scalar]
    cases scalarFromValue nearest value schema with
    | none => rw [Node.toValue]
    | some s => rw [Node.toValue]
  | oneOf variants => rw [Node.toValue, project]
  | freeMap => rw [Node.toValue, project]; rfl
termination_by (sizeOf value, sizeOf schema)
decreasing_by
  · exact member_lt he
  · exact property_lt hlayout hp
  · exact item_lt (List.fst_mem_of_mem_zipIdx hitem)

end Trees

/-- `to_string_pretty` and `from_str`. -/
structure Serde where
  toStringPretty : Value → Option String
  fromStr : String → Except String Value

inductive EditorMode
  | structured
  | raw (editor : RawEditor)

section Modes

variable (nearest : Int → String) (serde : Serde)

def intoRaw (root : Node) : EditorMode :=
  .raw (RawEditor.fromSeed ((serde.toStringPretty root.toValue).getD "\x7b\x7d"))

def parseRawValue (buffer : String) : Except String Value :=
  (serde.fromStr buffer).mapError fun e => s!"invalid JSON: {e}"

def commitRawToTree (buffer : String) (schema : Value) (name : String) (required : Bool) :
    Except String Node := do
  let value ← parseRawValue serde buffer
  return fromSchema nearest name schema value required

/-- To raw text and, without an edit, back to a tree. -/
def flip (root : Node) : Except String Node :=
  match intoRaw serde root with
  | .raw editor => commitRawToTree nearest serde editor.toText root.schema root.name root.required
  | .structured => .ok root

def flips : Nat → Node → Except String Node
  | 0, root => .ok root
  | n + 1, root => flip nearest serde root >>= flips n

/-- A value is printed, and its text is read back as the value. -/
def RoundTrips (v : Value) : Prop :=
  ∃ text, serde.toStringPretty v = some text ∧ serde.fromStr text = .ok v

end Modes

section Losses

variable {nearest : Int → String} {serde : Serde} {name : String} {schema value : Value}
  {required : Bool}

theorem get_distinct {key : String} {v w : Value} (hv : Distinct v) (h : v.get? key = some w) :
    Distinct w := by
  cases hv with
  | object hkeys hchildren => exact hchildren _ (Entries.mem_of_lookup h)
  | _ => cases h

theorem shapeOf_distinct (schema : Value) (hschema : Distinct schema) :
    (shapeOf schema).Distinct := by
  rw [shapeOf_eq]
  cases hlayout : layout schema with
  | object properties =>
    cases properties with
    | some props =>
      obtain ⟨v, hget, hprops⟩ := Option.bind_eq_some_iff.mp (layout_object hlayout)
      have hv := get_distinct hschema hget
      cases hv with
      | object hkeys hchildren =>
        cases hprops
        refine .record ?_ fun f hf => ?_
        · rwa [List.map_map]
        · obtain ⟨p, hp, rfl⟩ := List.mem_map.mp hf
          exact shapeOf_distinct p.2 (hchildren p hp)
      | _ => cases hprops
    | none => exact .openRecord
  | array item =>
    have hitem : Distinct item := (layout_array hlayout).1 ▸ memberOf_distinct hschema
    exact .list (shapeOf_distinct item hitem)
  | scalar => exact .scalar _
  | oneOf variants => exact .void
  | freeMap => exact .emptyRecord
termination_by sizeOf schema
decreasing_by
  · exact layout_properties_size hlayout hp
  · exact layout_items_size hlayout

theorem toText_fromSeed (seed : String) : (RawEditor.fromSeed seed).toText = seed :=
  String.toList_inj.mp (congrArg TextBuffer.Buffer.text (fromSeed_shows seed).2)

theorem flip_of_roundTrips (nearest : Int → String) (root : Node)
    (h : RoundTrips serde root.toValue) :
    flip nearest serde root =
      .ok (fromSchema nearest root.name root.schema root.toValue root.required) := by
  obtain ⟨text, hprint, hread⟩ := h
  simp only [flip, intoRaw, hprint, Option.getD_some, toText_fromSeed, commitRawToTree,
    parseRawValue, hread]
  rfl

theorem flips_keep (hschema : Distinct schema) (hvalue : Distinct value)
    (h : RoundTrips serde (project nearest (shapeOf schema) value)) (n : Nat) (root : Node)
    (hroot : root.schema = schema)
    (htext : root.toValue = project nearest (shapeOf schema) value) :
    ∃ tree, flips nearest serde n root = .ok tree ∧ tree.toValue = root.toValue := by
  induction n generalizing root with
  | zero => exact ⟨root, rfl, rfl⟩
  | succ n ih =>
    have hflip := flip_of_roundTrips nearest root (htext ▸ h)
    have hnext : (fromSchema nearest root.name root.schema root.toValue root.required).toValue =
        project nearest (shapeOf schema) value := by
      rw [toValue_fromSchema, hroot, htext]
      exact project_project (shapeOf_distinct schema hschema) hvalue
    obtain ⟨tree, htree, hkeep⟩ := ih
      (fromSchema nearest root.name root.schema root.toValue root.required)
      (by rw [fromSchema_eq]; exact hroot) hnext
    refine ⟨tree, ?_, hkeep.trans (hnext.trans htext.symm)⟩
    rw [flips, hflip]
    exact htree

/-- The tree of a value stands for the value, and flips leave it, exactly when the schema has room
for all of the value. -/
theorem fromSchema_lossless_iff (nearest : Int → String) (name : String) (schema value : Document)
    (required : Bool) (serde : Serde)
    (hserde : RoundTrips serde (fromSchema nearest name schema.1 value.1 required).toValue) :
    (Same (fromSchema nearest name schema.1 value.1 required).toValue value.1 ∧
      ∀ n, ∃ tree,
        flips nearest serde n (fromSchema nearest name schema.1 value.1 required) = .ok tree ∧
        tree.toValue = (fromSchema nearest name schema.1 value.1 required).toValue) ↔
    Fits (shapeOf schema.1) value.1 := by
  have hvalue := toValue_fromSchema nearest name schema.1 value.1 required
  have hflips : ∀ n, ∃ tree,
      flips nearest serde n (fromSchema nearest name schema.1 value.1 required) = .ok tree ∧
      tree.toValue = (fromSchema nearest name schema.1 value.1 required).toValue := fun n =>
    flips_keep schema.2 value.2 (hvalue ▸ hserde) n _ (by rw [fromSchema_eq]) hvalue
  have hfits := same_project_iff nearest (shapeOf_distinct schema.1 schema.2) value.2
  rw [← hvalue] at hfits
  exact (and_iff_left hflips).trans hfits

end Losses

section Examples

/-- One declared member, a text. -/
def nameSchema : Document :=
  ⟨.object [("properties", .object [("name", .object [("type", .string "string")])]),
      ("type", .string "object")], by
    refine .object (by decide) fun e he => ?_
    rcases List.mem_cons.mp he with rfl | he
    · refine .object (by decide) fun e he => ?_
      cases List.mem_singleton.mp he
      refine .object (by decide) fun e he => ?_
      cases List.mem_singleton.mp he
      exact .string _
    · cases List.mem_singleton.mp he
      exact .string _⟩

theorem shapeOf_nameSchema : shapeOf nameSchema.1 = .record [("name", .scalar false)] := by
  rw [shapeOf_eq]
  change Shape.record [("name", shapeOf (.object [("type", .string "string")]))] = _
  rw [shapeOf_eq]
  rfl

def namedValue : Document :=
  ⟨.object [("name", .string "alice")], by
    refine .object (by decide) fun e he => ?_
    cases List.mem_singleton.mp he
    exact .string _⟩

def agedValue : Document :=
  ⟨.object [("age", .number (.int 30)), ("name", .string "alice")], by
    refine .object (by decide) fun e he => ?_
    rcases List.mem_cons.mp he with rfl | he
    · exact .number _
    · cases List.mem_singleton.mp he
      exact .string _⟩

def namedText : String := "\x7b\n  \"name\": \"alice\"\n\x7d"

/-- As printed, and read back. -/
def namedSerde : Serde where
  toStringPretty v := if v = namedValue.1 then some namedText else none
  fromStr text := if text = namedText then .ok namedValue.1 else .error "expected value"

theorem fromSchema_lossless_named :
    (RoundTrips namedSerde (fromSchema toString "body" nameSchema.1 namedValue.1 true).toValue ∧
      Fits (shapeOf nameSchema.1) namedValue.1) ∧
    ((Same (fromSchema toString "body" nameSchema.1 namedValue.1 true).toValue namedValue.1 ∧
      ∀ n, ∃ tree,
        flips toString namedSerde n (fromSchema toString "body" nameSchema.1 namedValue.1 true) =
          .ok tree ∧
        tree.toValue = (fromSchema toString "body" nameSchema.1 namedValue.1 true).toValue) ↔
    Fits (shapeOf nameSchema.1) namedValue.1) := by
  have hvalue : (fromSchema toString "body" nameSchema.1 namedValue.1 true).toValue =
      namedValue.1 := by
    rw [toValue_fromSchema, shapeOf_nameSchema]
    simp [project, namedValue, memberOf, Value.get?, Entries.lookup_cons, keepScalar, ofMembers,
      Value.isNull, Entries.insert]
  have hserde : RoundTrips namedSerde
      (fromSchema toString "body" nameSchema.1 namedValue.1 true).toValue := by
    rw [hvalue]
    exact ⟨namedText, by simp [namedSerde], by simp [namedSerde]⟩
  refine ⟨⟨hserde, ?_⟩, fromSchema_lossless_iff toString "body" nameSchema namedValue true
    namedSerde hserde⟩
  rw [shapeOf_nameSchema]
  refine .record (fun f hf => ?_) fun e he _ => ?_
  · cases List.mem_singleton.mp hf
    exact .text false "alice"
  · cases List.mem_singleton.mp he
    exact List.mem_singleton.mpr rfl

/-- A member the schema does not declare is dropped. -/
theorem undeclared_member_dropped : ¬ ∀ (name : String) (schema value : Document) (required : Bool),
    Same (fromSchema toString name schema.1 value.1 required).toValue value.1 := by
  intro h
  have hsame := h "body" nameSchema agedValue true
  rw [toValue_fromSchema] at hsame
  have hfits := (same_project_iff toString (shapeOf_distinct _ nameSchema.2) agedValue.2).mp hsame
  rw [shapeOf_nameSchema] at hfits
  cases hfits with
  | record hfields hdeclared =>
    have hage := hdeclared ("age", .number (.int 30)) List.mem_cons_self (by simp)
    exact absurd (List.mem_singleton.mp hage) (by decide)

end Examples

end JsonEditor
