import AgsCli.Protocol.Json
import Mathlib.Data.List.Nodup
import Mathlib.Tactic.Common

/-! # What a body shape keeps of a value

The structured body editor without its tree: a shape says where a value may have members, items or
a text, and projecting a value on it forgets the rest. -/
namespace BodyShapes

open Json OrderedMap

/-- A member of an object, `null` for a missing one and for any other value. -/
def memberOf (key : String) (v : Value) : Value := (v.get? key).getD .null

def ofMembers (members : List (String × Value)) : Value :=
  .object (members.foldl (fun map e => if e.2.isNull then map else Entries.insert e.1 e.2 map) [])

inductive Distinct : Value → Prop
  | null : Distinct .null
  | bool (b : Bool) : Distinct (.bool b)
  | number (n : Number) : Distinct (.number n)
  | string (s : String) : Distinct (.string s)
  | array {items : List Value} (h : ∀ v ∈ items, Distinct v) : Distinct (.array items)
  | object {members : List (String × Value)} (hkeys : (members.map Prod.fst).Nodup)
    (h : ∀ e ∈ members, Distinct e.2) : Distinct (.object members)

/-- A value as `serde_json` holds one. -/
abbrev Document := { v : Value // Distinct v }

/-- Equal but for the order of members and for members that are `null`. -/
inductive Same : Value → Value → Prop
  | null : Same .null .null
  | bool (b : Bool) : Same (.bool b) (.bool b)
  | number (n : Number) : Same (.number n) (.number n)
  | string (s : String) : Same (.string s) (.string s)
  | array {items others : List Value} (hlength : items.length = others.length)
    (h : ∀ i : Nat, Same ((items[i]?).getD .null) ((others[i]?).getD .null)) :
    Same (.array items) (.array others)
  | object {members others : List (String × Value)}
    (h : ∀ key, Same (memberOf key (.object members)) (memberOf key (.object others))) :
    Same (.object members) (.object others)

inductive Shape
  | scalar (textOnly : Bool)
  | list (item : Shape)
  | record (fields : List (String × Shape))
  | openRecord
  | emptyRecord
  | void

/-- The shape of a value whose schema is not known: items take after the first one. -/
def inferShape : Value → Shape
  | .array [] => .list (.scalar false)
  | .array (first :: _) => .list (inferShape first)
  | .object _ => .openRecord
  | _ => .scalar false

/-- A number beyond 64 signed bits is kept as the nearest float. -/
def keepNumber (nearest : Int → String) (n : Number) : Number :=
  match n with
  | .int i => if -2 ^ 63 ≤ i ∧ i < 2 ^ 63 then .int i else .float (nearest i)
  | .float text => .float text

def keepScalar (nearest : Int → String) (textOnly : Bool) (v : Value) : Value :=
  match v with
  | .string s => .string s
  | .bool b => if textOnly then .null else .bool b
  | .number n => if textOnly then .null else .number (keepNumber nearest n)
  | _ => .null

theorem lookup_size {key : String} {v : Value} {members : List (String × Value)}
    (h : Entries.lookup key members = some v) : sizeOf v < sizeOf members := by
  have hmem := List.sizeOf_lt_of_mem (Entries.mem_of_lookup h)
  simp only [Prod.mk.sizeOf_spec] at hmem
  omega

theorem null_size (v : Value) : sizeOf Value.null ≤ sizeOf v := by cases v <;> simp

theorem memberOf_size (key : String) (v : Value) : sizeOf (memberOf key v) ≤ sizeOf v := by
  cases v with
  | object members =>
    simp only [memberOf, Value.get?]
    cases h : Entries.lookup key members with
    | none => exact null_size _
    | some v =>
      have hsize := lookup_size h
      simp only [Option.getD_some, Value.object.sizeOf_spec]
      omega
  | _ => exact null_size _

def project (nearest : Int → String) : Shape → Value → Value
  | .scalar textOnly, v => keepScalar nearest textOnly v
  | .list item, .array items => .array (items.map fun v => project nearest item v)
  | .list _, _ => .array []
  | .record fields, v =>
    ofMembers (fields.map fun f => (f.1, project nearest f.2 (memberOf f.1 v)))
  | .openRecord, .object members =>
    ofMembers (members.map fun e => (e.1, project nearest (inferShape e.2) e.2))
  | .openRecord, _ => .object []
  | .emptyRecord, _ => .object []
  | .void, _ => .null
termination_by s v => (sizeOf v, sizeOf s)
decreasing_by
  · exact Prod.Lex.left _ _ (by
      have := List.sizeOf_lt_of_mem ‹v ∈ items›
      simp only [Value.array.sizeOf_spec]
      omega)
  · rename_i hmem
    have hfield := List.sizeOf_lt_of_mem hmem
    rcases lt_or_eq_of_le (memberOf_size f.1 v) with hlt | heq
    · exact Prod.Lex.left _ _ hlt
    · rw [heq]
      refine Prod.Lex.right _ ?_
      obtain ⟨name, shape⟩ := f
      simp only [Prod.mk.sizeOf_spec] at hfield
      simp only [Shape.record.sizeOf_spec]
      omega
  · rename_i hmem
    have hmember := List.sizeOf_lt_of_mem hmem
    obtain ⟨name, child⟩ := e
    simp only [Prod.mk.sizeOf_spec] at hmember
    exact Prod.Lex.left _ _ (by
      simp only [Value.object.sizeOf_spec]
      omega)

inductive Fits : Shape → Value → Prop
  | unset (textOnly : Bool) : Fits (.scalar textOnly) .null
  | text (textOnly : Bool) (s : String) : Fits (.scalar textOnly) (.string s)
  | bool (b : Bool) : Fits (.scalar false) (.bool b)
  | int {n : Int} (h : -2 ^ 63 ≤ n ∧ n < 2 ^ 63) : Fits (.scalar false) (.number (.int n))
  | float (text : String) : Fits (.scalar false) (.number (.float text))
  | list {item : Shape} {items : List Value} (h : ∀ v ∈ items, Fits item v) :
    Fits (.list item) (.array items)
  | record {fields : List (String × Shape)} {members : List (String × Value)}
    (h : ∀ f ∈ fields, Fits f.2 (memberOf f.1 (.object members)))
    (hdeclared : ∀ e ∈ members, e.2 ≠ .null → e.1 ∈ fields.map Prod.fst) :
    Fits (.record fields) (.object members)
  | openRecord {members : List (String × Value)} (h : ∀ e ∈ members, Fits (inferShape e.2) e.2) :
    Fits .openRecord (.object members)
  | emptyRecord {members : List (String × Value)} (h : ∀ e ∈ members, e.2 = .null) :
    Fits .emptyRecord (.object members)
  | void : Fits .void .null

inductive Shape.Distinct : Shape → Prop
  | scalar (textOnly : Bool) : Shape.Distinct (.scalar textOnly)
  | list {item : Shape} (h : item.Distinct) : Shape.Distinct (.list item)
  | record {fields : List (String × Shape)} (hkeys : (fields.map Prod.fst).Nodup)
    (h : ∀ f ∈ fields, f.2.Distinct) : Shape.Distinct (.record fields)
  | openRecord : Shape.Distinct .openRecord
  | emptyRecord : Shape.Distinct .emptyRecord
  | void : Shape.Distinct .void

section Members

variable {key : String} {v : Value} {members : List (String × Value)}

theorem lookup_of_nodup {e : String × Value} (hkeys : (members.map Prod.fst).Nodup)
    (h : e ∈ members) : Entries.lookup e.1 members = some e.2 := by
  induction members with
  | nil => cases h
  | cons d rest ih =>
    rw [List.map_cons, List.nodup_cons] at hkeys
    rcases List.mem_cons.mp h with rfl | hrest
    · exact if_pos rfl
    · have hne : e.1 ≠ d.1 := fun heq =>
        hkeys.1 (heq ▸ List.mem_map_of_mem hrest)
      exact (if_neg hne).trans (ih hkeys.2 hrest)

theorem lookup_of_not_mem (h : key ∉ members.map Prod.fst) :
    Entries.lookup key members = none := by
  cases hlookup : Entries.lookup key members with
  | none => rfl
  | some v => exact absurd (List.mem_map_of_mem (Entries.mem_of_lookup hlookup)) h

theorem memberOf_of_mem {e : String × Value} (hkeys : (members.map Prod.fst).Nodup)
    (h : e ∈ members) : memberOf e.1 (.object members) = e.2 := by
  simp only [memberOf, Value.get?, lookup_of_nodup hkeys h, Option.getD_some]

theorem memberOf_of_not_mem (h : key ∉ members.map Prod.fst) :
    memberOf key (.object members) = .null := by
  simp only [memberOf, Value.get?, lookup_of_not_mem h, Option.getD_none]

/-- A later entry of a key would replace an earlier one; there is none. -/
theorem memberOf_fold (key : String) (hkeys : (members.map Prod.fst).Nodup)
    (map : List (String × Value)) :
    memberOf key (.object (members.foldl
      (fun map e => if e.2.isNull then map else Entries.insert e.1 e.2 map) map)) =
    if memberOf key (.object members) = .null then memberOf key (.object map)
      else memberOf key (.object members) := by
  induction members generalizing map with
  | nil => rfl
  | cons e rest ih =>
    obtain ⟨name, child⟩ := e
    rw [List.map_cons, List.nodup_cons] at hkeys
    rw [List.foldl_cons, ih hkeys.2]
    by_cases hkey : key = name
    · subst hkey
      have hrest : memberOf key (.object rest) = .null := memberOf_of_not_mem hkeys.1
      have hself : memberOf key (.object ((key, child) :: rest)) = child := by
        simp [memberOf, Value.get?, Entries.lookup_cons]
      rw [if_pos hrest, hself]
      cases child <;> simp [Value.isNull, memberOf, Value.get?]
    · have htail : memberOf key (.object ((name, child) :: rest)) =
          memberOf key (.object rest) := by
        simp [memberOf, Value.get?, Entries.lookup_cons, hkey]
      have hmap : memberOf key
          (.object (if child.isNull then map else Entries.insert name child map)) =
          memberOf key (.object map) := by
        split
        · rfl
        · simp only [memberOf, Value.get?, Entries.lookup_insert_of_ne hkey]
      rw [htail, hmap]

theorem memberOf_ofMembers (key : String) (hkeys : (members.map Prod.fst).Nodup) :
    memberOf key (ofMembers members) = memberOf key (.object members) := by
  have h := memberOf_fold key hkeys []
  rw [ofMembers, h]
  split
  · exact Eq.symm ‹_›
  · rfl

theorem keys_map {α : Type} {g : String × α → Value} {fields : List (String × α)} :
    (fields.map fun f => (f.1, g f)).map Prod.fst = fields.map Prod.fst := by
  rw [List.map_map]
  rfl

end Members

section SameValues

variable {v w : Value}

theorem same_array_iff {items others : List Value} :
    Same (.array items) (.array others) ↔ items.length = others.length ∧
      ∀ i : Nat, Same ((items[i]?).getD .null) ((others[i]?).getD .null) := by
  constructor
  · intro h
    cases h with
    | array hlength h => exact ⟨hlength, h⟩
  · rintro ⟨hlength, h⟩
    exact .array hlength h

theorem same_object_iff {members others : List (String × Value)} :
    Same (.object members) (.object others) ↔
      ∀ key, Same (memberOf key (.object members)) (memberOf key (.object others)) := by
  constructor
  · intro h
    cases h with
    | object h => exact h
  · exact .object

theorem same_map_iff {g : Value → Value} {items : List Value} :
    Same (.array (items.map g)) (.array items) ↔ ∀ v ∈ items, Same (g v) v := by
  rw [same_array_iff, List.length_map]
  constructor
  · rintro ⟨-, h⟩ v hv
    obtain ⟨i, hi, rfl⟩ := List.getElem_of_mem hv
    simpa [hi] using h i
  · intro h
    refine ⟨rfl, fun i => ?_⟩
    rcases Nat.lt_or_ge i items.length with hi | hi
    · simpa [hi] using h items[i] (List.getElem_mem hi)
    · simpa [List.getElem?_eq_none hi] using Same.null

theorem same_fields_iff {α : Type} {fields : List (String × α)} {g : String × α → Value}
    {members : List (String × Value)} (hfields : (fields.map Prod.fst).Nodup)
    (hmembers : (members.map Prod.fst).Nodup) :
    Same (ofMembers (fields.map fun f => (f.1, g f))) (.object members) ↔
      (∀ f ∈ fields, Same (g f) (memberOf f.1 (.object members))) ∧
      ∀ e ∈ members, e.2 ≠ .null → e.1 ∈ fields.map Prod.fst := by
  have hkeys : ((fields.map fun f => (f.1, g f)).map Prod.fst).Nodup := by rwa [keys_map]
  have hof : ∀ f ∈ fields, memberOf f.1 (ofMembers (fields.map fun f => (f.1, g f))) = g f :=
    fun f hf => (memberOf_ofMembers _ hkeys).trans
      (memberOf_of_mem (e := (f.1, g f)) hkeys (List.mem_map_of_mem hf))
  have hnone : ∀ key, key ∉ fields.map Prod.fst →
      memberOf key (ofMembers (fields.map fun f => (f.1, g f))) = .null := fun key hkey =>
    (memberOf_ofMembers _ hkeys).trans (memberOf_of_not_mem (by rwa [keys_map]))
  have hobject : ∀ w, Same (ofMembers (fields.map fun f => (f.1, g f))) (.object w) ↔ ∀ key,
      Same (memberOf key (ofMembers (fields.map fun f => (f.1, g f)))) (memberOf key (.object w)) :=
    fun w => same_object_iff
  rw [hobject]
  constructor
  · intro h
    refine ⟨fun f hf => hof f hf ▸ h f.1, fun e he hne => ?_⟩
    by_contra hkey
    have hsame := h e.1
    rw [hnone _ hkey, memberOf_of_mem hmembers he] at hsame
    cases hvalue : e.2 with
    | null => exact hne hvalue
    | _ => rw [hvalue] at hsame; cases hsame
  · rintro ⟨h, hdeclared⟩ key
    by_cases hkey : key ∈ fields.map Prod.fst
    · obtain ⟨f, hf, rfl⟩ := List.mem_map.mp hkey
      rw [hof f hf]
      exact h f hf
    · have hmissing : memberOf key (.object members) = .null := by
        by_cases hmem : key ∈ members.map Prod.fst
        · obtain ⟨e, he, rfl⟩ := List.mem_map.mp hmem
          by_contra hne
          rw [memberOf_of_mem hmembers he] at hne
          exact hkey (hdeclared e he hne)
        · exact memberOf_of_not_mem hmem
      rw [hnone key hkey, hmissing]
      exact .null

end SameValues

section Projections

variable {nearest : Int → String}

theorem inferShape_distinct : (v : Value) → (inferShape v).Distinct
  | .array [] => .list (.scalar false)
  | .array (first :: _) => .list (inferShape_distinct first)
  | .object _ => .openRecord
  | .null | .bool _ | .number _ | .string _ => .scalar false

theorem memberOf_distinct {key : String} {v : Value} (hv : Distinct v) :
    Distinct (memberOf key v) := by
  cases hv with
  | object hkeys h =>
    simp only [memberOf, Value.get?]
    cases hlookup : Entries.lookup key _ with
    | none => exact .null
    | some w => exact h _ (Entries.mem_of_lookup hlookup)
  | _ => exact .null

theorem same_keepScalar_iff {textOnly : Bool} {v : Value} :
    Same (keepScalar nearest textOnly v) v ↔ Fits (.scalar textOnly) v := by
  cases v with
  | null => exact ⟨fun _ => .unset textOnly, fun _ => .null⟩
  | string s => exact ⟨fun _ => .text textOnly s, fun _ => .string s⟩
  | bool b =>
    cases textOnly with
    | true => exact ⟨fun h => (nomatch h), fun h => (nomatch h)⟩
    | false => exact ⟨fun _ => .bool b, fun _ => .bool b⟩
  | number n =>
    cases textOnly with
    | true => exact ⟨fun h => (nomatch h), fun h => (nomatch h)⟩
    | false =>
      cases n with
      | float text => exact ⟨fun _ => .float text, fun _ => .number _⟩
      | int n =>
        by_cases hn : -2 ^ 63 ≤ n ∧ n < 2 ^ 63
        · have hkeep : keepScalar nearest false (.number (.int n)) = .number (.int n) := by
            simp only [keepScalar, keepNumber, if_pos hn, Bool.false_eq_true, if_false]
          rw [hkeep]
          exact ⟨fun _ => .int hn, fun _ => .number _⟩
        · have hkeep : keepScalar nearest false (.number (.int n)) =
              .number (.float (nearest n)) := by
            simp only [keepScalar, keepNumber, if_neg hn, Bool.false_eq_true, if_false]
          rw [hkeep]
          exact ⟨fun h => (nomatch h), fun h => by cases h with | int h => exact absurd h hn⟩
  | array items => exact ⟨fun h => (nomatch h), fun h => (nomatch h)⟩
  | object members => exact ⟨fun h => (nomatch h), fun h => (nomatch h)⟩

/-- What a projection keeps is the whole value exactly when the value fits. -/
theorem same_project_iff (nearest : Int → String) {s : Shape} {v : Value} (hs : s.Distinct)
    (hv : Distinct v) :
    Same (project nearest s v) v ↔ Fits s v := by
  induction s, v using project.induct with
  | case1 textOnly v =>
    rw [project]
    exact same_keepScalar_iff
  | case2 item items ih =>
    cases hs with
    | list hitem =>
      cases hv with
      | array hitems =>
        rw [project, same_map_iff]
        constructor
        · exact fun h => .list fun v hmem => (ih v hmem hitem (hitems v hmem)).mp (h v hmem)
        · intro h
          cases h with
          | list h => exact fun v hmem => (ih v hmem hitem (hitems v hmem)).mpr (h v hmem)
  | case3 item v hother =>
    rw [project.eq_3 _ _ _ hother]
    constructor
    · intro h
      cases h with
      | array => exact absurd rfl (hother _)
    · intro h
      cases h with
      | list => exact absurd rfl (hother _)
  | case4 fields v ih =>
    rw [project]
    cases hs with
    | record hkeys hfields =>
      cases hv with
      | object hmembers hchildren =>
        rw [same_fields_iff hkeys hmembers]
        have hfits : ∀ f ∈ fields, (Same (project nearest f.2 (memberOf f.1 _)) _ ↔ Fits f.2 _) :=
          fun f hf => ih f hf (hfields f hf) (memberOf_distinct (.object hmembers hchildren))
        constructor
        · rintro ⟨h, hdeclared⟩
          exact .record (fun f hf => (hfits f hf).mp (h f hf)) hdeclared
        · intro h
          cases h with
          | record h hdeclared => exact ⟨fun f hf => (hfits f hf).mpr (h f hf), hdeclared⟩
      | _ => exact ⟨fun h => (nomatch h), fun h => (nomatch h)⟩
  | case5 members ih =>
    rw [project]
    cases hv with
    | object hmembers hchildren =>
      rw [same_fields_iff hmembers hmembers]
      have hfits : ∀ e ∈ members, (Same (project nearest (inferShape e.2) e.2)
          (memberOf e.1 (.object members)) ↔ Fits (inferShape e.2) e.2) := by
        intro e he
        rw [memberOf_of_mem hmembers he]
        exact ih e he (inferShape_distinct e.2) (hchildren e he)
      constructor
      · rintro ⟨h, -⟩
        exact .openRecord fun e he => (hfits e he).mp (h e he)
      · intro h
        cases h with
        | openRecord h =>
          exact ⟨fun e he => (hfits e he).mpr (h e he), fun e he _ => List.mem_map_of_mem he⟩
  | case6 v hother =>
    rw [project.eq_6 _ _ hother]
    constructor
    · intro h
      cases h with
      | object => exact absurd rfl (hother _)
    · intro h
      cases h with
      | openRecord => exact absurd rfl (hother _)
  | case7 v =>
    rw [project]
    cases hv with
    | object hmembers hchildren =>
      have hkeys : (([] : List (String × Value)).map Prod.fst).Nodup := List.nodup_nil
      rw [show Value.object [] = ofMembers (([] : List (String × Value)).map fun f => (f.1, f.2))
        from rfl, same_fields_iff hkeys hmembers]
      constructor
      · rintro ⟨-, h⟩
        exact .emptyRecord fun e he => by_contra fun hne => (nomatch h e he hne)
      · intro h
        cases h with
        | emptyRecord h => exact ⟨fun f hf => (nomatch hf), fun e he hne => absurd (h e he) hne⟩
    | _ => exact ⟨fun h => (nomatch h), fun h => (nomatch h)⟩
  | case8 v =>
    rw [project]
    constructor
    · intro h
      cases h
      exact .void
    · intro h
      cases h
      exact .null

theorem keepScalar_keepScalar (textOnly : Bool) (v : Value) :
    keepScalar nearest textOnly (keepScalar nearest textOnly v) =
      keepScalar nearest textOnly v := by
  cases v with
  | number n =>
    cases textOnly with
    | true => rfl
    | false =>
      cases n with
      | float text => rfl
      | int n =>
        by_cases hn : -2 ^ 63 ≤ n ∧ n < 2 ^ 63
        · simp only [keepScalar, keepNumber, if_pos hn, Bool.false_eq_true, if_false]
        · simp only [keepScalar, keepNumber, if_neg hn, Bool.false_eq_true, if_false]
  | bool b => cases textOnly <;> rfl
  | _ => rfl

theorem inferShape_project : (v : Value) →
    inferShape (project nearest (inferShape v) v) = inferShape v
  | .array [] => by rw [inferShape, project]; rfl
  | .array (first :: rest) => by
    rw [inferShape, project, List.map_cons, inferShape, inferShape_project first]
  | .object members => by rw [inferShape, project, ofMembers, inferShape]
  | .null => by simp [inferShape, project, keepScalar]
  | .bool _ => by simp [inferShape, project, keepScalar]
  | .string _ => by simp [inferShape, project, keepScalar]
  | .number _ => by simp [inferShape, project, keepScalar]

section Rebuilding

variable {members : List (String × Value)}

theorem sorted_fold {map : List (String × Value)} (h : Entries.Sorted map) :
    Entries.Sorted (members.foldl
      (fun map e => if e.2.isNull then map else Entries.insert e.1 e.2 map) map) := by
  induction members generalizing map with
  | nil => exact h
  | cons e rest ih =>
    rw [List.foldl_cons]
    refine ih ?_
    split
    · exact h
    · exact Entries.sorted_insert e.1 e.2 h

theorem nodup_of_sorted (h : Entries.Sorted members) : (members.map Prod.fst).Nodup :=
  (List.pairwise_map.mpr (h.imp fun hlt => ne_of_lt hlt))

theorem mem_fold {map : List (String × Value)} {e : String × Value}
    (h : e ∈ members.foldl
      (fun map e => if e.2.isNull then map else Entries.insert e.1 e.2 map) map) :
    e ∈ map ∨ e ∈ members ∧ e.2 ≠ .null := by
  induction members generalizing map with
  | nil => exact .inl h
  | cons d rest ih =>
    rw [List.foldl_cons] at h
    rcases ih h with hmap | ⟨hrest, hne⟩
    · split at hmap
      · exact .inl hmap
      · rename_i hnull
        rcases Entries.mem_insert hmap with rfl | hmap
        · exact .inr ⟨List.mem_cons_self, fun heq => hnull (by rw [heq]; rfl)⟩
        · exact .inl hmap
    · exact .inr ⟨List.mem_cons_of_mem _ hrest, hne⟩

theorem lookup_of_memberOf {others : List (String × Value)} {key : String}
    (hmembers : ∀ e ∈ members, e.2 ≠ .null) (hothers : ∀ e ∈ others, e.2 ≠ .null)
    (h : memberOf key (.object members) = memberOf key (.object others)) :
    Entries.lookup key members = Entries.lookup key others := by
  simp only [memberOf, Value.get?] at h
  cases hleft : Entries.lookup key members with
  | none =>
    cases hright : Entries.lookup key others with
    | none => rfl
    | some w =>
      rw [hleft, hright] at h
      exact absurd h.symm (hothers _ (Entries.mem_of_lookup hright))
  | some v =>
    cases hright : Entries.lookup key others with
    | none =>
      rw [hleft, hright] at h
      exact absurd h (hmembers _ (Entries.mem_of_lookup hleft))
    | some w =>
      rw [hleft, hright] at h
      exact congrArg some h

/-- Members in order, none of them `null`, come back as they are. -/
theorem ofMembers_sorted (hsorted : Entries.Sorted members) (hnull : ∀ e ∈ members, e.2 ≠ .null) :
    ofMembers members = .object members := by
  have hmember := fun key => memberOf_ofMembers key (nodup_of_sorted hsorted)
  rw [ofMembers] at hmember ⊢
  congr 1
  refine Entries.sorted_ext (sorted_fold List.Pairwise.nil) hsorted fun key => ?_
  refine lookup_of_memberOf (fun e he => ?_) hnull (hmember key)
  rcases mem_fold he with hnil | ⟨-, hne⟩
  · cases hnil
  · exact hne

theorem exists_ofMembers (members : List (String × Value)) : ∃ kept,
    ofMembers members = .object kept ∧ Entries.Sorted kept ∧
      ∀ e ∈ kept, e ∈ members ∧ e.2 ≠ .null := by
  refine ⟨_, rfl, sorted_fold List.Pairwise.nil, fun e he => ?_⟩
  rcases mem_fold he with hnil | h
  · cases hnil
  · exact h

end Rebuilding

theorem project_project {s : Shape} (hs : s.Distinct) {v : Value} (hv : Distinct v) :
    project nearest s (project nearest s v) = project nearest s v := by
  induction s, v using project.induct with
  | case1 textOnly v =>
    rw [project, project]
    exact keepScalar_keepScalar textOnly v
  | case2 item items ih =>
    cases hs with
    | list hitem =>
      cases hv with
      | array hitems =>
        rw [project, project, List.map_map]
        congr 1
        exact List.map_congr_left fun v hmem => ih v hmem hitem (hitems v hmem)
  | case3 item v hother =>
    rw [project.eq_3 _ _ _ hother, project, List.map_nil]
  | case4 fields v ih =>
    cases hs with
    | record hkeys hfields =>
      have hdistinct : ((fields.map fun f =>
          (f.1, project nearest f.2 (memberOf f.1 v))).map Prod.fst).Nodup := by
        rwa [keys_map (g := fun f => project nearest f.2 (memberOf f.1 v))]
      rw [project, project]
      congr 1
      refine List.map_congr_left fun f hf => Prod.ext rfl ?_
      have hmember : memberOf f.1 (ofMembers (fields.map fun f =>
          (f.1, project nearest f.2 (memberOf f.1 v)))) =
            project nearest f.2 (memberOf f.1 v) :=
        (memberOf_ofMembers _ hdistinct).trans (memberOf_of_mem hdistinct
          (List.mem_map_of_mem (f := fun f => (f.1, project nearest f.2 (memberOf f.1 v))) hf))
      rw [hmember]
      exact ih f hf (hfields f hf) (memberOf_distinct hv)
  | case5 members ih =>
    cases hv with
    | object hmembers hchildren =>
      have hdistinct : ((members.map fun e =>
          (e.1, project nearest (inferShape e.2) e.2)).map Prod.fst).Nodup := by
        rwa [keys_map (g := fun e => project nearest (inferShape e.2) e.2)]
      obtain ⟨kept, hkept, hsorted, hmem⟩ := exists_ofMembers
        (members.map fun e => (e.1, project nearest (inferShape e.2) e.2))
      have hsame : ∀ e ∈ kept, (e.1, project nearest (inferShape e.2) e.2) = e := by
        intro e he
        obtain ⟨d, hd, rfl⟩ := List.mem_map.mp (hmem e he).1
        exact Prod.ext rfl (by
          rw [inferShape_project]
          exact ih d hd (inferShape_distinct d.2) (hchildren d hd))
      rw [project, hkept, project, List.map_congr_left hsame, List.map_id']
      exact ofMembers_sorted hsorted fun e he => (hmem e he).2
  | case6 v hother =>
    rw [project.eq_6 _ _ hother, project]
    rfl
  | case7 v => rw [project, project]
  | case8 v => rw [project, project]

end Projections

end BodyShapes
