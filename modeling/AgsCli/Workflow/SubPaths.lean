import AgsCli.Workflow.NestedMerge
import Mathlib.Data.List.Pairwise

/-! # Writes at sub-paths

A value with another set at a sub-path, when two writes leave each other alone, and what a value
needs to take a write in without losing anything of its own. -/
namespace SubPaths

open OrderedMap Json NestedPath NestedMerge

def isKey : PathSegment → Bool
  | .key _ => true
  | .index _ => false

/-- What a write that leads through a segment finds there. -/
def childAt (body : Value) : PathSegment → Value
  | .key name => (Entries.lookup name (membersOf body)).getD (.object [])
  | .index index => (itemsOf body).getD index .null

def put (body : Value) : PathSegment → Value → Value
  | .key name, v => .object (Entries.insert name v (membersOf body))
  | .index index, v => .array ((padTo index (itemsOf body)).set index v)

def setAt (body : Value) : FieldPath → Value → Value
  | [], v => v
  | s :: rest, v => put body s (setAt (childAt body s) rest v)

abbrev Write := FieldPath × Value

def setAll (writes : List Write) (body : Value) : Value :=
  writes.foldl (fun b write => setAt b write.1 write.2) body

/-- Two writes that both stay: where one path goes on from the other, the shorter one's value has
the longer one's already; where they part, both go on with keys or both with indices. -/
def Compatible : FieldPath → Value → FieldPath → Value → Prop
  | [], v, q, w => setAt v q w = v
  | s :: p, v, [], w => setAt w (s :: p) v = w
  | s :: p, v, t :: q, w => if s = t then Compatible p v q w else isKey s = isKey t

def Agree (a b : Write) : Prop := Compatible a.1 a.2 b.1 b.2

/-- Keys lead into objects of the value and indices into arrays, as far as it reaches. -/
def Takes : Value → FieldPath → Prop
  | _, [] => True
  | .object members, .key name :: rest =>
    ∀ child, Entries.lookup name members = some child → Takes child rest
  | .array items, .index index :: rest => ∀ child, items[index]? = some child → Takes child rest
  | _, _ :: _ => False

def below : FieldPath → FieldPath → Option FieldPath
  | [], q => some q
  | s :: p, t :: q => if s = t then below p q else none
  | _ :: _, [] => none

def deeper (path : FieldPath) (writes : List Write) : List Write :=
  writes.filterMap fun w =>
    match below path w.1 with
    | some (s :: rest) => some (s :: rest, w.2)
    | _ => none

section Segments

variable {body v w : Value} {s t : PathSegment}

theorem getElem?_padTo (index i : Nat) (items : List Value) :
    (padTo index items)[i]? =
      if i < items.length then items[i]? else if i ≤ index then some .null else none := by
  unfold padTo
  split_ifs with hlt hle
  · exact List.getElem?_append_left hlt
  · rw [List.getElem?_append_right (by omega), List.getElem?_replicate, if_pos (by omega)]
  · rw [List.getElem?_append_right (by omega), List.getElem?_replicate, if_neg (by omega)]

theorem getD_padTo (index : Nat) (items : List Value) :
    (padTo index items).getD index .null = items.getD index .null := by
  rw [List.getD_eq_getElem?_getD, List.getD_eq_getElem?_getD, getElem?_padTo]
  split_ifs with hlt hle
  · rfl
  · rw [List.getElem?_eq_none (by omega)]
    rfl
  · omega

theorem length_padTo (index : Nat) (items : List Value) :
    (padTo index items).length = max items.length (index + 1) := by
  simp only [padTo, List.length_append, List.length_replicate]
  omega

/-- The items of an array after a write. -/
theorem getElem?_written (index i : Nat) (items : List Value) :
    ((padTo index items).set index v)[i]? =
      if i = index then some v
      else if i < items.length then items[i]? else if i < index then some .null else none := by
  by_cases hi : i = index
  · subst hi
    rw [if_pos rfl, List.getElem?_set_self (by rw [length_padTo]; omega)]
  · rw [if_neg hi, List.getElem?_set_ne (Ne.symm hi), getElem?_padTo]
    split_ifs <;> first | rfl | omega

theorem length_written (index : Nat) (items : List Value) :
    ((padTo index items).set index v).length = max items.length (index + 1) := by
  rw [List.length_set, length_padTo]

@[simp] theorem childAt_put : childAt (put body s v) s = v := by
  cases s with
  | key name => simp [childAt, put, membersOf]
  | index index =>
    simp only [childAt, put, itemsOf]
    rw [List.getD_eq_getElem?_getD, getElem?_written, if_pos rfl]
    rfl

theorem childAt_put_of_ne (hne : s ≠ t) (hkind : isKey s = isKey t) :
    childAt (put body s v) t = childAt body t := by
  cases s with
  | key name =>
    cases t with
    | index index => cases hkind
    | key name' =>
      simp only [childAt, put, membersOf]
      rw [Entries.lookup_insert_of_ne (fun h => hne (by rw [h]))]
  | index index =>
    cases t with
    | key name => cases hkind
    | index index' =>
      have hindex : index' ≠ index := fun h => hne (by rw [h])
      simp only [childAt, put, itemsOf]
      rw [List.getD_eq_getElem?_getD, List.getD_eq_getElem?_getD, getElem?_written, if_neg hindex]
      split_ifs with hlt hle
      · rfl
      · rw [List.getElem?_eq_none (by omega)]
        rfl
      · rw [List.getElem?_eq_none (by omega)]

theorem put_put : put (put body s v) s w = put body s w := by
  cases s with
  | key name => simp only [put, membersOf, Entries.insert_insert]
  | index index =>
    simp only [put, itemsOf, Value.array.injEq]
    refine List.ext_getElem? fun i => ?_
    rw [getElem?_written, getElem?_written, getElem?_written, length_written]
    split_ifs <;> first | rfl | omega

theorem put_comm (hne : s ≠ t) (hkind : isKey s = isKey t) :
    put (put body s v) t w = put (put body t w) s v := by
  cases s with
  | key name =>
    cases t with
    | index index => cases hkind
    | key name' =>
      simp only [put, membersOf]
      rw [Entries.insert_comm (fun h => hne (by rw [h]))]
  | index index =>
    cases t with
    | key name => cases hkind
    | index index' =>
      have hindex : index ≠ index' := fun h => hne (by rw [h])
      simp only [put, itemsOf, Value.array.injEq]
      refine List.ext_getElem? fun i => ?_
      rw [getElem?_written, getElem?_written, getElem?_written, getElem?_written, length_written,
        length_written]
      split_ifs <;> first | rfl | omega

theorem readAt_put {rest : FieldPath} : readAt (put body s v) (s :: rest) = readAt v rest := by
  cases s with
  | key name => simp [readAt, put, Value.get?]
  | index index =>
    simp only [readAt, put, Value.item?]
    rw [getElem?_written, if_pos rfl]
    rfl

theorem readAt_put_of_ne {rest : FieldPath} (hkind : isKey s ≠ isKey t) :
    readAt (put body s v) (t :: rest) = none := by
  cases s with
  | key name =>
    cases t with
    | key name' => exact absurd rfl hkind
    | index index => rfl
  | index index =>
    cases t with
    | key name => rfl
    | index index' => exact absurd rfl hkind

end Segments

section Writes

variable {body v w : Value} {p q : FieldPath}

theorem mergeNestedBinding_eq (hp : p ≠ []) : mergeNestedBinding body p v = setAt body p v := by
  induction p generalizing body with
  | nil => exact absurd rfl hp
  | cons s rest ih =>
    cases rest with
    | nil => cases s <;> rfl
    | cons t rest =>
      have hrest : ∀ child, mergeNestedBinding child (t :: rest) v = setAt child (t :: rest) v :=
        fun child => ih (List.cons_ne_nil t rest)
      cases s with
      | key name =>
        rw [mergeNestedBinding, hrest]
        · rfl
        · exact List.cons_ne_nil t rest
      | index index =>
        rw [mergeNestedBinding, hrest, getD_padTo]
        · rfl
        · exact List.cons_ne_nil t rest

@[simp] theorem readAt_setAt : readAt (setAt body p v) p = some v := by
  induction p generalizing body with
  | nil => rfl
  | cons s rest ih =>
    rw [setAt, readAt_put]
    exact ih

theorem compatible_symm (h : Compatible p v q w) : Compatible q w p v := by
  induction p generalizing q with
  | nil =>
    cases q with
    | nil => exact h.symm ▸ h.symm
    | cons t q => exact h
  | cons s p ih =>
    cases q with
    | nil => exact h
    | cons t q =>
      unfold Compatible at h ⊢
      by_cases hst : s = t
      · rw [if_pos hst] at h
        rw [if_pos hst.symm]
        exact ih h
      · rw [if_neg hst] at h
        rw [if_neg (Ne.symm hst)]
        exact h.symm

instance : Std.Symm Agree := ⟨fun _ _ => compatible_symm⟩

/-- Compatible writes commute. -/
theorem setAt_comm (h : Compatible p v q w) :
    setAt (setAt body p v) q w = setAt (setAt body q w) p v := by
  induction p generalizing body q with
  | nil => exact h
  | cons s p ih =>
    cases q with
    | nil => exact h.symm
    | cons t q =>
      unfold Compatible at h
      by_cases hst : s = t
      · subst hst
        rw [if_pos rfl] at h
        simp only [setAt, childAt_put, put_put]
        rw [ih h]
      · rw [if_neg hst] at h
        simp only [setAt, childAt_put_of_ne hst h, childAt_put_of_ne (Ne.symm hst) h.symm]
        exact put_comm hst h

/-- Writes that both stay in either order are compatible. -/
theorem compatible_of_readAt (hp : readAt (setAt (setAt body p v) q w) p = some v)
    (hq : readAt (setAt (setAt body q w) p v) q = some w) : Compatible p v q w := by
  induction p generalizing body q with
  | nil => exact Option.some.inj hp
  | cons s p ih =>
    cases q with
    | nil => exact Option.some.inj hq
    | cons t q =>
      unfold Compatible
      by_cases hst : s = t
      · subst hst
        rw [if_pos rfl]
        simp only [setAt, childAt_put, readAt_put] at hp hq
        exact ih hp hq
      · rw [if_neg hst]
        by_contra hkind
        rw [setAt, readAt_put_of_ne (Ne.symm hkind)] at hp
        cases hp

/-- A value that a write leaves as it is takes the write. -/
theorem takes_of_setAt (h : setAt v q w = v) : Takes v q := by
  induction q generalizing v with
  | nil => cases v <;> trivial
  | cons s rest ih =>
    rw [setAt] at h
    cases s with
    | key name =>
      cases v with
      | object members =>
        intro child hchild
        have hsame : childAt (.object members) (.key name) = child := by
          rw [childAt, membersOf, hchild]
          rfl
        refine ih ?_
        rw [hsame] at h
        have hput : childAt (put (.object members) (.key name) (setAt child rest w)) (.key name) =
            child := by
          rw [h]
          exact hsame
        rwa [childAt_put] at hput
      | null | bool | number | string | array => cases h
    | index index =>
      cases v with
      | array items =>
        intro child hchild
        have hsame : childAt (.array items) (.index index) = child := by
          rw [childAt, itemsOf, List.getD_eq_getElem?_getD, hchild]
          rfl
        refine ih ?_
        rw [hsame] at h
        have hput : childAt (put (.array items) (.index index) (setAt child rest w))
            (.index index) = child := by
          rw [h]
          exact hsame
        rwa [childAt_put] at hput
      | null | bool | number | string | object => cases h

/-- Pairwise compatible writes may be made in any order. -/
theorem setAll_perm {writes writes' : List Write} (hperm : writes.Perm writes')
    (h : writes.Pairwise Agree) : setAll writes body = setAll writes' body := by
  refine hperm.foldl_eq' (fun a ha b hb z => ?_) body
  by_cases hab : a = b
  · rw [hab]
  · exact setAt_comm (h.forall ha hb hab)

theorem setAll_append (writes writes' : List Write) :
    setAll (writes ++ writes') body = setAll writes' (setAll writes body) :=
  List.foldl_append

theorem setAt_ne_null (hp : p ≠ []) : setAt body p v ≠ .null := by
  obtain ⟨s, rest, rfl⟩ := List.exists_cons_of_ne_nil hp
  cases s <;> nofun

theorem setAll_ne_null {writes : List Write} (hpaths : ∀ a ∈ writes, a.1 ≠ [])
    (hwrites : writes ≠ []) : setAll writes body ≠ .null := by
  induction writes generalizing body with
  | nil => exact absurd rfl hwrites
  | cons a rest ih =>
    cases rest with
    | nil => exact setAt_ne_null (hpaths a List.mem_cons_self)
    | cons b rest =>
      exact ih (fun c hc => hpaths c (List.mem_cons_of_mem a hc)) (List.cons_ne_nil b rest)

end Writes

section Below

variable {v w : Value} {p q r : FieldPath}

theorem append_of_below (h : below p q = some r) : q = p ++ r := by
  induction p generalizing q with
  | nil => exact (Option.some.inj h)
  | cons s p ih =>
    cases q with
    | nil => cases h
    | cons t q =>
      unfold below at h
      split_ifs at h with hst
      rw [hst, ih h]
      rfl

/-- A value that goes together with a deeper write has it already. -/
theorem setAt_of_compatible (h : Compatible p v (p ++ r) w) : setAt v r w = v := by
  induction p with
  | nil => exact h
  | cons s p ih =>
    rw [List.cons_append] at h
    unfold Compatible at h
    rw [if_pos rfl] at h
    exact ih h

theorem of_mem_deeper {writes : List Write} (h : (r, w) ∈ deeper p writes) :
    r ≠ [] ∧ (p ++ r, w) ∈ writes := by
  obtain ⟨⟨q, w'⟩, hmem, hw⟩ := List.mem_filterMap.mp h
  simp only at hw
  split at hw
  · next s rest hbelow =>
    obtain ⟨rfl, rfl⟩ := Prod.mk.inj (Option.some.inj hw)
    rw [append_of_below hbelow] at hmem
    exact ⟨List.cons_ne_nil s rest, hmem⟩
  · cases hw

theorem setAll_of_all {writes : List Write} (h : ∀ a ∈ writes, setAt v a.1 a.2 = v) :
    setAll writes v = v := by
  induction writes with
  | nil => rfl
  | cons a rest ih =>
    have hrest := ih fun b hb => h b (List.mem_cons_of_mem a hb)
    rw [setAll, List.foldl_cons, h a List.mem_cons_self]
    exact hrest

end Below

section Members

variable {writes : List Write}

/-- Writes that lead on from a key leave an object an object, each member with the writes below
it. -/
theorem setAll_members (members : List (String × Value))
    (h : ∀ a ∈ writes, ∃ name s rest, a.1 = PathSegment.key name :: s :: rest) :
    ∃ out, setAll writes (.object members) = .object out ∧
      (writes ≠ [] ∨ members ≠ [] → out ≠ []) ∧
      ∀ name v, Entries.lookup name members = some v →
        Entries.lookup name out = some (setAll (deeper [.key name] writes) v) := by
  induction writes generalizing members with
  | nil => exact ⟨members, rfl, fun hne => hne.resolve_left fun h => h rfl, fun _ _ h => h⟩
  | cons a rest ih =>
    obtain ⟨path, w⟩ := a
    obtain ⟨name, s, more, rfl⟩ := h (path, w) List.mem_cons_self
    let child := (Entries.lookup name members).getD (.object [])
    obtain ⟨out, hout, hne, hmembers⟩ :=
      ih (Entries.insert name (setAt child (s :: more) w) members)
        fun b hb => h b (List.mem_cons_of_mem _ hb)
    refine ⟨out, hout, fun _ => hne (Or.inr ?_), fun field v hv => ?_⟩
    · intro hnil
      have hself := Entries.lookup_insert_self name (setAt child (s :: more) w) members
      rw [hnil] at hself
      cases hself
    · by_cases hname : field = name
      · subst hname
        have hchild : child = v := by
          simp only [child, hv, Option.getD_some]
        have hread := hmembers field _ (Entries.lookup_insert_self field _ members)
        rw [hread, hchild]
        have hdeeper : deeper [.key field] ((.key field :: s :: more, w) :: rest) =
            (s :: more, w) :: deeper [.key field] rest := by
          simp [deeper, below]
        rw [hdeeper]
        rfl
      · have hdeeper : deeper [.key field] ((.key name :: s :: more, w) :: rest) =
            deeper [.key field] rest := by
          simp [deeper, below, hname]
        rw [hdeeper]
        refine hmembers field v ?_
        rw [Entries.lookup_insert_of_ne hname]
        exact hv

end Members

end SubPaths
