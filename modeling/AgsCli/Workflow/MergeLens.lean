import AgsCli.Workflow.SubPaths

/-! # Nested merge as a lens

What is read back at the merged path, after a second merge, and at a path that parts from it. -/
namespace MergeLens

open OrderedMap Json NestedPath NestedMerge SubPaths

def Holds : Value → PathSegment → Prop
  | .object _, .key _ => True
  | .array _, .index _ => True
  | _, _ => False

/-- An index between the items of an array and the written one is filled in with `null`. -/
def Padded : Value → PathSegment → PathSegment → Prop
  | .array items, .index i, .index j => items.length ≤ j ∧ j < i
  | _, _, _ => False

section Parting

variable {body container v : Value} {s t : PathSegment} {pre rest rest' : FieldPath}

theorem readAt_append (p q : FieldPath) : readAt body (p ++ q) =
    (readAt body p).bind fun inner => readAt inner q := by
  induction p generalizing body with
  | nil => rfl
  | cons s p ih =>
    cases s with
    | key name =>
      simp only [List.cons_append, readAt, Option.bind_assoc]
      exact Option.bind_congr fun child _ => ih
    | index index =>
      simp only [List.cons_append, readAt, Option.bind_assoc]
      exact Option.bind_congr fun child _ => ih

theorem childAt_of_readAt (h : readAt body (s :: pre) = some container) :
    readAt (childAt body s) pre = some container := by
  cases s with
  | key name =>
    obtain ⟨child, hchild, hread⟩ := Option.bind_eq_some_iff.mp h
    cases body with
    | object members =>
      have hlookup : Entries.lookup name members = some child := hchild
      simpa only [childAt, membersOf, hlookup, Option.getD_some] using hread
    | _ => cases hchild
  | index index =>
    obtain ⟨child, hchild, hread⟩ := Option.bind_eq_some_iff.mp h
    cases body with
    | array items =>
      have hitem : items[index]? = some child := hchild
      simpa only [childAt, itemsOf, List.getD_eq_getElem?_getD, hitem, Option.getD_some]
        using hread
    | _ => cases hchild

/-- A write below a container that is there leaves the way to it, and writes inside of it. -/
theorem readAt_setAt_append (h : readAt body pre = some container) :
    readAt (setAt body (pre ++ rest) v) (pre ++ rest') =
      readAt (setAt container rest v) rest' := by
  induction pre generalizing body with
  | nil =>
    cases h
    rfl
  | cons s pre ih =>
    rw [List.cons_append, List.cons_append, setAt, readAt_put]
    exact ih (childAt_of_readAt h)

/-- One container: the other places are as before, but for the padding. -/
theorem readAt_put_apart (v : Value) (rest' : FieldPath) (hholds : Holds container s) (hne : s ≠ t)
    (hkind : isKey s = isKey t) :
    (Padded container s t ∧ readAt container (t :: rest') = none ∧
      readAt (put container s v) (t :: rest') = readAt .null rest') ∨
    (¬ Padded container s t ∧
      readAt (put container s v) (t :: rest') = readAt container (t :: rest')) := by
  cases s with
  | key name =>
    cases t with
    | index index => cases hkind
    | key name' =>
      cases container with
      | object members =>
        have hname : name' ≠ name := fun heq => hne (by rw [heq])
        refine .inr ⟨fun hpadded => hpadded, ?_⟩
        simp only [readAt, put, Value.get?, membersOf, Entries.lookup_insert_of_ne hname]
      | _ => cases hholds
  | index index =>
    cases t with
    | key name => cases hkind
    | index index' =>
      cases container with
      | array items =>
        have hindex : index' ≠ index := fun heq => hne (by rw [heq])
        have hwritten := getElem?_written (v := v) index index' items
        rw [if_neg hindex] at hwritten
        by_cases hpadded : items.length ≤ index' ∧ index' < index
        · refine .inl ⟨hpadded, ?_, ?_⟩
          · simp only [readAt, Value.item?, List.getElem?_eq_none hpadded.1]
            rfl
          · rw [if_neg (by omega), if_pos hpadded.2] at hwritten
            simp only [readAt, put, Value.item?, itemsOf, hwritten]
            rfl
        · refine .inr ⟨hpadded, ?_⟩
          have hsame : ((padTo index items).set index v)[index']? = items[index']? := by
            rw [hwritten]
            split_ifs with hlt hle
            · rfl
            · exact absurd ⟨by omega, hle⟩ hpadded
            · exact (List.getElem?_eq_none (by omega)).symm
          simp only [readAt, put, Value.item?, itemsOf, hsame]
      | _ => cases hholds

theorem readAt_null (hrest : rest ≠ []) : readAt .null rest = none := by
  cases rest with
  | nil => exact absurd rfl hrest
  | cons s rest => cases s <;> rfl

/-- Two paths that part in a container of the right kind. -/
theorem readAt_setAt_apart (h : readAt body pre = some container) (hholds : Holds container s)
    (hne : s ≠ t) (hkind : isKey s = isKey t) :
    readAt (setAt body (pre ++ s :: rest) v) (pre ++ t :: rest') =
        readAt body (pre ++ t :: rest') ∨
      (Padded container s t ∧ rest' = [] ∧ readAt body (pre ++ t :: rest') = none ∧
        readAt (setAt body (pre ++ s :: rest) v) (pre ++ t :: rest') = some .null) := by
  have hbefore : readAt body (pre ++ t :: rest') = readAt container (t :: rest') := by
    rw [readAt_append, h]
    rfl
  rw [readAt_setAt_append h, hbefore, setAt]
  rcases readAt_put_apart (setAt (childAt container s) rest v) rest' hholds hne hkind with
    ⟨hpadded, hnone, hnull⟩ | ⟨-, hsame⟩
  · by_cases hrest : rest' = []
    · subst hrest
      exact .inr ⟨hpadded, rfl, hnone, hnull⟩
    · exact .inl (hnull.trans ((readAt_null hrest).trans hnone.symm))
  · exact .inl hsame

end Parting

theorem setAt_setAt {body v w : Value} {p : FieldPath} :
    setAt (setAt body p v) p w = setAt body p w := by
  induction p generalizing body with
  | nil => rfl
  | cons s rest ih => simp only [setAt, childAt_put, put_put, ih]

/-- Reading back what was merged, merging again, and reading elsewhere. -/
theorem mergeNestedBinding_lens :
    (∀ (body v : Value) (path : FieldPath), path ≠ [] →
      readAt (mergeNestedBinding body path v) path = some v) ∧
    (∀ (body v w : Value) (path : FieldPath), path ≠ [] →
      mergeNestedBinding (mergeNestedBinding body path v) path w =
        mergeNestedBinding body path w) ∧
    ∀ (body container v : Value) (pre rest rest' : FieldPath) (s t : PathSegment),
      readAt body pre = some container → Holds container s → s ≠ t → isKey s = isKey t →
      readAt (mergeNestedBinding body (pre ++ s :: rest) v) (pre ++ t :: rest') =
          readAt body (pre ++ t :: rest') ∨
        (Padded container s t ∧ rest' = [] ∧ readAt body (pre ++ t :: rest') = none ∧
          readAt (mergeNestedBinding body (pre ++ s :: rest) v) (pre ++ t :: rest') =
            some .null) := by
  refine ⟨fun body v path hpath => ?_, fun body v w path hpath => ?_,
    fun body container v pre rest rest' s t h hholds hne hkind => ?_⟩
  · rw [mergeNestedBinding_eq hpath]
    exact readAt_setAt
  · rw [mergeNestedBinding_eq hpath, mergeNestedBinding_eq hpath, mergeNestedBinding_eq hpath]
    exact setAt_setAt
  · rw [mergeNestedBinding_eq (by simp)]
    exact readAt_setAt_apart h hholds hne hkind

/-- `list[3]` of a list of one item: `list[0]` stays. -/
theorem mergeNestedBinding_lens_list :
    readAt (mergeNestedBinding (.object [("list", .array [.bool true])])
      [.key "list", .index 3] (.string "x")) [.key "list", .index 3] = some (.string "x") ∧
    mergeNestedBinding (mergeNestedBinding (.object [("list", .array [.bool true])])
        [.key "list", .index 3] .null) [.key "list", .index 3] (.string "x") =
      mergeNestedBinding (.object [("list", .array [.bool true])])
        [.key "list", .index 3] (.string "x") ∧
    (readAt (mergeNestedBinding (.object [("list", .array [.bool true])])
          ([.key "list"] ++ .index 3 :: []) (.string "x")) ([.key "list"] ++ .index 0 :: []) =
        readAt (.object [("list", .array [.bool true])]) ([.key "list"] ++ .index 0 :: []) ∨
      (Padded (.array [.bool true]) (.index 3) (.index 0) ∧ ([] : FieldPath) = [] ∧
        readAt (.object [("list", .array [.bool true])]) ([.key "list"] ++ .index 0 :: []) = none ∧
        readAt (mergeNestedBinding (.object [("list", .array [.bool true])])
          ([.key "list"] ++ .index 3 :: []) (.string "x")) ([.key "list"] ++ .index 0 :: []) =
            some .null)) :=
  ⟨mergeNestedBinding_lens.1 _ _ _ (by decide), mergeNestedBinding_lens.2.1 _ _ _ _ (by decide),
    mergeNestedBinding_lens.2.2 _ _ _ _ _ _ _ _ rfl trivial (by decide) rfl⟩

/-- A position in between had no value and has `null`. -/
theorem padded_index_changes : ¬ ∀ (body container v : Value) (pre rest rest' : FieldPath)
    (s t : PathSegment), readAt body pre = some container → Holds container s → s ≠ t →
      isKey s = isKey t →
      readAt (mergeNestedBinding body (pre ++ s :: rest) v) (pre ++ t :: rest') =
        readAt body (pre ++ t :: rest') := by
  intro h
  have hsame := h (.array []) (.array []) (.string "x") [] [] [] (.index 2) (.index 1) rfl trivial
    (by decide) rfl
  exact absurd hsame (by decide)

end MergeLens
