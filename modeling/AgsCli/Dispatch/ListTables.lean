import AgsCli.Dispatch.Shape

/-! # List tables

The headers of a table come from one item and the rows from each item's own fields, both within a
limit. A row has its item's values under the headers where no scalar item breaks the columns, no
other field within the limit takes the label of a header, and no header's field is beyond it. -/
namespace ListTables

open Casing HashMaps Json Shape

variable (table : CaseTable)

abbrev Member := String × Value

def displays (e : Member) : Bool := !shouldSuppressField e.1 e.2 && (normalizeValue e.2).isSome

def field (e : Member) : FieldEntry :=
  ⟨normalizeLabel table e.1, (normalizeValue e.2).getD ""⟩

section Fields

theorem scalarEntry_eq (e : Member) : scalarEntry table e =
    if displays e then some (fieldPriority e.1, field table e) else none := by
  unfold scalarEntry displays fieldEntry field
  cases hsuppress : shouldSuppressField e.1 e.2 with
  | true => rfl
  | false =>
    obtain ⟨key, value⟩ := e
    cases hvalue : normalizeValue value with
    | none => cases value <;> simp
    | some text =>
      cases value with
      | object members => cases hvalue
      | _ => simp

theorem filterMap_scalarEntry (data : List Member) : data.filterMap (scalarEntry table) =
    (data.filter displays).map fun e => (fieldPriority e.1, field table e) := by
  induction data with
  | nil => rfl
  | cons e rest ih =>
    rw [List.filterMap_cons, scalarEntry_eq, List.filter_cons, ih]
    split_ifs <;> rfl

variable (intent : CommandIntent) (isVerbose : Bool)

/-- The members shown as fields, best ranked first, within the limit. -/
def shown (data : List Member) : List Member :=
  (PullUp.sortByKey (fun e => fieldPriority e.1) (data.filter displays)).take
    (fieldLimit intent isVerbose)

theorem prioritizeFields_eq (data : List Member) :
    (prioritizeFields table data intent isVerbose).1 =
      (shown intent isVerbose data).map (field table) := by
  have hsort : PullUp.sortByKey Prod.fst
      ((data.filter displays).map fun e => (fieldPriority e.1, field table e)) =
      (PullUp.sortByKey (fun e => fieldPriority e.1) (data.filter displays)).map
        fun e => (fieldPriority e.1, field table e) :=
    (List.map_insertionSort (fun a b : Member => fieldPriority a.1 ≤ fieldPriority b.1)
      (fun a b : Nat × FieldEntry => a.1 ≤ b.1) (fun e => (fieldPriority e.1, field table e)) _
      fun _ _ _ _ => Iff.rfl).symm
  rw [prioritizeFields, filterMap_scalarEntry, hsort, shown, List.map_take, List.map_take,
    List.map_map]
  rfl

def shownKeys : Value → Option (List String)
  | .object object =>
    let keys := (shown intent isVerbose object).map Prod.fst
    if keys.isEmpty then none else some keys
  | _ => none

/-- The keys of the first item that shows a field. -/
def headerKeys (items : List Value) : List String :=
  (items.findSome? (shownKeys intent isVerbose)).getD []

theorem tableHeaders_eq (items : List Value) : tableHeaders table intent isVerbose items =
    (headerKeys intent isVerbose items).map (normalizeLabel table) := by
  unfold tableHeaders headerKeys
  extract_lets labels
  have hlabels : labels =
      fun item => (shownKeys intent isVerbose item).map (List.map (normalizeLabel table)) := by
    funext item
    cases item with
    | object object =>
      simp only [labels, shownKeys, prioritizeFields_eq, List.isEmpty_map, List.map_map]
      split_ifs
      · rfl
      · rw [Option.map_some, List.map_map]
        rfl
    | _ => rfl
  have hfind : items.findSome? labels =
      (items.findSome? (shownKeys intent isVerbose)).map (List.map (normalizeLabel table)) := by
    rw [hlabels, List.map_findSome?]
    rfl
  rw [hfind]
  cases items.findSome? (shownKeys intent isVerbose) <;> rfl

end Fields

section Cells

/-- What a table owes an item under a key. -/
def ownCell (data : List Member) (key : String) : String :=
  ((OrderedMap.Entries.lookup key data).bind fun value =>
    if shouldSuppressField key value then none else normalizeValue value).getD dash

variable (intent : CommandIntent) (isVerbose : Bool)

/-- The last in rank of the members shown under a label. -/
def LastLabelled (data : List Member) (label : String) (e : Member) : Prop :=
  ∃ better worse, shown intent isVerbose data = better ++ e :: worse ∧
    normalizeLabel table e.1 = label ∧ ∀ other ∈ worse, normalizeLabel table other.1 ≠ label

structure ReadsOwn (data : List Member) (key : String) (e : Member) : Prop where
  label : normalizeLabel table e.1 = normalizeLabel table key
  text : (normalizeValue e.2).getD "" = ownCell data key

/-- The key's own text is within the limit and no later field of its label has another; or the key
has nothing to show, and its label is on no field shown. -/
inductive Undisturbed (data : List Member) (key : String) : Prop
  | ranked (better : List Member) (e : Member) (worse : List Member)
      (split : shown intent isVerbose data = better ++ e :: worse)
      (own : ReadsOwn table data key e)
      (later : ∀ other ∈ worse, normalizeLabel table other.1 = normalizeLabel table key →
        (normalizeValue other.2).getD "" = ownCell data key)
  | absent (nothing : ownCell data key = dash)
      (unlabelled : ∀ e ∈ shown intent isVerbose data,
        normalizeLabel table e.1 ≠ normalizeLabel table key)

theorem lastLabelled_iff {data : List Member} {label : String} {e : Member} :
    LastLabelled table intent isVerbose data label e ↔
      ((shown intent isVerbose data).filter fun e => normalizeLabel table e.1 = label).getLast? =
        some e := by
  rw [List.getLast?_eq_some_iff]
  constructor
  · rintro ⟨better, worse, heq, hlabel, hworse⟩
    have hnone : (worse.filter fun e => normalizeLabel table e.1 = label) = [] :=
      List.filter_eq_nil_iff.mpr fun other hmem => by simpa using hworse other hmem
    refine ⟨better.filter fun e => normalizeLabel table e.1 = label, ?_⟩
    rw [heq, List.filter_append, List.filter_cons, if_pos (decide_eq_true hlabel), hnone]
  · rintro ⟨front, hfilter⟩
    obtain ⟨better, rest, heq, -, hrest⟩ := List.filter_eq_append_iff.mp hfilter
    obtain ⟨skipped, worse, rfl, -, hlabel, hworse⟩ := List.filter_eq_cons_iff.mp hrest
    refine ⟨better ++ skipped, worse, ?_, by simpa using hlabel, fun other hmem => ?_⟩
    · rw [heq, List.append_assoc]
    · simpa using List.filter_eq_nil_iff.mp hworse other hmem

def cell (data : List Member) (label : String) : String :=
  ((HashMap.collect (·.label) (fun f _ => f.value)
    (prioritizeFields table data intent isVerbose).1).get? label).getD dash

theorem foldl_last {α β : Type*} (f : α → β) (l : List α) :
    l.foldl (fun _ a => some (f a)) none = l.getLast?.map f := by
  induction l using List.reverseRecOn with
  | nil => rfl
  | append_singleton l a _ => simp

theorem cell_eq (data : List Member) (label : String) : cell table intent isVerbose data label =
    ((((shown intent isVerbose data).filter fun e =>
      normalizeLabel table e.1 = label).getLast?.map
        fun e => (normalizeValue e.2).getD "").getD dash) := by
  rw [cell, HashMap.get?_collect, foldl_last, prioritizeFields_eq, List.filter_map,
    List.getLast?_map, Option.map_map]
  rfl

/-- The cell under a key's label is the key's own exactly where nothing disturbs it. -/
theorem cell_eq_ownCell_iff (data : List Member) (key : String) :
    cell table intent isVerbose data (normalizeLabel table key) = ownCell data key ↔
      Undisturbed table intent isVerbose data key := by
  rw [cell_eq]
  cases hlast : ((shown intent isVerbose data).filter fun e =>
      normalizeLabel table e.1 = normalizeLabel table key).getLast? with
  | none =>
    have hnone := List.filter_eq_nil_iff.mp (List.getLast?_eq_none_iff.mp hlast)
    have hlabels : ∀ e ∈ shown intent isVerbose data,
        normalizeLabel table e.1 ≠ normalizeLabel table key := fun e he => by
      simpa using hnone e he
    constructor
    · intro h
      exact .absent h.symm hlabels
    · rintro (⟨better, e, worse, hsplit, hown, -⟩ | ⟨hnothing, -⟩)
      · have hmem : e ∈ shown intent isVerbose data := by
          rw [hsplit]
          exact List.mem_append_right _ List.mem_cons_self
        exact absurd hown.label (hlabels e hmem)
      · exact hnothing.symm
  | some e =>
    obtain ⟨better, worse, hsplit, hlabel, hworse⟩ :=
      (lastLabelled_iff table intent isVerbose).mpr hlast
    constructor
    · intro h
      exact .ranked better e worse hsplit ⟨hlabel, h⟩ fun other hother hsame =>
        absurd hsame (hworse other hother)
    · rintro (⟨better', e', worse', hsplit', hown, hlater⟩ | ⟨-, hunlabelled⟩)
      · rw [hsplit] at hsplit'
        rcases List.append_eq_append_iff.mp hsplit' with ⟨between, -, hrest⟩ | ⟨between, -, hrest⟩
        · cases between with
          | nil =>
            obtain ⟨rfl, -⟩ := List.cons.inj hrest
            exact hown.text
          | cons first between =>
            obtain ⟨-, rfl⟩ := List.cons.inj hrest
            exact absurd hown.label
              (hworse e' (List.mem_append_right _ List.mem_cons_self))
        · cases between with
          | nil =>
            obtain ⟨rfl, -⟩ := List.cons.inj hrest
            exact hown.text
          | cons first between =>
            obtain ⟨-, rfl⟩ := List.cons.inj hrest
            exact hlater e (List.mem_append_right _ List.mem_cons_self) hlabel
      · refine absurd hlabel (hunlabelled e ?_)
        rw [hsplit]
        exact List.mem_append_right _ List.mem_cons_self

theorem ownCell_of_mem {data : List Member} (hsorted : OrderedMap.Entries.Sorted data) {e : Member}
    (he : e ∈ data) (hdisplays : displays e = true) :
    ownCell data e.1 = (normalizeValue e.2).getD "" := by
  obtain ⟨hshow, hvalue⟩ := Bool.and_eq_true_iff.mp hdisplays
  obtain ⟨value, hvalue⟩ := Option.isSome_iff_exists.mp hvalue
  rw [Bool.not_eq_true'] at hshow
  rw [ownCell, OrderedMap.Entries.lookup_of_mem hsorted he, Option.bind_some, hshow,
    if_neg Bool.false_ne_true, hvalue]
  rfl

theorem ownCell_of_hidden {data : List Member} {key : String}
    (h : ∀ e ∈ data, displays e = true → e.1 ≠ key) : ownCell data key = dash := by
  unfold ownCell
  cases hlookup : OrderedMap.Entries.lookup key data with
  | none => rfl
  | some value =>
    have hmem := OrderedMap.Entries.mem_of_lookup hlookup
    rw [Option.bind_some]
    split_ifs with hsuppress
    · rfl
    · have hnone : normalizeValue value = none := by
        by_contra hvalue
        refine h _ hmem ?_ rfl
        simp [displays, hsuppress, Option.isSome_iff_ne_none.mpr hvalue]
      rw [hnone]
      rfl

/-- A key is undisturbed where its object fits the limit and no other field takes its label. -/
theorem undisturbed_of_distinct {data : List Member} {key : String}
    (hsorted : OrderedMap.Entries.Sorted data)
    (hlimit : (data.filter displays).length ≤ fieldLimit intent isVerbose)
    (hlabels : ∀ e ∈ data, displays e = true →
      normalizeLabel table e.1 = normalizeLabel table key → e.1 = key) :
    Undisturbed table intent isVerbose data key := by
  have hshown : ∀ e, e ∈ shown intent isVerbose data ↔ e ∈ data ∧ displays e = true := by
    intro e
    have hperm : (PullUp.sortByKey (fun e : Member => fieldPriority e.1)
        (data.filter displays)).Perm (data.filter displays) := PullUp.sortByKey_perm
    rw [shown, List.take_of_length_le (hperm.length_eq ▸ hlimit), hperm.mem_iff, List.mem_filter]
  by_cases hown : ∃ e ∈ data, displays e = true ∧ e.1 = key
  · obtain ⟨e, he, hdisplays, rfl⟩ := hown
    obtain ⟨better, worse, hsplit⟩ := List.append_of_mem ((hshown e).mpr ⟨he, hdisplays⟩)
    refine .ranked better e worse hsplit ⟨rfl, (ownCell_of_mem hsorted he hdisplays).symm⟩ ?_
    intro other hother hlabel
    have hmem : other ∈ shown intent isVerbose data := by
      rw [hsplit]
      exact List.mem_append_right _ (List.mem_cons_of_mem e hother)
    obtain ⟨hdata, hdisplays'⟩ := (hshown other).mp hmem
    rw [← hlabels other hdata hdisplays' hlabel, ownCell_of_mem hsorted hdata hdisplays']
  · refine .absent (ownCell_of_hidden fun e he hdisplays hkey => hown ⟨e, he, hdisplays, hkey⟩) ?_
    intro e he hlabel
    obtain ⟨hdata, hdisplays⟩ := (hshown e).mp he
    exact hown ⟨e, hdata, hdisplays, hlabels e hdata hdisplays hlabel⟩

end Cells

section Rows

variable (intent : CommandIntent) (isVerbose : Bool)

theorem itemRow_object (headers : List String) (data : List Member) :
    itemRow table intent isVerbose headers (.object data) =
      if shown intent isVerbose data = [] then none
      else some (headers.map (cell table intent isVerbose data)) := by
  have hempty : (prioritizeFields table data intent isVerbose).1.isEmpty = true ↔
      shown intent isVerbose data = [] := by
    rw [prioritizeFields_eq, List.isEmpty_map, List.isEmpty_iff]
  change (if (prioritizeFields table data intent isVerbose).1.isEmpty = true then none
    else some (headers.map (cell table intent isVerbose data))) = _
  by_cases hnone : shown intent isVerbose data = []
  · rw [if_pos (hempty.mpr hnone), if_pos hnone]
  · rw [if_neg (mt hempty.mp hnone), if_neg hnone]

theorem itemRow_scalar (headers : List String) {item : Value}
    (h : (normalizeValue item).isSome = true) :
    itemRow table intent isVerbose headers item = scalarRow item := by
  cases item with
  | object members => cases h
  | _ => rfl

/-- Without headers no object shows a field. -/
theorem itemRow_of_no_headers {items : List Value} (h : headerKeys intent isVerbose items = [])
    {item : Value} (hitem : item ∈ items) (headers : List String) :
    itemRow table intent isVerbose headers item = scalarRow item := by
  cases item with
  | object data =>
    rw [itemRow_object]
    have hnone : shown intent isVerbose data = [] := by
      by_contra hshown
      have hkeys : shownKeys intent isVerbose (.object data) =
          some ((shown intent isVerbose data).map Prod.fst) := by
        simp [shownKeys, hshown]
      unfold headerKeys at h
      cases hfind : items.findSome? (shownKeys intent isVerbose) with
      | none =>
        rw [List.findSome?_eq_none_iff.mp hfind _ hitem] at hkeys
        cases hkeys
      | some keys =>
        rw [hfind, Option.getD_some] at h
        subst h
        obtain ⟨other, -, hother⟩ := List.exists_of_findSome?_eq_some hfind
        cases other with
        | object members =>
          rw [shownKeys] at hother
          split_ifs at hother with hempty
          exact hempty (List.isEmpty_iff.mpr (Option.some.inj hother))
        | _ => cases hother
    rw [if_pos hnone]
    rfl
  | _ => rfl

theorem isEmpty_tableHeaders (items : List Value) :
    (tableHeaders table intent isVerbose items).isEmpty = true ↔
      headerKeys intent isVerbose items = [] := by
  rw [tableHeaders_eq, List.isEmpty_map, List.isEmpty_iff]

theorem rows_eq (items : List Value) (scalarHeader : String) :
    (buildListTable table intent isVerbose items scalarHeader).rows =
      items.filterMap (itemRow table intent isVerbose (tableHeaders table intent isVerbose items)) := by
  have hrows : (tableHeaders table intent isVerbose items).isEmpty = true →
      items.filterMap (itemRow table intent isVerbose (tableHeaders table intent isVerbose items)) =
        items.filterMap scalarRow := fun hheaders => List.filterMap_congr fun item hitem =>
    itemRow_of_no_headers table intent isVerbose
      ((isEmpty_tableHeaders table intent isVerbose items).mp hheaders) hitem _
  unfold buildListTable
  extract_lets headers
  split_ifs with hheaders hempty
  · exact ((hrows hheaders).trans (List.isEmpty_iff.mp hempty)).symm
  · exact (hrows hheaders).symm
  · rfl

def RowsAligned (t : ListTable) : Prop := ∀ row ∈ t.rows, row.length = t.headers.length

theorem length_scalarRow {item : Value} {row : List String} (h : scalarRow item = some row) :
    (normalizeValue item).isSome = true ∧ row.length = 1 := by
  obtain ⟨value, hvalue, rfl⟩ := Option.map_eq_some_iff.mp h
  exact ⟨by rw [hvalue]; rfl, rfl⟩

theorem length_itemRow {headers row : List String} {item : Value}
    (h : itemRow table intent isVerbose headers item = some row) :
    row.length = headers.length ∨ (normalizeValue item).isSome = true ∧ row.length = 1 := by
  cases item with
  | object data =>
    rw [itemRow_object] at h
    split_ifs at h
    cases h
    exact Or.inl (List.length_map _)
  | _ => exact Or.inr (length_scalarRow h)

/-- A displayable scalar needs a table of one column. -/
theorem rowsAligned_iff (items : List Value) (scalarHeader : String) :
    RowsAligned (buildListTable table intent isVerbose items scalarHeader) ↔
      ∀ item ∈ items, (normalizeValue item).isSome = true →
        (headerKeys intent isVerbose items).length ≤ 1 := by
  unfold RowsAligned
  rw [rows_eq]
  by_cases hkeys : headerKeys intent isVerbose items = []
  · refine iff_of_true ?_ fun item _ _ => by rw [hkeys]; exact Nat.zero_le 1
    intro row hrow
    obtain ⟨item, hitem, hrow⟩ := List.mem_filterMap.mp hrow
    rw [itemRow_of_no_headers table intent isVerbose hkeys hitem] at hrow
    have hrows : (items.filterMap scalarRow).isEmpty = false := by
      rw [List.isEmpty_eq_false_iff]
      exact List.ne_nil_of_mem (List.mem_filterMap.mpr ⟨item, hitem, hrow⟩)
    simp only [buildListTable, (isEmpty_tableHeaders table intent isVerbose items).mpr hkeys, hrows,
      if_true, Bool.false_eq_true, if_false]
    exact (length_scalarRow hrow).2
  · have hheaders : (buildListTable table intent isVerbose items scalarHeader).headers =
        tableHeaders table intent isVerbose items := by
      unfold buildListTable
      extract_lets headers
      rw [if_neg fun h => hkeys ((isEmpty_tableHeaders table intent isVerbose items).mp h)]
    have hlength : (tableHeaders table intent isVerbose items).length =
        (headerKeys intent isVerbose items).length := by
      rw [tableHeaders_eq, List.length_map]
    have hpos := List.length_pos_iff.mpr hkeys
    rw [hheaders, hlength]
    constructor
    · intro h item hitem hvalue
      obtain ⟨value, hvalue'⟩ := Option.isSome_iff_exists.mp hvalue
      have hrow : scalarRow item = some [value] := by rw [scalarRow, hvalue']; rfl
      have hone := h [value] (List.mem_filterMap.mpr
        ⟨item, hitem, by rw [itemRow_scalar table intent isVerbose _ hvalue, hrow]⟩)
      exact le_of_eq hone.symm
    · intro h row hrow
      obtain ⟨item, hitem, hrow⟩ := List.mem_filterMap.mp hrow
      rcases length_itemRow table intent isVerbose hrow with hlong | ⟨hvalue, hone⟩
      · rw [hlong, hlength]
      · have hle := h item hitem hvalue
        omega

/-- In the row of each object the cells under the headers are its own. -/
def OwnCells (items : List Value) : Prop :=
  ∀ data row, .object data ∈ items →
    itemRow table intent isVerbose (tableHeaders table intent isVerbose items) (.object data) =
      some row →
    row = (headerKeys intent isVerbose items).map (ownCell data)

theorem ownCells_iff (items : List Value) : OwnCells table intent isVerbose items ↔
    ∀ data, .object data ∈ items → shown intent isVerbose data ≠ [] →
      ∀ key ∈ headerKeys intent isVerbose items, Undisturbed table intent isVerbose data key := by
  have hrow : ∀ data, (tableHeaders table intent isVerbose items).map
        (cell table intent isVerbose data) = (headerKeys intent isVerbose items).map (ownCell data) ↔
      ∀ key ∈ headerKeys intent isVerbose items, Undisturbed table intent isVerbose data key := by
    intro data
    rw [tableHeaders_eq, List.map_map, List.map_inj_left]
    exact forall₂_congr fun key _ => cell_eq_ownCell_iff table intent isVerbose data key
  constructor
  · intro h data hdata hshown
    refine (hrow data).mp (h data _ hdata ?_)
    rw [itemRow_object, if_neg hshown]
  · intro h data row hdata hitem
    rw [itemRow_object] at hitem
    split_ifs at hitem with hshown
    cases hitem
    exact (hrow data).mpr (h data hdata hshown)

end Rows

/-- A list table is aligned and shows each object's own values exactly where a displayable scalar
finds one column at most and nothing disturbs the header keys of an object that shows a field. -/
theorem list_table_faithful_iff (intent : CommandIntent) (isVerbose : Bool) (items : List Value)
    (scalarHeader : String) :
    (buildListTable table intent isVerbose items scalarHeader).rows = items.filterMap
        (itemRow table intent isVerbose (tableHeaders table intent isVerbose items)) ∧
      (RowsAligned (buildListTable table intent isVerbose items scalarHeader) ∧
          OwnCells table intent isVerbose items ↔
        (∀ item ∈ items, (normalizeValue item).isSome = true →
          (headerKeys intent isVerbose items).length ≤ 1) ∧
        ∀ data, .object data ∈ items → shown intent isVerbose data ≠ [] →
          ∀ key ∈ headerKeys intent isVerbose items,
            Undisturbed table intent isVerbose data key) :=
  ⟨rows_eq table intent isVerbose items scalarHeader,
    and_congr (rowsAligned_iff table intent isVerbose items scalarHeader)
      (ownCells_iff table intent isVerbose items)⟩

/-- A scalar under two headers; two keys of one label; a name behind four better-ranked fields. -/
theorem cells_lost :
    (buildListTable sampleTable .list false
        [.ofPairs [("id", .string "1"), ("name", .string "a")], .string "b"] "Value") =
        ⟨["ID", "Name"], [["1", "a"], ["b"]]⟩ ∧
      (buildListTable sampleTable .list false
        [.ofPairs [("userName", .string "a"), ("username", .string "b")]] "Value") =
        ⟨["Username", "Username"], [["b", "b"]]⟩ ∧
      (buildListTable sampleTable .list false
        [.ofPairs [("name", .string "a")],
          .ofPairs [("appName", .string "1"), ("clientId", .string "2"), ("id", .string "3"),
            ("name", .string "4"), ("userId", .string "5")]] "Value") =
        ⟨["Name"], [["a"], ["—"]]⟩ := by
  decide

end ListTables
