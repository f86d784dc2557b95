import AgsCli.Library.TreePaths
import AgsCli.Terminal.JsonEditor

/-! # Keys in the structured body editor

The tree with a focus under the keys of `dispatch_key`. Whatever the keys, the focus is on a node
that is shown, and only a few of them change the value. -/
namespace TreeEditor

open Json BodyShapes JsonEditor RawEditing TreePaths

abbrev NodePath := List Nat

def childrenOf (node : Node) : List Node :=
  match node.kind with
  | .object children | .array children => children
  | _ => []

def withChildren (node : Node) (children : List Node) : Node :=
  match node.kind with
  | .object _ => { node with kind := .object children }
  | .array _ => { node with kind := .array children }
  | _ => node

def nodes : Branching Node where
  children := childrenOf
  withChildren := withChildren
  isOpen := Node.expanded
  children_withChildren := by
    intro node others h
    obtain ⟨name, schema, required, kind, expanded⟩ := node
    cases kind with
    | object children => rfl
    | array children => rfl
    | _ => exact (List.length_eq_zero_iff.mp h).symm
  isOpen_withChildren := by
    intro node others
    obtain ⟨name, schema, required, kind, expanded⟩ := node
    cases kind <;> rfl

theorem child_size {node child : Node} (h : child ∈ childrenOf node) :
    sizeOf child < sizeOf node := by
  obtain ⟨name, schema, required, kind, expanded⟩ := node
  cases kind with
  | object children =>
    have hchild := List.sizeOf_lt_of_mem (show child ∈ children from h)
    simp only [Node.mk.sizeOf_spec, NodeKind.object.sizeOf_spec]
    omega
  | array children =>
    have hchild := List.sizeOf_lt_of_mem (show child ∈ children from h)
    simp only [Node.mk.sizeOf_spec, NodeKind.array.sizeOf_spec]
    omega
  | _ => cases h

section Navigation

/-- The places shown below a node, each in front of those below it. -/
def walk (node : Node) (path : NodePath) : List NodePath :=
  path :: if node.expanded then
      (mapMem (childrenOf node).zipIdx fun child _ => walk child.1 (path ++ [child.2])).flatten
    else []
termination_by sizeOf node
decreasing_by exact child_size (List.fst_mem_of_mem_zipIdx ‹child ∈ _›)

def flatten (root : Node) : List NodePath := walk root []

def get (root : Node) (path : NodePath) : Option Node := nodes.get? path root

end Navigation

section Edits

variable (nearest : Int → String)

def entryName (i : Nat) : String := s!"[{i}]"

def arrayAppendDefault (node : Node) : Except String (Node × Nat) :=
  match node.kind with
  | .array children =>
    let newIndex := children.length
    .ok ({ node with kind := .array (children ++
      [fromSchema nearest (entryName newIndex) (memberOf "items" node.schema) .null false]) },
      newIndex)
  | _ => .error "not an array"

/-- The labels of the remaining entries are renumbered. -/
def arrayDeleteAt (node : Node) (index : Nat) : Except String Node :=
  match node.kind with
  | .array children =>
    if children.length ≤ index then .error "out of bounds"
    else .ok { node with kind := .array ((children.eraseIdx index).zipIdx.map fun child =>
      { child.1 with name := entryName child.2 }) }
  | _ => .error "not an array"

def enumVariants (schema : Value) : Option (List String) :=
  ((schema.get? "enum").bind asArray?).map fun arr => arr.filterMap Value.asStr?

def toggleBoolNode (node : Node) : Node :=
  match node.kind with
  | .scalar value =>
    { node with kind := .scalar (some (.boolean (value != some (.boolean true)))) }
  | _ => node

def cycleEnumNode (variants : List String) (forward : Bool) (node : Node) : Node :=
  if variants.isEmpty then node
  else match node.kind with
    | .scalar value =>
      let cur := match value with
        | some (.enum s) | some (.string s) => variants.findIdx? (· == s)
        | _ => none
      let next := match cur, forward with
        | some i, true => (i + 1) % variants.length
        | some i, false => (i + variants.length - 1) % variants.length
        | none, _ => 0
      { node with kind := .scalar (some (.enum (variants.getD next ""))) }
    | _ => node

end Edits

inductive EditorStep
  | continue
  | save (value : Value)
  | cancel
  | openRaw
  | openScalar (path : NodePath)

section Keys

variable (nearest : Int → String)

/-- Right and Left: a container at the focus is opened or closed. -/
def setExpanded (expanded : Bool) (root : Node) (focus : NodePath) : Node :=
  match get root focus with
  | some node =>
    match node.kind with
    | .object _ | .array _ => nodes.replace { node with expanded } focus root
    | _ => root
  | none => root

def appendAt (root : Node) (path : NodePath) : Node :=
  match get root path with
  | some node =>
    match arrayAppendDefault nearest node with
    | .ok (grown, _) => nodes.replace grown path root
    | .error _ => root
  | none => root

def addEntry (root : Node) (focus : NodePath) : Node :=
  match get root focus with
  | some node =>
    match node.kind with
    | .array _ => appendAt nearest root focus
    | _ => if focus.isEmpty then root else appendAt nearest root focus.dropLast
  | none => root

/-- `-`: at an entry of an array. -/
def deleteEntry (root : Node) (focus : NodePath) : Node × NodePath :=
  match focus.getLast? with
  | none => (root, focus)
  | some index =>
    match get root focus.dropLast with
    | some parent =>
      match arrayDeleteAt parent index with
      | .ok shrunk => (nodes.replace shrunk focus.dropLast root, focus.dropLast)
      | .error _ => (root, focus)
    | none => (root, focus)

def activate (isSpace forward : Bool) (root : Node) (focus : NodePath) : Node × EditorStep :=
  match get root focus with
  | some node =>
    match node.kind with
    | .scalar _ =>
      if (node.schema.get? "type").bind Value.asStr? = some "boolean" then
        (nodes.replace (toggleBoolNode node) focus root, .continue)
      else match enumVariants node.schema with
        | some variants =>
          (nodes.replace (cycleEnumNode variants forward node) focus root, .continue)
        | none => (root, if isSpace then .continue else .openScalar focus)
    | _ => (root, .continue)
  | none => (root, .continue)

def dispatchKey (root : Node) (focus : NodePath) (key : KeyEvent) :
    Node × NodePath × EditorStep :=
  let visible := flatten root
  let focusIndex := (visible.findIdx? (· == focus)).getD 0
  if key.code = .char 's' ∧ key.modifiers = ⟨false, true, false⟩ then
    (root, focus, .save root.toValue)
  else match key.code with
    | .esc => (root, focus, .cancel)
    | .up =>
      (root, if 0 < focusIndex then visible.getD (focusIndex - 1) focus else focus, .continue)
    | .down =>
      (root, if focusIndex + 1 < visible.length then visible.getD (focusIndex + 1) focus else focus,
        .continue)
    | .right => (setExpanded true root focus, focus, .continue)
    | .left => (setExpanded false root focus, focus, .continue)
    | .enter =>
      let (root, step) := activate false (!key.modifiers.shift) root focus
      (root, focus, step)
    | .char c =>
      if c = '+' then (addEntry nearest root focus, focus, .continue)
      else if c = '-' then
        let (root, focus) := deleteEntry root focus
        (root, focus, .continue)
      else if c = 'r' ∧ key.modifiers.control then (root, focus, .openRaw)
      else if c = ' ' then
        let (root, step) := activate true (!key.modifiers.shift) root focus
        (root, focus, step)
      else (root, focus, .continue)
    | _ => (root, focus, .continue)

def run (keys : List KeyEvent) (root : Node) (focus : NodePath) : Node × NodePath :=
  keys.foldl
    (fun s key => ((dispatchKey nearest s.1 s.2 key).1, (dispatchKey nearest s.1 s.2 key).2.1))
    (root, focus)

end Keys

section Places

variable {root node child : Node} {path q : NodePath}

theorem walk_eq (node : Node) (path : NodePath) : walk node path = path :: if node.expanded then
    ((childrenOf node).zipIdx.map fun child => walk child.1 (path ++ [child.2])).flatten
      else [] := by
  rw [walk, mapMem_eq]

theorem mem_walk (node : Node) (path q : NodePath) :
    q ∈ walk node path ↔ ∃ below, q = path ++ below ∧ nodes.Visible node below := by
  rw [walk_eq, List.mem_cons]
  constructor
  · rintro (rfl | hmem)
    · exact ⟨[], (List.append_nil _).symm, .root node⟩
    · split at hmem
      · next hopen =>
        obtain ⟨l, hl, hq⟩ := List.mem_flatten.mp hmem
        obtain ⟨⟨child, i⟩, hchild, rfl⟩ := List.mem_map.mp hl
        obtain ⟨below, rfl, hbelow⟩ := (mem_walk child (path ++ [i]) q).mp hq
        exact ⟨i :: below, by simp,
          .child hopen (List.mem_zipIdx_iff_getElem?.mp hchild) hbelow⟩
      · cases hmem
  · rintro ⟨below, rfl, hbelow⟩
    cases below with
    | nil => exact .inl (List.append_nil _)
    | cons i below =>
      obtain ⟨hopen, child, hchild, hbelow⟩ := Branching.visible_cons_iff.mp hbelow
      have hmem : (childrenOf node)[i]? = some child := hchild
      refine .inr ?_
      rw [if_pos (show node.expanded = true from hopen)]
      refine List.mem_flatten.mpr ⟨_, List.mem_map.mpr
        ⟨(child, i), List.mem_zipIdx_iff_getElem?.mpr hmem, rfl⟩, ?_⟩
      exact (mem_walk child (path ++ [i]) _).mpr ⟨below, by simp, hbelow⟩
termination_by sizeOf node
decreasing_by
  · exact child_size (List.fst_mem_of_mem_zipIdx hchild)
  · exact child_size (List.mem_of_getElem? hmem)

/-- The list shows the places below open nodes. -/
theorem mem_flatten : q ∈ flatten root ↔ nodes.Visible root q := by
  rw [flatten, mem_walk]
  simp

end Places

section Values

variable {root node node' : Node} {path : NodePath}

theorem name_withChildren (node : Node) (children : List Node) :
    (withChildren node children).name = node.name := by
  unfold withChildren
  split <;> rfl

theorem name_replace (hget : get root path = some node) (hname : node'.name = node.name) :
    (nodes.replace node' path root).name = root.name := by
  cases path with
  | nil =>
    cases hget
    exact hname
  | cons i path => exact name_withChildren root _

theorem toValue_withChildren {others : List Node}
    (h : others.map (fun c => (c.name, c.toValue)) =
      (childrenOf node).map fun c => (c.name, c.toValue)) :
    (withChildren node others).toValue = node.toValue := by
  obtain ⟨name, schema, required, kind, expanded⟩ := node
  cases kind with
  | object children =>
    simp only [withChildren, Node.toValue]
    exact congrArg ofMembers h
  | array children =>
    have hvalues := congrArg (List.map Prod.snd) h
    rw [List.map_map, List.map_map] at hvalues
    simp only [withChildren, Node.toValue]
    exact congrArg Value.array hvalues
  | _ => rfl

theorem toValue_replace (hget : get root path = some node) (hname : node'.name = node.name)
    (hvalue : node'.toValue = node.toValue) :
    (nodes.replace node' path root).toValue = root.toValue := by
  induction path generalizing root with
  | nil =>
    cases hget
    exact hvalue
  | cons i path ih =>
    obtain ⟨child, hchild, hbelow⟩ := Option.bind_eq_some_iff.mp hget
    refine toValue_withChildren (List.ext_getElem? fun j => ?_)
    rw [List.getElem?_map, List.getElem?_map]
    by_cases hij : i = j
    · subst hij
      have hsame : (childrenOf root)[i]? = some child := hchild
      rw [List.getElem?_modify_eq, show (nodes.children root)[i]? = some child from hchild, hsame]
      exact congrArg some (Prod.ext (name_replace hbelow hname) (ih hbelow))
    · rw [List.getElem?_modify_ne _ _ hij]
      rfl

end Values

section Labels

variable {nearest : Int → String} {root node node' : Node} {path : NodePath}

/-- The entries of every array carry their positions. -/
inductive Numbered : Node → Prop
  | object {name schema required expanded children} (h : ∀ c ∈ children, Numbered c) :
    Numbered ⟨name, schema, required, .object children, expanded⟩
  | array {name schema required expanded children}
    (hnames : children.map Node.name = (List.range children.length).map entryName)
    (h : ∀ c ∈ children, Numbered c) :
    Numbered ⟨name, schema, required, .array children, expanded⟩
  | scalar {name schema required expanded value} :
    Numbered ⟨name, schema, required, .scalar value, expanded⟩
  | oneOf {name schema required expanded variants selected} (h : ∀ v ∈ variants, Numbered v) :
    Numbered ⟨name, schema, required, .oneOf variants selected, expanded⟩
  | freeMap {name schema required expanded entries} (h : ∀ e ∈ entries, Numbered e.2) :
    Numbered ⟨name, schema, required, .freeMap entries, expanded⟩

theorem names_zipIdx {α : Type} (items : List α) (f : α × Nat → Node)
    (hname : ∀ item, (f item).name = entryName item.2) :
    (items.zipIdx.map f).map Node.name =
      (List.range (items.zipIdx.map f).length).map entryName := by
  have hnames : (items.zipIdx.map f).map Node.name =
      (items.zipIdx.map Prod.snd).map entryName := by
    rw [List.map_map, List.map_map]
    exact List.map_congr_left fun item _ => hname item
  rw [hnames, List.zipIdx_map_snd, List.length_map, List.length_zipIdx, List.range_eq_range']

theorem numbered_fromSchema (name : String) (schema value : Value) (required : Bool) :
    Numbered (fromSchema nearest name schema value required) := by
  rw [fromSchema_eq]
  cases hlayout : layout schema with
  | object properties =>
    cases properties with
    | some props =>
      refine .object fun c hc => ?_
      obtain ⟨p, hp, rfl⟩ := List.mem_map.mp hc
      exact numbered_fromSchema p.1 p.2 (memberOf p.1 value) _
    | none =>
      cases value with
      | object map =>
        refine .object fun c hc => ?_
        obtain ⟨e, he, rfl⟩ := List.mem_map.mp hc
        exact numbered_fromSchema e.1 (inferSchemaFromValue e.2) e.2 false
      | _ => exact .object fun c hc => nomatch hc
  | array itemSchema =>
    cases value with
    | array items =>
      refine .array (names_zipIdx items _ fun item => name_fromSchema) fun c hc => ?_
      obtain ⟨item, hitem, rfl⟩ := List.mem_map.mp hc
      exact numbered_fromSchema _ itemSchema item.1 false
    | _ => exact .array rfl fun c hc => nomatch hc
  | scalar => exact .scalar
  | oneOf variants =>
    refine .oneOf fun v hv => ?_
    obtain ⟨variant, hvariant, rfl⟩ := List.mem_map.mp hv
    exact numbered_fromSchema _ variant.1 .null false
  | freeMap => exact .freeMap fun e he => nomatch he
termination_by (sizeOf value, sizeOf schema)
decreasing_by
  · exact member_lt he
  · exact property_lt hlayout hp
  · exact item_lt (List.fst_mem_of_mem_zipIdx hitem)
  · exact variant_lt hlayout (List.fst_mem_of_mem_zipIdx hvariant)

theorem numbered_child (hroot : Numbered root) (h : node ∈ childrenOf root) : Numbered node := by
  cases hroot with
  | object hchildren => exact hchildren node h
  | array _ hchildren => exact hchildren node h
  | _ => cases h

theorem numbered_get (hroot : Numbered root) (hget : get root path = some node) :
    Numbered node := by
  induction path generalizing root with
  | nil =>
    cases hget
    exact hroot
  | cons i path ih =>
    obtain ⟨child, hchild, hbelow⟩ := Option.bind_eq_some_iff.mp hget
    have hmem : (childrenOf root)[i]? = some child := hchild
    exact ih (numbered_child hroot (List.mem_of_getElem? hmem)) hbelow

theorem numbered_withChildren {others : List Node} (hroot : Numbered root)
    (hnames : others.map Node.name = (childrenOf root).map Node.name)
    (h : ∀ c ∈ others, Numbered c) : Numbered (withChildren root others) := by
  cases hroot with
  | object => exact .object h
  | array hold =>
    have hlength := congrArg List.length hnames
    rw [List.length_map, List.length_map] at hlength
    refine .array ?_ h
    rw [hlength]
    exact hnames.trans hold
  | scalar => exact .scalar
  | oneOf hvariants => exact .oneOf hvariants
  | freeMap hentries => exact .freeMap hentries

theorem numbered_replace (hroot : Numbered root) (hget : get root path = some node)
    (hname : node'.name = node.name) (hnode : Numbered node') :
    Numbered (nodes.replace node' path root) := by
  induction path generalizing root with
  | nil => exact hnode
  | cons i path ih =>
    obtain ⟨child, hchild, hbelow⟩ := Option.bind_eq_some_iff.mp hget
    have hmem : (childrenOf root)[i]? = some child := hchild
    have hreplaced := ih (numbered_child hroot (List.mem_of_getElem? hmem)) hbelow
    refine numbered_withChildren hroot (List.ext_getElem? fun j => ?_) fun c hc => ?_
    · rw [List.getElem?_map, List.getElem?_map]
      by_cases hij : i = j
      · subst hij
        rw [List.getElem?_modify_eq, hchild, hmem]
        exact congrArg some (name_replace hbelow hname)
      · rw [List.getElem?_modify_ne _ _ hij]
        rfl
    · obtain ⟨j, hj⟩ := List.mem_iff_getElem?.mp hc
      by_cases hij : i = j
      · subst hij
        rw [List.getElem?_modify_eq, hchild] at hj
        cases hj
        exact hreplaced
      · rw [List.getElem?_modify_ne _ _ hij] at hj
        exact numbered_child hroot (List.mem_of_getElem? hj)

end Labels

section Runs

variable {nearest : Int → String} {key : KeyEvent} {root root' : Node} {focus focus' : NodePath}

/-- A boolean, or a scalar with listed values. -/
def IsChoice (node : Node) : Prop := (∃ value, node.kind = .scalar value) ∧
  ((node.schema.get? "type").bind Value.asStr? = some "boolean" ∨
    (enumVariants node.schema).isSome = true)

inductive Outcome (nearest : Int → String) (key : KeyEvent) (root : Node) (focus : NodePath) :
    Node → NodePath → Prop
  | stay : Outcome nearest key root focus root focus
  | move {path : NodePath} (h : path ∈ flatten root) : Outcome nearest key root focus root path
  | fold {node : Node} (expanded : Bool) (hget : get root focus = some node) :
    Outcome nearest key root focus (nodes.replace { node with expanded } focus root) focus
  | append {path : NodePath} {node : Node} {children : List Node} (hkey : key.code = .char '+')
    (hfocus : focus = path ∨ ∃ i, focus = path ++ [i]) (hget : get root path = some node)
    (hkind : node.kind = .array children) :
    Outcome nearest key root focus
      (nodes.replace { node with kind := .array (children ++ [fromSchema nearest
        (entryName children.length) (memberOf "items" node.schema) .null false]) } path root) focus
  | delete {path : NodePath} {i : Nat} {node : Node} {children : List Node}
    (hkey : key.code = .char '-') (hfocus : focus = path ++ [i]) (hget : get root path = some node)
    (hkind : node.kind = .array children) :
    Outcome nearest key root focus
      (nodes.replace { node with kind := .array ((children.eraseIdx i).zipIdx.map fun child =>
        { child.1 with name := entryName child.2 }) } path root) path
  | choose {node : Node} (value : Option ScalarValue)
    (hkey : key.code = .enter ∨ key.code = .char ' ') (hget : get root focus = some node)
    (hchoice : IsChoice node) :
    Outcome nearest key root focus
      (nodes.replace { node with kind := .scalar value } focus root) focus

theorem getD_cases {l : List NodePath} (i : Nat) (h : l.getD i focus ≠ focus) :
    l.getD i focus ∈ l := by
  rw [List.getD_eq_getElem?_getD] at h ⊢
  cases hget : l[i]? with
  | none =>
    rw [hget] at h
    exact absurd rfl h
  | some path => exact List.mem_of_getElem? hget

theorem outcome_getD (i : Nat) :
    Outcome nearest key root focus root ((flatten root).getD i focus) := by
  by_cases h : (flatten root).getD i focus = focus
  · rw [h]
    exact .stay
  · exact .move (getD_cases i h)

theorem setExpanded_outcome (expanded : Bool) :
    Outcome nearest key root focus (setExpanded expanded root focus) focus := by
  unfold setExpanded
  split
  · next node hget =>
    split
    · exact .fold expanded hget
    · exact .fold expanded hget
    · exact .stay
  · exact .stay

theorem appendAt_outcome {path : NodePath} (hkey : key.code = .char '+')
    (hfocus : focus = path ∨ ∃ i, focus = path ++ [i]) :
    Outcome nearest key root focus (appendAt nearest root path) focus := by
  unfold appendAt
  split
  · next node hget =>
    unfold arrayAppendDefault
    cases hkind : node.kind with
    | array children => exact .append hkey hfocus hget hkind
    | _ => exact .stay
  · exact .stay

theorem addEntry_outcome (hkey : key.code = .char '+') :
    Outcome nearest key root focus (addEntry nearest root focus) focus := by
  unfold addEntry
  split
  · split
    · exact appendAt_outcome hkey (.inl rfl)
    · split
      · exact .stay
      · next hne =>
        have hlast : focus ≠ [] := by simpa using hne
        exact appendAt_outcome hkey
          (.inr ⟨focus.getLast hlast, (List.dropLast_append_getLast hlast).symm⟩)
  · exact .stay

theorem deleteEntry_outcome (hkey : key.code = .char '-') :
    Outcome nearest key root focus (deleteEntry root focus).1 (deleteEntry root focus).2 := by
  unfold deleteEntry
  split
  · exact .stay
  · next index hlast =>
    split
    · next parent hget =>
      unfold arrayDeleteAt
      cases hkind : parent.kind with
      | array children =>
        by_cases hlen : children.length ≤ index
        · simp only [if_pos hlen]
          exact .stay
        · simp only [if_neg hlen]
          have hfocus : focus = focus.dropLast ++ [index] :=
            (List.dropLast_append_getLast? index hlast).symm
          exact .delete hkey hfocus hget hkind
      | _ => exact .stay
    · exact .stay

theorem activate_outcome (isSpace forward : Bool)
    (hkey : key.code = .enter ∨ key.code = .char ' ') :
    Outcome nearest key root focus (activate isSpace forward root focus).1 focus := by
  unfold activate
  split
  · next node hget =>
    split
    · next value hkind =>
      split
      · next hboolean =>
        simp only [toggleBoolNode, hkind]
        exact .choose _ hkey hget ⟨⟨value, hkind⟩, .inl hboolean⟩
      · split
        · next variants hvariants =>
          have hchoice : IsChoice node := ⟨⟨value, hkind⟩, .inr (by rw [hvariants]; rfl)⟩
          simp only [cycleEnumNode, hkind]
          split
          · obtain ⟨name, schema, required, kind, expanded⟩ := node
            simp only at hkind
            subst hkind
            exact .choose value hkey hget hchoice
          · exact .choose _ hkey hget hchoice
        · exact .stay
    · exact .stay
  · exact .stay

theorem dispatchKey_outcome (key : KeyEvent) : Outcome nearest key root focus
    (dispatchKey nearest root focus key).1 (dispatchKey nearest root focus key).2.1 := by
  unfold dispatchKey
  simp only
  split
  · exact .stay
  · cases hcode : key.code with
    | up =>
      simp only
      split
      · exact outcome_getD _
      · exact .stay
    | down =>
      simp only
      split
      · exact outcome_getD _
      · exact .stay
    | right => exact setExpanded_outcome true
    | left => exact setExpanded_outcome false
    | enter => exact activate_outcome _ _ (.inl hcode)
    | char c =>
      simp only
      split
      · next hc => exact addEntry_outcome (by rw [hcode, hc])
      · split
        · next hc => exact deleteEntry_outcome (by rw [hcode, hc])
        · split
          · exact .stay
          · split
            · next hc => exact activate_outcome _ _ (.inr (by rw [hcode, hc]))
            · exact .stay
    | _ => exact .stay

structure Invariant (root : Node) (focus : NodePath) : Prop where
  shown : nodes.Visible root focus
  numbered : Numbered root

theorem visible_replace {node' : Node} (h : nodes.Visible root focus) :
    nodes.Visible (nodes.replace node' focus root) focus := by
  have hroot : nodes.Visible root (focus ++ []) := by rwa [List.append_nil]
  have hshown := hroot.replace (.root node')
  rwa [List.append_nil] at hshown

/-- An entry stays in a longer array. -/
theorem visible_append {node node' : Node} {children more : List Node} {path : NodePath} {i : Nat}
    (h : nodes.Visible root (path ++ [i])) (hget : get root path = some node)
    (hkind : node.kind = .array children) (hkind' : node'.kind = .array (children ++ more))
    (hopen : node'.expanded = node.expanded) :
    nodes.Visible (nodes.replace node' path root) (path ++ [i]) := by
  refine h.replace ?_
  obtain ⟨hnode, child, hchild, -⟩ := Branching.visible_cons_iff.mp (h.inside hget)
  have hchildren : childrenOf node = children := by unfold childrenOf; rw [hkind]
  have hchildren' : childrenOf node' = children ++ more := by unfold childrenOf; rw [hkind']
  have hmem : children[i]? = some child := hchildren ▸ hchild
  refine Branching.visible_cons_iff.mpr ⟨hopen.trans hnode, child, ?_, .root child⟩
  change (childrenOf node')[i]? = some child
  rw [hchildren', List.getElem?_append_left (List.getElem?_eq_some_iff.mp hmem).1, hmem]

theorem numbered_of_kind {node : Node} {children : List Node} (hkind : node.kind = .array children)
    (h : Numbered node) :
    children.map Node.name = (List.range children.length).map entryName ∧
      ∀ c ∈ children, Numbered c := by
  cases h with
  | array hnames hchildren =>
    cases hkind
    exact ⟨hnames, hchildren⟩
  | _ => cases hkind

theorem numbered_expanded {node : Node} (h : Numbered node) (expanded : Bool) :
    Numbered { node with expanded } := by
  cases h with
  | object h => exact .object h
  | array hnames h => exact .array hnames h
  | scalar => exact .scalar
  | oneOf h => exact .oneOf h
  | freeMap h => exact .freeMap h

theorem numbered_rename {node : Node} (h : Numbered node) (name : String) :
    Numbered { node with name } := by
  cases h with
  | object h => exact .object h
  | array hnames h => exact .array hnames h
  | scalar => exact .scalar
  | oneOf h => exact .oneOf h
  | freeMap h => exact .freeMap h

theorem outcome_invariant (h : Outcome nearest key root focus root' focus')
    (hinv : Invariant root focus) : Invariant root' focus' := by
  obtain ⟨hshown, hnumbered⟩ := hinv
  cases h with
  | stay => exact ⟨hshown, hnumbered⟩
  | move h => exact ⟨mem_flatten.mp h, hnumbered⟩
  | fold expanded hget =>
    have hnode := numbered_expanded (numbered_get hnumbered hget) expanded
    exact ⟨visible_replace hshown, numbered_replace hnumbered hget rfl hnode⟩
  | append hkey hfocus hget hkind =>
    obtain ⟨hnames, hchildren⟩ := numbered_of_kind hkind (numbered_get hnumbered hget)
    constructor
    · rcases hfocus with rfl | ⟨i, rfl⟩
      · exact visible_replace hshown
      · exact visible_append hshown hget hkind rfl rfl
    · refine numbered_replace hnumbered hget rfl (.array ?_ fun c hc => ?_)
      · rw [List.map_append, hnames, List.length_append, List.length_singleton, List.range_succ,
          List.map_append, List.map_singleton, List.map_singleton, name_fromSchema]
      · rcases List.mem_append.mp hc with hc | hc
        · exact hchildren c hc
        · rw [List.mem_singleton.mp hc]
          exact numbered_fromSchema _ _ _ _
  | delete hkey hfocus hget hkind =>
    obtain ⟨-, hchildren⟩ := numbered_of_kind hkind (numbered_get hnumbered hget)
    subst hfocus
    refine ⟨visible_replace hshown.of_append, numbered_replace hnumbered hget rfl ?_⟩
    refine .array (names_zipIdx _ _ fun child => rfl) fun c hc => ?_
    obtain ⟨child, hchild, rfl⟩ := List.mem_map.mp hc
    have hmem := List.mem_of_mem_eraseIdx (List.fst_mem_of_mem_zipIdx hchild)
    exact numbered_rename (hchildren child.1 hmem) _
  | choose value hkey hget hchoice =>
    exact ⟨visible_replace hshown, numbered_replace hnumbered hget rfl .scalar⟩

theorem run_invariant (keys : List KeyEvent) (h : Invariant root focus) :
    Invariant (run nearest keys root focus).1 (run nearest keys root focus).2 := by
  induction keys generalizing root focus with
  | nil => exact h
  | cons key keys ih => exact ih (outcome_invariant (dispatchKey_outcome key) h)

/-- Two trees that are the same but for what a node of the first holds. -/
structure OnlyAt (path : NodePath) (root root' : Node) (held : Node → Prop) : Prop where
  node : ∃ node kind, get root path = some node ∧ held node ∧
    root' = nodes.replace { node with kind } path root
  beside : ∀ q, ¬ path <+: q → ¬ q <+: path → get root' q = get root q

theorem onlyAt_replace {path : NodePath} {node : Node} {held : Node → Prop} (kind : NodeKind)
    (hget : get root path = some node) (hheld : held node) :
    OnlyAt path root (nodes.replace { node with kind } path root) held :=
  ⟨⟨node, kind, hget, hheld, rfl⟩, fun _ h h' => nodes.get?_replace_apart h h'⟩

/-- A key that changes the value: an array by its entries, or a choice. -/
def Changes (key : KeyEvent) (root : Node) (focus : NodePath) (root' : Node) : Prop :=
  root'.toValue = root.toValue ∨
  ((key.code = .char '+' ∨ key.code = .char '-') ∧
    ∃ path, (focus = path ∨ ∃ i, focus = path ++ [i]) ∧
      OnlyAt path root root' fun node => ∃ children, node.kind = .array children) ∨
  ((key.code = .enter ∨ key.code = .char ' ') ∧ OnlyAt focus root root' IsChoice)

theorem outcome_changes (h : Outcome nearest key root focus root' focus') :
    Changes key root focus root' := by
  cases h with
  | stay => exact .inl rfl
  | move => exact .inl rfl
  | fold expanded hget =>
    refine .inl (toValue_replace hget rfl ?_)
    rename_i node
    obtain ⟨name, schema, required, kind, shown⟩ := node
    cases kind with
    | scalar value => cases value <;> simp only [Node.toValue]
    | oneOf variants selected => cases selected <;> simp only [Node.toValue]
    | _ => simp only [Node.toValue]
  | append hkey hfocus hget hkind =>
    exact .inr (.inl ⟨.inl hkey, _, hfocus, onlyAt_replace _ hget ⟨_, hkind⟩⟩)
  | delete hkey hfocus hget hkind =>
    exact .inr (.inl ⟨.inr hkey, _, .inr ⟨_, hfocus⟩, onlyAt_replace _ hget ⟨_, hkind⟩⟩)
  | choose value hkey hget hchoice =>
    exact .inr (.inr ⟨hkey, onlyAt_replace _ hget hchoice⟩)

/-- After any keys the focus is shown and the entries are numbered, and what the next key may
change of the value is little. -/
theorem run_keepsFocus (nearest : Int → String) (name : String) (schema value : Value)
    (required : Bool) (keys : List KeyEvent) (key : KeyEvent) :
    let s := run nearest keys (fromSchema nearest name schema value required) []
    s.2 ∈ flatten s.1 ∧ (∃ node, get s.1 s.2 = some node) ∧ Numbered s.1 ∧
      Changes key s.1 s.2 (dispatchKey nearest s.1 s.2 key).1 := by
  intro s
  obtain ⟨hshown, hnumbered⟩ : Invariant s.1 s.2 :=
    run_invariant keys ⟨.root _, numbered_fromSchema name schema value required⟩
  exact ⟨mem_flatten.mpr hshown, hshown.exists_get?, hnumbered,
    outcome_changes (dispatchKey_outcome key)⟩

end Runs

end TreeEditor
