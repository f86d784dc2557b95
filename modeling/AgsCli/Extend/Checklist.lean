import AgsCli.Extend.Permissions

/-! # The endpoint checklist

A selection mode with an edit mode inside it, driven one action at a time. The cap holds in every
run exactly when the overrides check no more endpoints than it allows. -/
namespace Checklist

open Permissions HashMaps

inductive PermissionCell
  | discovered (text : String)
  | unauthenticated
  | editable
  deriving DecidableEq, Repr

structure Row where
  operationId : String
  method : String
  path : String
  cell : PermissionCell
  deriving DecidableEq, Repr

def Row.fromEndpoint (endpoint : Endpoint) : Row where
  operationId := endpoint.operationId
  method := endpoint.method
  path := endpoint.path
  cell :=
    if endpoint.isPermissionEditable then .editable
    else match endpoint.permission with
      | some p => .discovered (displayPermission p.resource p.action)
      | none => .unauthenticated

def Row.isEditable (row : Row) : Bool := row.cell = .editable

structure ChecklistState where
  rows : List Row
  checked : List Bool
  permissionInput : List String
  highlighted : Nat
  cap : Nat
  namespace_ : String
  editBuffer : Option String
  editError : Option String
  statusMessage : Option String
  cancelled : Bool
  submitted : Bool
  deriving DecidableEq

structure EndpointSelection where
  operationId : String
  permissionOverride : Option ParsedPermission
  deriving DecidableEq

namespace ChecklistState

def new (endpoints : List Endpoint) (cap : Nat) (namespace_ : String)
    (initialPermissions : Overrides) : ChecklistState :=
  let rows := endpoints.map Row.fromEndpoint
  { rows := rows
    checked := rows.map fun row => (Entries.lookup row.operationId initialPermissions).isSome
    permissionInput := rows.map fun row =>
      match Entries.lookup row.operationId initialPermissions with
      | some p => displayPermission p.resource p.action
      | none => ""
    highlighted := 0
    cap := cap
    namespace_ := namespace_
    editBuffer := none
    editError := none
    statusMessage := none
    cancelled := false
    submitted := false }

def isSubmitRow (s : ChecklistState) (idx : Nat) : Bool := idx = s.rows.length

def isEditing (s : ChecklistState) : Bool := s.editBuffer.isSome

def checkedCount (s : ChecklistState) : Nat := s.checked.count true

def cells (s : ChecklistState) : List (Row × Bool × String) :=
  s.rows.zip (s.checked.zip s.permissionInput)

def allSelectedPermissionsValid (s : ChecklistState) : Bool :=
  s.cells.all fun cell => !cell.2.1 || !cell.1.isEditable || cell.2.2 = "" ||
    (parsePermission cell.2.2 s.namespace_).isOk

def submitState (s : ChecklistState) : Bool × Option String :=
  if s.checkedCount = 0 then (false, some "Select at least one endpoint to continue.")
  else if s.allSelectedPermissionsValid = false then
    (false, some "Fix the invalid permission format to continue.")
  else (true, none)

def moveUp (s : ChecklistState) : ChecklistState :=
  if s.isEditing then s else { s with highlighted := s.highlighted - 1, statusMessage := none }

def moveDown (s : ChecklistState) : ChecklistState :=
  if s.isEditing then s
  else { s with highlighted := min (s.highlighted + 1) s.rows.length, statusMessage := none }

/-- Nothing is an index out of range, here and below. -/
def toggleHighlighted (s : ChecklistState) : Option ChecklistState :=
  if s.isEditing || s.isSubmitRow s.highlighted then some s
  else match s.checked[s.highlighted]? with
    | none => none
    | some checked =>
      if !checked && s.cap ≤ s.checkedCount then
        some { s with statusMessage := some (s!"You've reached the {s.cap}-endpoint limit. " ++
          "Deselect one to add another.") }
      else some { s with checked := s.checked.set s.highlighted !checked, statusMessage := none }

def commitEdit (s : ChecklistState) : Option ChecklistState :=
  match s.editBuffer with
  | none => some s
  | some buf =>
    match parsePermission buf s.namespace_ with
    | .ok _ =>
      if s.highlighted < s.permissionInput.length then
        some { s with
          permissionInput := s.permissionInput.set s.highlighted buf
          editBuffer := none
          editError := none }
      else none
    | .error message => some { s with editError := some message }

def activateHighlighted (s : ChecklistState) : Option (ChecklistState × Bool) :=
  if s.isEditing then s.commitEdit.map fun s => (s, false)
  else if s.isSubmitRow s.highlighted then
    match s.submitState with
    | (true, _) => some ({ s with submitted := true }, true)
    | (false, reason) => some ({ s with statusMessage := reason }, false)
  else match s.rows[s.highlighted]?, s.permissionInput[s.highlighted]? with
    | some row, some input =>
      match row.cell with
      | .editable => some ({ s with editBuffer := some input, editError := none }, false)
      | .discovered _ =>
        let message := "This permission was auto-discovered from the app's OpenAPI spec or gRPC " ++
          "reflection and can't be edited."
        some ({ s with statusMessage := some message }, false)
      | .unauthenticated =>
        some ({ s with statusMessage := some "Unauthenticated endpoint" }, false)
    | _, _ => none

def pushChar (s : ChecklistState) (c : Char) : ChecklistState :=
  { s with editBuffer := s.editBuffer.map fun buf => buf.push c }

def popChar (s : ChecklistState) : ChecklistState :=
  { s with editBuffer := s.editBuffer.map fun buf => String.ofList buf.toList.dropLast }

def cancelEditOrChecklist (s : ChecklistState) : ChecklistState :=
  if s.isEditing then { s with editBuffer := none, editError := none }
  else { s with cancelled := true }

def finalize (s : ChecklistState) : List EndpointSelection :=
  (s.cells.filter (·.2.1)).map fun cell =>
    { operationId := cell.1.operationId
      permissionOverride :=
        if cell.1.isEditable then (parsePermission cell.2.2 s.namespace_).toOption else none }

end ChecklistState

inductive Action
  | moveUp
  | moveDown
  | toggle
  | activate
  | push (c : Char)
  | pop
  | cancel
  deriving DecidableEq

def step (s : ChecklistState) : Action → Option (ChecklistState × Bool)
  | .moveUp => some (s.moveUp, false)
  | .moveDown => some (s.moveDown, false)
  | .toggle => s.toggleHighlighted.map fun s => (s, false)
  | .activate => s.activateHighlighted
  | .push c => some (s.pushChar c, false)
  | .pop => some (s.popChar, false)
  | .cancel => some (s.cancelEditOrChecklist, false)

def run (actions : List Action) (s : ChecklistState) : Option ChecklistState :=
  actions.foldlM (fun s action => (step s action).map (·.1)) s

inductive Effect (s s' : ChecklistState) : Prop
  | quiet (checked : s'.checked = s.checked) (permissions : s'.permissionInput = s.permissionInput)
      (highlighted : s.highlighted ≤ s.rows.length → s'.highlighted ≤ s.rows.length)
      (editing : s'.editBuffer.isSome = true → s'.highlighted = s.highlighted ∧
        (s.editBuffer.isSome = true ∨ ∃ row, s.rows[s.highlighted]? = some row ∧
          row.isEditable = true))
  | toggled (mark : Bool) (old : s.checked[s.highlighted]? = some mark)
      (room : mark = true ∨ s.checkedCount < s.cap)
      (checked : s'.checked = s.checked.set s.highlighted !mark)
      (permissions : s'.permissionInput = s.permissionInput)
      (highlighted : s'.highlighted = s.highlighted) (editing : s'.editBuffer = none)
  | committed (buf : String) (open_ : s.editBuffer = some buf)
      (parses : ∃ parsed, parsePermission buf s.namespace_ = .ok parsed)
      (checked : s'.checked = s.checked)
      (permissions : s'.permissionInput = s.permissionInput.set s.highlighted buf)
      (highlighted : s'.highlighted = s.highlighted) (editing : s'.editBuffer = none)

/-- What no step changes. -/
def SameList (s s' : ChecklistState) : Prop :=
  s'.rows = s.rows ∧ s'.cap = s.cap ∧ s'.namespace_ = s.namespace_

section Steps

variable {s s' : ChecklistState} {exit : Bool}

theorem quiet_closed (hclosed : s.editBuffer = none) (hchecked : s'.checked = s.checked)
    (hpermissions : s'.permissionInput = s.permissionInput)
    (hhighlighted : s.highlighted ≤ s.rows.length → s'.highlighted ≤ s.rows.length)
    (hediting : s'.editBuffer = s.editBuffer) : Effect s s' :=
  .quiet hchecked hpermissions hhighlighted fun h => by rw [hediting, hclosed] at h; cases h

theorem quiet_still (hchecked : s'.checked = s.checked)
    (hpermissions : s'.permissionInput = s.permissionInput)
    (hhighlighted : s'.highlighted = s.highlighted)
    (hediting : s'.editBuffer.isSome = true → s.editBuffer.isSome = true) : Effect s s' :=
  .quiet hchecked hpermissions (fun h => hhighlighted ▸ h)
    fun h => ⟨hhighlighted, Or.inl (hediting h)⟩

theorem moveUp_effect : SameList s s.moveUp ∧ Effect s s.moveUp := by
  unfold ChecklistState.moveUp
  by_cases hediting : s.isEditing = true
  · rw [if_pos hediting]
    exact ⟨⟨rfl, rfl, rfl⟩, quiet_still rfl rfl rfl id⟩
  · rw [if_neg hediting]
    have hclosed : s.editBuffer = none := by
      simpa [ChecklistState.isEditing] using hediting
    exact ⟨⟨rfl, rfl, rfl⟩, quiet_closed hclosed rfl rfl (fun h => (Nat.sub_le _ _).trans h) rfl⟩

theorem moveDown_effect : SameList s s.moveDown ∧ Effect s s.moveDown := by
  unfold ChecklistState.moveDown
  by_cases hediting : s.isEditing = true
  · rw [if_pos hediting]
    exact ⟨⟨rfl, rfl, rfl⟩, quiet_still rfl rfl rfl id⟩
  · rw [if_neg hediting]
    have hclosed : s.editBuffer = none := by
      simpa [ChecklistState.isEditing] using hediting
    exact ⟨⟨rfl, rfl, rfl⟩, quiet_closed hclosed rfl rfl (fun _ => Nat.min_le_right _ _) rfl⟩

theorem toggle_effect (h : s.toggleHighlighted = some s') : SameList s s' ∧ Effect s s' := by
  unfold ChecklistState.toggleHighlighted at h
  split_ifs at h with hskip
  · cases h
    exact ⟨⟨rfl, rfl, rfl⟩, quiet_still rfl rfl rfl id⟩
  · have hclosed : s.editBuffer = none := by
      simp only [Bool.or_eq_true, not_or] at hskip
      simpa [ChecklistState.isEditing] using hskip.1
    cases hmark : s.checked[s.highlighted]? with
    | none =>
      rw [hmark] at h
      cases h
    | some mark =>
      simp only [hmark] at h
      split_ifs at h with hfull
      · cases h
        exact ⟨⟨rfl, rfl, rfl⟩, quiet_still rfl rfl rfl id⟩
      · cases h
        refine ⟨⟨rfl, rfl, rfl⟩, .toggled mark hmark ?_ rfl rfl rfl hclosed⟩
        cases mark with
        | true => exact Or.inl rfl
        | false => exact Or.inr (by simpa using hfull)

theorem commit_effect (h : s.commitEdit = some s') : SameList s s' ∧ Effect s s' := by
  unfold ChecklistState.commitEdit at h
  cases hbuf : s.editBuffer with
  | none =>
    simp only [hbuf] at h
    cases h
    exact ⟨⟨rfl, rfl, rfl⟩, quiet_still rfl rfl rfl id⟩
  | some buf =>
    simp only [hbuf] at h
    cases hparse : parsePermission buf s.namespace_ with
    | error message =>
      simp only [hparse] at h
      cases h
      exact ⟨⟨rfl, rfl, rfl⟩, quiet_still rfl rfl rfl fun _ => by rw [hbuf]; rfl⟩
    | ok parsed =>
      simp only [hparse] at h
      split_ifs at h
      cases h
      exact ⟨⟨rfl, rfl, rfl⟩, .committed buf hbuf ⟨parsed, hparse⟩ rfl rfl rfl rfl⟩

theorem activate_effect (h : s.activateHighlighted = some (s', exit)) :
    SameList s s' ∧ Effect s s' := by
  unfold ChecklistState.activateHighlighted at h
  split_ifs at h with hediting hsubmit
  · obtain ⟨committed, hcommit, heq⟩ := Option.map_eq_some_iff.mp h
    cases heq
    exact commit_effect hcommit
  · cases hstate : s.submitState with
    | mk can reason =>
      cases can with
      | true =>
        simp only [hstate] at h
        cases h
        exact ⟨⟨rfl, rfl, rfl⟩, quiet_still rfl rfl rfl id⟩
      | false =>
        simp only [hstate] at h
        cases h
        exact ⟨⟨rfl, rfl, rfl⟩, quiet_still rfl rfl rfl id⟩
  · cases hrow : s.rows[s.highlighted]? with
    | none =>
      simp only [hrow] at h
      cases h
    | some row =>
      cases hinput : s.permissionInput[s.highlighted]? with
      | none =>
        simp only [hrow, hinput] at h
        cases h
      | some input =>
        simp only [hrow, hinput] at h
        cases hcell : row.cell with
        | editable =>
          simp only [hcell] at h
          cases h
          refine ⟨⟨rfl, rfl, rfl⟩, .quiet rfl rfl id fun _ => ⟨rfl, Or.inr ⟨row, hrow, ?_⟩⟩⟩
          rw [Row.isEditable, hcell]
          rfl
        | discovered text =>
          simp only [hcell] at h
          cases h
          exact ⟨⟨rfl, rfl, rfl⟩, quiet_still rfl rfl rfl id⟩
        | unauthenticated =>
          simp only [hcell] at h
          cases h
          exact ⟨⟨rfl, rfl, rfl⟩, quiet_still rfl rfl rfl id⟩

theorem step_effect {action : Action} (h : step s action = some (s', exit)) :
    SameList s s' ∧ Effect s s' := by
  cases action with
  | moveUp =>
    cases h
    exact moveUp_effect
  | moveDown =>
    cases h
    exact moveDown_effect
  | toggle =>
    obtain ⟨toggled, htoggle, heq⟩ := Option.map_eq_some_iff.mp h
    cases heq
    exact toggle_effect htoggle
  | activate => exact activate_effect h
  | push c =>
    cases h
    exact ⟨⟨rfl, rfl, rfl⟩, quiet_still rfl rfl rfl (by simp [ChecklistState.pushChar])⟩
  | pop =>
    cases h
    exact ⟨⟨rfl, rfl, rfl⟩, quiet_still rfl rfl rfl (by simp [ChecklistState.popChar])⟩
  | cancel =>
    cases h
    unfold ChecklistState.cancelEditOrChecklist
    split_ifs with hediting
    · exact ⟨⟨rfl, rfl, rfl⟩, quiet_still rfl rfl rfl nofun⟩
    · exact ⟨⟨rfl, rfl, rfl⟩, quiet_still rfl rfl rfl id⟩

end Steps

structure Invariant (s : ChecklistState) : Prop where
  checkedLength : s.checked.length = s.rows.length
  permissionLength : s.permissionInput.length = s.rows.length
  highlighted : s.highlighted ≤ s.rows.length
  editing : s.editBuffer.isSome = true → ∃ row, s.rows[s.highlighted]? = some row ∧
    row.isEditable = true
  permissions : ∀ (i : Nat) (row : Row) (input : String), s.rows[i]? = some row →
    row.isEditable = true → s.permissionInput[i]? = some input → input ≠ "" →
    ∃ parsed, parsePermission input s.namespace_ = .ok parsed

section Runs

variable {s s' : ChecklistState} {exit : Bool} {action : Action}

theorem effect_invariant (hsame : SameList s s') (heffect : Effect s s') (h : Invariant s) :
    Invariant s' := by
  obtain ⟨hrows, hcap, hnamespace⟩ := hsame
  obtain ⟨hchecked, hpermission, hhighlighted, hediting, hparse⟩ := h
  cases heffect with
  | quiet checked permissions highlighted editing =>
    refine ⟨by rw [checked, hrows, hchecked], by rw [permissions, hrows, hpermission],
      by rw [hrows]; exact highlighted hhighlighted, ?_, ?_⟩
    · intro hopen
      obtain ⟨hstill, hrow⟩ := editing hopen
      rw [hrows, hstill]
      exact hrow.elim hediting id
    · rw [hrows, permissions, hnamespace]
      exact hparse
  | toggled mark old room checked permissions highlighted editing =>
    refine ⟨by rw [checked, List.length_set, hrows, hchecked],
      by rw [permissions, hrows, hpermission],
      by rw [hrows, highlighted]; exact hhighlighted, ?_, ?_⟩
    · intro hopen
      rw [editing] at hopen
      cases hopen
    · rw [hrows, permissions, hnamespace]
      exact hparse
  | committed buf open_ parses checked permissions highlighted editing =>
    refine ⟨by rw [checked, hrows, hchecked],
      by rw [permissions, List.length_set, hrows, hpermission],
      by rw [hrows, highlighted]; exact hhighlighted, ?_, ?_⟩
    · intro hopen
      rw [editing] at hopen
      cases hopen
    · rw [hrows, permissions, hnamespace]
      intro i row input hrow heditable hinput hne
      rw [List.getElem?_set] at hinput
      split_ifs at hinput with hi hbound
      · rw [← Option.some.inj hinput]
        exact parses
      · exact hparse i row input hrow heditable hinput hne

/-- A mark is set only where there is room. -/
theorem effect_cap (hsame : SameList s s') (heffect : Effect s s')
    (h : s.checkedCount ≤ s.cap) : s'.checkedCount ≤ s'.cap := by
  obtain ⟨hrows, hcap, hnamespace⟩ := hsame
  rw [hcap]
  cases heffect with
  | quiet checked _ _ _ =>
    rw [ChecklistState.checkedCount, checked]
    exact h
  | toggled mark old room checked _ _ _ =>
    obtain ⟨hbound, hget⟩ := List.getElem?_eq_some_iff.mp old
    rw [ChecklistState.checkedCount, checked, List.count_set hbound, hget]
    cases mark with
    | true =>
      simp only [Bool.not_true, beq_self_eq_true, if_true]
      exact (Nat.sub_le _ _).trans h
    | false =>
      have hroom : s.checked.count true < s.cap := room.resolve_left Bool.false_ne_true
      simp only [Bool.not_false, beq_self_eq_true, if_true]
      exact (Nat.add_le_add_right (Nat.sub_le _ _) 1).trans hroom
  | committed _ _ _ checked _ _ _ =>
    rw [ChecklistState.checkedCount, checked]
    exact h

/-- Only the highlighted row's mark and permission change. -/
theorem effect_confined (heffect : Effect s s') {i : Nat} (hi : i ≠ s.highlighted) :
    s'.checked[i]? = s.checked[i]? ∧ s'.permissionInput[i]? = s.permissionInput[i]? := by
  cases heffect with
  | quiet checked permissions _ _ => exact ⟨by rw [checked], by rw [permissions]⟩
  | toggled _ _ _ checked permissions _ _ =>
    exact ⟨by rw [checked, List.getElem?_set_ne (Ne.symm hi)], by rw [permissions]⟩
  | committed _ _ _ checked permissions _ _ =>
    exact ⟨by rw [checked], by rw [permissions, List.getElem?_set_ne (Ne.symm hi)]⟩

theorem step_some (h : Invariant s) (action : Action) :
    ∃ s' exit, step s action = some (s', exit) := by
  have hinside : s.isSubmitRow s.highlighted = false → s.highlighted < s.rows.length := by
    intro hrow
    have hne : s.highlighted ≠ s.rows.length := by
      simpa [ChecklistState.isSubmitRow] using hrow
    exact lt_of_le_of_ne h.highlighted hne
  cases action with
  | moveUp => exact ⟨_, _, rfl⟩
  | moveDown => exact ⟨_, _, rfl⟩
  | push c => exact ⟨_, _, rfl⟩
  | pop => exact ⟨_, _, rfl⟩
  | cancel => exact ⟨_, _, rfl⟩
  | toggle =>
    have hsome : ∃ s', s.toggleHighlighted = some s' := by
      unfold ChecklistState.toggleHighlighted
      split_ifs with hskip
      · exact ⟨s, rfl⟩
      · simp only [Bool.or_eq_true, not_or, Bool.not_eq_true] at hskip
        have hbound : s.highlighted < s.checked.length := by
          rw [h.checkedLength]
          exact hinside hskip.2
        rw [List.getElem?_eq_getElem hbound]
        simp only
        split_ifs
        · exact ⟨_, rfl⟩
        · exact ⟨_, rfl⟩
    obtain ⟨s', hs'⟩ := hsome
    exact ⟨s', false, by rw [step, hs']; rfl⟩
  | activate =>
    have hcommit : ∃ s', s.commitEdit = some s' := by
      unfold ChecklistState.commitEdit
      cases hbuf : s.editBuffer with
      | none => exact ⟨s, rfl⟩
      | some buf =>
        obtain ⟨row, hrow, -⟩ := h.editing (by rw [hbuf]; rfl)
        have hbound : s.highlighted < s.permissionInput.length := by
          rw [h.permissionLength]
          exact (List.getElem?_eq_some_iff.mp hrow).1
        simp only
        cases hparse : parsePermission buf s.namespace_ with
        | error message => exact ⟨_, rfl⟩
        | ok parsed => exact ⟨_, if_pos hbound⟩
    show ∃ s' exit, s.activateHighlighted = some (s', exit)
    unfold ChecklistState.activateHighlighted
    split_ifs with hediting hsubmit
    · obtain ⟨s', hs'⟩ := hcommit
      exact ⟨s', false, by rw [hs']; rfl⟩
    · cases hstate : s.submitState with
      | mk can reason => cases can with
        | true => exact ⟨_, _, rfl⟩
        | false => exact ⟨_, _, rfl⟩
    · have hbound := hinside (Bool.eq_false_iff.mpr hsubmit)
      rw [List.getElem?_eq_getElem hbound,
        List.getElem?_eq_getElem (h.permissionLength.symm ▸ hbound)]
      simp only
      cases s.rows[s.highlighted].cell with
      | discovered text => exact ⟨_, _, rfl⟩
      | unauthenticated => exact ⟨_, _, rfl⟩
      | editable => exact ⟨_, _, rfl⟩

end Runs

def checkedRows (s : ChecklistState) : List (Row × String) :=
  (s.cells.filter (·.2.1)).map fun cell => (cell.1, cell.2.2)

structure Carries (namespace_ : String) (row : Row × String) (selection : EndpointSelection) :
    Prop where
  operation : selection.operationId = row.1.operationId
  shown : row.1.isEditable = true → row.2 ≠ "" → ∃ parsed,
    parsePermission row.2 namespace_ = .ok parsed ∧ selection.permissionOverride = some parsed
  empty : row.1.isEditable = true → row.2 = "" → selection.permissionOverride = none
  fixed : row.1.isEditable = false → selection.permissionOverride = none

structure WithinLimits (s : ChecklistState) : Prop where
  cap : s.checkedCount ≤ s.cap
  invariant : Invariant s
  confined : ∀ action, ∃ s' exit, step s action = some (s', exit) ∧
    (∀ i, i ≠ s.highlighted → s'.checked[i]? = s.checked[i]? ∧
      s'.permissionInput[i]? = s.permissionInput[i]?) ∧
    (exit = true → s'.submitted = true ∧
      List.Forall₂ (Carries s'.namespace_) (checkedRows s') s'.finalize)

section Limits

variable {s s' : ChecklistState} {exit : Bool} {endpoints : List Endpoint} {cap : Nat}
  {namespace_ : String} {overrides : Overrides}

theorem empty_rejected (namespace_ : String) :
    parsePermission "" namespace_ = .error (formatValidationError namespace_) := rfl

theorem finalize_carries (h : Invariant s) :
    List.Forall₂ (Carries s.namespace_) (checkedRows s) s.finalize := by
  unfold checkedRows ChecklistState.finalize
  rw [List.forall₂_map_left_iff, List.forall₂_map_right_iff, List.forall₂_same]
  intro cell hcell
  have hmem := (List.mem_filter.mp hcell).1
  obtain ⟨i, hi⟩ := List.mem_iff_getElem?.mp hmem
  rw [ChecklistState.cells, List.getElem?_zip_eq_some, List.getElem?_zip_eq_some] at hi
  obtain ⟨hrow, -, hinput⟩ := hi
  refine ⟨rfl, ?_, ?_, ?_⟩
  · intro heditable hne
    obtain ⟨parsed, hparsed⟩ := h.permissions i _ _ hrow heditable hinput hne
    refine ⟨parsed, hparsed, ?_⟩
    simp only [heditable, if_true, hparsed]
    rfl
  · intro heditable hempty
    have hinput : cell.2.2 = "" := hempty
    show (if cell.1.isEditable = true then (parsePermission cell.2.2 s.namespace_).toOption
      else none) = none
    rw [if_pos heditable, hinput, empty_rejected, Except.toOption]
  · intro hfixed
    simp only [hfixed, Bool.false_eq_true, if_false]

theorem submitted_of_exit {action : Action} (h : step s action = some (s', true)) :
    s'.submitted = true := by
  cases action with
  | moveUp => cases h
  | moveDown => cases h
  | push c => cases h
  | pop => cases h
  | cancel => cases h
  | toggle =>
    obtain ⟨toggled, -, heq⟩ := Option.map_eq_some_iff.mp h
    cases heq
  | activate =>
    have hactivate : s.activateHighlighted = some (s', true) := h
    unfold ChecklistState.activateHighlighted at hactivate
    split_ifs at hactivate with hediting hsubmit
    · obtain ⟨committed, -, heq⟩ := Option.map_eq_some_iff.mp hactivate
      cases heq
    · cases hstate : s.submitState with
      | mk can reason =>
        cases can with
        | true =>
          simp only [hstate] at hactivate
          cases hactivate
          rfl
        | false =>
          simp only [hstate] at hactivate
          cases hactivate
    · split at hactivate
      · split at hactivate <;> cases hactivate
      · cases hactivate

theorem new_invariant (hparse : AllParse overrides) :
    Invariant (.new endpoints cap namespace_ overrides) where
  checkedLength := List.length_map _
  permissionLength := List.length_map _
  highlighted := Nat.zero_le _
  editing := nofun
  permissions i row input hrow _ hinput hne := by
    have hcell : (ChecklistState.new endpoints cap namespace_ overrides).permissionInput[i]? =
        some (match Entries.lookup row.operationId overrides with
          | some p => displayPermission p.resource p.action
          | none => "") := by
      show (List.map _ (endpoints.map Row.fromEndpoint))[i]? = _
      rw [List.getElem?_map]
      exact congrArg _ hrow
    rw [hcell, Option.some.injEq] at hinput
    cases hlookup : Entries.lookup row.operationId overrides with
    | none =>
      rw [hlookup] at hinput
      exact absurd hinput.symm hne
    | some parsed =>
      rw [hlookup] at hinput
      obtain ⟨text, ns, htext⟩ := hparse _ _ hlookup
      exact ⟨parsed, hinput ▸ parsePermission_display htext namespace_⟩

theorem new_checkedCount :
    (ChecklistState.new endpoints cap namespace_ overrides).checkedCount =
      endpoints.countP fun endpoint => (Entries.lookup endpoint.operationId overrides).isSome := by
  show List.count true (List.map _ (List.map _ _)) = _
  rw [List.map_map, List.count, List.countP_map]
  refine List.countP_congr fun endpoint _ => ?_
  simp [Row.fromEndpoint]

theorem run_invariant (actions : List Action) (h : Invariant s) :
    ∃ s', run actions s = some s' ∧ Invariant s' ∧
      (s.checkedCount ≤ s.cap → s'.checkedCount ≤ s'.cap) := by
  induction actions generalizing s with
  | nil => exact ⟨s, rfl, h, id⟩
  | cons action actions ih =>
    obtain ⟨next, exit, hstep⟩ := step_some h action
    obtain ⟨hsame, heffect⟩ := step_effect hstep
    obtain ⟨s', hrun, hinvariant, hcap⟩ := ih (effect_invariant hsame heffect h)
    refine ⟨s', ?_, hinvariant, fun hfits => hcap (effect_cap hsame heffect hfits)⟩
    rw [run, List.foldlM_cons, hstep]
    exact hrun

theorem withinLimits_of_invariant (h : Invariant s) (hcap : s.checkedCount ≤ s.cap) :
    WithinLimits s := by
  refine ⟨hcap, h, fun action => ?_⟩
  obtain ⟨s', exit, hstep⟩ := step_some h action
  obtain ⟨hsame, heffect⟩ := step_effect hstep
  refine ⟨s', exit, hstep, fun i hi => effect_confined heffect hi, ?_⟩
  rintro rfl
  exact ⟨submitted_of_exit hstep, finalize_carries (effect_invariant hsame heffect h)⟩

/-- The checklist stays within its limits, whatever is done with it, exactly when the overrides
check no more endpoints than the cap allows. -/
theorem checklist_withinLimits_iff {permissionFlags : List String}
    (hoverrides : resolvePermissionOverrides endpoints namespace_ permissionFlags = .ok overrides)
    (cap : Nat) :
    (∀ actions, ∃ s, run actions (.new endpoints cap namespace_ overrides) = some s ∧
      WithinLimits s) ↔
    (endpoints.countP fun endpoint =>
      (Entries.lookup endpoint.operationId overrides).isSome) ≤ cap := by
  have hinvariant : Invariant (.new endpoints cap namespace_ overrides) :=
    new_invariant (resolvePermissionOverrides_parses hoverrides)
  constructor
  · intro h
    obtain ⟨s, hrun, hlimits⟩ := h []
    cases hrun
    have hcap := hlimits.cap
    rw [new_checkedCount] at hcap
    exact hcap
  · intro hcap actions
    obtain ⟨s, hrun, hinvariant', hkeeps⟩ := run_invariant actions hinvariant
    refine ⟨s, hrun, withinLimits_of_invariant hinvariant' (hkeeps ?_)⟩
    rw [new_checkedCount]
    exact hcap

end Limits

section Flags

open CsmApi

def firstDuplicate : List String → List String → Option String
  | _, [] => none
  | seen, id :: ids => if seen.contains id then some id else firstDuplicate (id :: seen) ids

/-- The endpoints that `--operation-ids` names, each once. -/
def selectedByIds (endpoints : List Endpoint) (ids : List String) :
    Except CliError (List Endpoint) :=
  match firstDuplicate [] ids with
  | some id => .error (.usage s!"--operation-ids '{id}' was given more than once" none)
  | none => ids.mapM fun id =>
    match endpoints.find? (·.operationId = id) with
    | none => .error (.usage s!"--operation-ids includes unknown operation id '{id}'" none)
    | some endpoint => .ok endpoint

/-- The choice without a checklist: the cap is looked at for every way to choose. -/
def resolveFromFlags (endpoints : List Endpoint) (cap : Nat) (operationIds : Option (List String))
    (overrides : Overrides) (app : String) : Except CliError (List EndpointSelection) :=
  let selected := match operationIds with
    | some ids => selectedByIds endpoints ids
    | none => .ok endpoints
  match selected with
  | .error e => .error e
  | .ok selected =>
    if selected.length > cap then
      .error (.usage s!"Too many endpoints ({selected.length}) — the limit for '{app}' is {cap}"
        (some (.withSuggestion "Use --operation-ids <id1,id2,...> to narrow the selection")))
    else .ok (selected.map fun endpoint =>
      ⟨endpoint.operationId, Entries.lookup endpoint.operationId overrides⟩)

theorem resolveFromFlags_within_cap {endpoints : List Endpoint} {cap : Nat}
    {operationIds : Option (List String)} {overrides : Overrides} {app : String}
    {selections : List EndpointSelection}
    (h : resolveFromFlags endpoints cap operationIds overrides app = .ok selections) :
    selections.length ≤ cap := by
  unfold resolveFromFlags at h
  simp only at h
  split at h
  · cases h
  · next selected hselected =>
    split_ifs at h with hmany
    cases h
    rw [List.length_map]
    exact Nat.le_of_not_lt hmany

end Flags

section Failing

def twoEndpoints : List Endpoint :=
  [⟨"GET", "/users", "op-1", true, none⟩, ⟨"DELETE", "/users", "op-2", true, none⟩]

/-- An override for one of them is within a cap of one. -/
theorem checklist_withinLimits_one :
    resolvePermissionOverrides twoEndpoints "ns" ["op-1=NS:ns:USER [READ]"] =
      .ok [("op-1", ⟨"NS:ns:USER", "READ"⟩)] ∧
    ∀ actions, ∃ s, run actions
      (.new twoEndpoints 1 "ns" [("op-1", ⟨"NS:ns:USER", "READ"⟩)]) = some s ∧ WithinLimits s := by
  have hoverrides : resolvePermissionOverrides twoEndpoints "ns" ["op-1=NS:ns:USER [READ]"] =
      .ok [("op-1", ⟨"NS:ns:USER", "READ"⟩)] := by decide
  exact ⟨hoverrides, (checklist_withinLimits_iff hoverrides 1).mpr (by decide)⟩

/-- Overrides for both check both at a cap of one. -/
theorem overrides_past_cap :
    resolvePermissionOverrides twoEndpoints "ns"
      ["op-1=NS:ns:USER [READ]", "op-2=NS:ns:USER [DELETE]"] =
        .ok [("op-1", ⟨"NS:ns:USER", "READ"⟩), ("op-2", ⟨"NS:ns:USER", "DELETE"⟩)] ∧
    ¬ (ChecklistState.new twoEndpoints 1 "ns" [("op-1", ⟨"NS:ns:USER", "READ"⟩),
      ("op-2", ⟨"NS:ns:USER", "DELETE"⟩)]).checkedCount ≤ 1 := by
  decide

end Failing

end Checklist
