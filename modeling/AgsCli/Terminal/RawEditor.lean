import AgsCli.Library.ByteSlices
import AgsCli.Library.TextBuffer
import AgsCli.Library.UrlPaths
import Mathlib.Algebra.Order.Ring.Int

/-! # The raw text editor

The multiline editor of a JSON body: lines, a cursor in characters, and edits at byte offsets. It
acts on its text as a flat buffer does. -/
namespace RawEditing

open ByteSlices TextBuffer

/-- A line is its characters. -/
structure RawEditor where
  lines : List (List Char)
  cursor : Nat × Nat
  error : Option String
  deriving DecidableEq

/-- `char_indices`, from a byte offset on. -/
def charIndices : Nat → List Char → List (Nat × Char)
  | _, [] => []
  | offset, c :: line => (offset, c) :: charIndices (offset + c.utf8Size) line

def charToByte (line : List Char) (col : Nat) : Nat :=
  match (charIndices 0 line)[col]? with
  | some (byte, _) => byte
  | none => String.utf8Len line

def charLen (line : List Char) : Nat := line.length

/-- `String::insert`; like the other edits it panics off a character boundary. -/
def insertAt (byte : Nat) (c : Char) (line : List Char) : Option (List Char) :=
  (cut byte line).map fun parts => parts.1 ++ c :: parts.2

def removeAt (byte : Nat) (line : List Char) : Option (List Char) :=
  (cut byte line).bind fun parts =>
    match parts.2 with
    | [] => none
    | _ :: rest => some (parts.1 ++ rest)

def insertLine (index : Nat) (line : List Char) (lines : List (List Char)) :
    Option (List (List Char)) :=
  if index ≤ lines.length then some (lines.insertIdx index line) else none

namespace RawEditor

def fromSeed (text : String) : RawEditor where
  lines := if text.isEmpty then [[]] else text.toList.splitOn '\n'
  cursor := (0, 0)
  error := none

def toText (e : RawEditor) : String := String.ofList (['\n'].intercalate e.lines)

def insertChar (c : Char) (e : RawEditor) : Option RawEditor := do
  let (row, col) := e.cursor
  let line ← e.lines[row]?
  let line ← insertAt (charToByte line col) c line
  return { lines := e.lines.set row line, cursor := (row, col + 1), error := none }

def insertStr (s : String) (e : RawEditor) : Option RawEditor :=
  s.toList.foldlM (fun e c => e.insertChar c) e

def insertNewline (e : RawEditor) : Option RawEditor := do
  let (row, col) := e.cursor
  let line ← e.lines[row]?
  let (line, tail) ← cut (charToByte line col) line
  let lines ← insertLine (row + 1) tail (e.lines.set row line)
  return { lines, cursor := (row + 1, 0), error := none }

def backspace (e : RawEditor) : Option RawEditor :=
  let (row, col) := e.cursor
  if col > 0 then do
    let line ← e.lines[row]?
    let line ← removeAt (charToByte line (col - 1)) line
    return { lines := e.lines.set row line, cursor := (row, col - 1), error := none }
  else if row > 0 then do
    let prev ← e.lines[row - 1]?
    let current ← e.lines[row]?
    return { lines := (e.lines.eraseIdx row).set (row - 1) (prev ++ current)
             cursor := (row - 1, charLen prev)
             error := none }
  else some { e with error := none }

def delete (e : RawEditor) : Option RawEditor := do
  let (row, col) := e.cursor
  let line ← e.lines[row]?
  if col < charLen line then
    let line ← removeAt (charToByte line col) line
    return { e with lines := e.lines.set row line, error := none }
  else if row + 1 < e.lines.length then
    let next ← e.lines[row + 1]?
    return { e with lines := (e.lines.eraseIdx (row + 1)).set row (line ++ next), error := none }
  else return { e with error := none }

def moveLeft (e : RawEditor) : Option RawEditor :=
  let (row, col) := e.cursor
  if col > 0 then some { e with cursor := (row, col - 1) }
  else if row > 0 then do
    let prev ← e.lines[row - 1]?
    return { e with cursor := (row - 1, charLen prev) }
  else some e

def moveRight (e : RawEditor) : Option RawEditor := do
  let (row, col) := e.cursor
  let line ← e.lines[row]?
  if col < charLen line then return { e with cursor := (row, col + 1) }
  else if row + 1 < e.lines.length then return { e with cursor := (row + 1, 0) }
  else return e

def moveUp (e : RawEditor) : Option RawEditor :=
  let (row, col) := e.cursor
  if row > 0 then do
    let prev ← e.lines[row - 1]?
    return { e with cursor := (row - 1, min col (charLen prev)) }
  else some e

def moveDown (e : RawEditor) : Option RawEditor :=
  let (row, col) := e.cursor
  if row + 1 < e.lines.length then do
    let next ← e.lines[row + 1]?
    return { e with cursor := (row + 1, min col (charLen next)) }
  else some e

def moveHome (e : RawEditor) : Option RawEditor := some { e with cursor := (e.cursor.1, 0) }

def moveEnd (e : RawEditor) : Option RawEditor := do
  let line ← e.lines[e.cursor.1]?
  return { e with cursor := (e.cursor.1, charLen line) }

end RawEditor

inductive KeyCode
  | char (c : Char)
  | enter
  | backspace
  | delete
  | left
  | right
  | up
  | down
  | home
  | «end»
  | tab
  | esc
  | other
  deriving DecidableEq

structure KeyModifiers where
  shift : Bool
  control : Bool
  alt : Bool
  deriving DecidableEq

structure KeyEvent where
  code : KeyCode
  modifiers : KeyModifiers
  deriving DecidableEq

inductive RawStep
  | continue
  | commit
  | cancel
  | toTree
  deriving DecidableEq

/-- Nothing is a panic. -/
def dispatch (e : RawEditor) (key : KeyEvent) : Option (RawEditor × RawStep) :=
  let go (edited : Option RawEditor) := edited.map fun e => (e, RawStep.continue)
  match key.code with
  | .char c =>
    if key.modifiers.control then
      if c = 's' then some (e, .commit)
      else if c = 'r' then some (e, .toTree)
      else some (e, .continue)
    else go (e.insertChar c)
  | .esc => some (e, .cancel)
  | .enter => go e.insertNewline
  | .backspace => go e.backspace
  | .delete => go e.delete
  | .left => go e.moveLeft
  | .right => go e.moveRight
  | .up => go e.moveUp
  | .down => go e.moveDown
  | .home => go e.moveHome
  | .end => go e.moveEnd
  | .tab => go (e.insertStr "  ")
  | .other => some (e, .continue)

def run (keys : List KeyEvent) (e : RawEditor) : Option RawEditor :=
  keys.foldlM (fun e key => (dispatch e key).map (·.1)) e

def flat (e : RawEditor) : Buffer Char where
  text := e.toText.toList
  offset := ((e.lines.take e.cursor.1).map fun line => charLen line + 1).sum + e.cursor.2

def flatStep (b : Buffer Char) (key : KeyEvent) : Buffer Char :=
  match key.code with
  | .char c => if key.modifiers.control then b else b.insert c
  | .enter => b.insert '\n'
  | .backspace => b.backspace
  | .delete => b.delete
  | .left => b.left
  | .right => b.right
  | .up => b.up '\n'
  | .down => b.down '\n'
  | .home => b.home '\n'
  | .end => b.toEnd '\n'
  | .tab => (b.insert ' ').insert ' '
  | .esc => b
  | .other => b

structure Valid (e : RawEditor) : Prop where
  row : e.cursor.1 < e.lines.length
  col : ∀ line, e.lines[e.cursor.1]? = some line → e.cursor.2 ≤ charLen line
  plain : ∀ line ∈ e.lines, '\n' ∉ line

/-- The lines around the cursor's, and its two sides. -/
structure Shows (e : RawEditor) (before : List (List Char)) (left right : List Char)
    (after : List (List Char)) : Prop where
  lines : e.lines = before ++ (left ++ right) :: after
  cursor : e.cursor = (before.length, left.length)
  plainBefore : ∀ line ∈ before, '\n' ∉ line
  plainLeft : '\n' ∉ left
  plainRight : '\n' ∉ right
  plainAfter : ∀ line ∈ after, '\n' ∉ line

section Positions

variable {e : RawEditor} {before after : List (List Char)} {left right : List Char}

theorem shows_of_valid (h : Valid e) :
    ∃ before left right after, Shows e before left right after := by
  obtain ⟨hrow, hcol, hplain⟩ := h
  have hline : e.lines[e.cursor.1]? = some e.lines[e.cursor.1] := List.getElem?_eq_getElem hrow
  have hbound : e.cursor.2 ≤ e.lines[e.cursor.1].length := hcol _ hline
  have hcurrent := hplain _ (List.getElem_mem hrow)
  refine ⟨e.lines.take e.cursor.1, e.lines[e.cursor.1].take e.cursor.2,
    e.lines[e.cursor.1].drop e.cursor.2, e.lines.drop (e.cursor.1 + 1), ?_, ?_, ?_, ?_, ?_, ?_⟩
  · rw [List.take_append_drop, ← List.drop_eq_getElem_cons, List.take_append_drop]
  · rw [List.length_take_of_le hrow.le, List.length_take_of_le hbound]
  · exact fun line hmem => hplain line (List.mem_of_mem_take hmem)
  · exact fun hmem => hcurrent (List.mem_of_mem_take hmem)
  · exact fun hmem => hcurrent (List.mem_of_mem_drop hmem)
  · exact fun line hmem => hplain line (List.mem_of_mem_drop hmem)

theorem valid_of_shows (h : Shows e before left right after) : Valid e := by
  obtain ⟨hlines, hcursor, hbefore, hleft, hright, hafter⟩ := h
  refine ⟨?_, ?_, ?_⟩
  · rw [hcursor, hlines]
    simp
  · intro line hline
    rw [hcursor, hlines] at hline
    rw [hcursor]
    have heq : left ++ right = line := by simpa using hline
    rw [charLen, ← heq, List.length_append]
    exact Nat.le_add_right _ _
  · intro line hline
    rw [hlines] at hline
    rcases List.mem_append.mp hline with hmem | hmem
    · exact hbefore line hmem
    · rcases List.mem_cons.mp hmem with rfl | hmem
      · exact fun hc => (List.mem_append.mp hc).elim hleft hright
      · exact hafter line hmem

theorem flat_shows (h : Shows e before left right after) :
    flat e = between (leading '\n' before ++ left) (right ++ trailing '\n' after) := by
  have hlength : (before.map fun line => charLen line + 1).sum = (leading '\n' before).length := by
    simp [leading, charLen, List.length_flatMap]
  have htake : (before ++ (left ++ right) :: after).take before.length = before := by simp
  rw [flat, RawEditor.toText, String.toList_ofList, h.lines, h.cursor, htake, hlength, between,
    intercalate_around, List.length_append]
  simp only [List.append_assoc]

theorem charIndices_append (offset : Nat) (left right : List Char) :
    (charIndices offset (left ++ right))[left.length]? =
      right.head?.map fun c => (offset + String.utf8Len left, c) := by
  induction left generalizing offset with
  | nil => cases right <;> simp [charIndices]
  | cons c left ih =>
    rw [List.cons_append, charIndices, List.length_cons, List.getElem?_cons_succ, ih,
      String.utf8Len_cons]
    congr 1
    funext d
    rw [Nat.add_assoc, Nat.add_comm c.utf8Size]

/-- The column's byte is the boundary between the two sides. -/
theorem charToByte_append (left right : List Char) :
    charToByte (left ++ right) left.length = String.utf8Len left := by
  rw [charToByte, charIndices_append]
  cases right with
  | nil => simp
  | cons c right => simp

end Positions

section Lines

variable {before after : List (List Char)} {line : List Char}

theorem getElem_around : (before ++ line :: after)[before.length]? = some line := by simp

theorem set_around (line' : List Char) :
    (before ++ line :: after).set before.length line' = before ++ line' :: after := by simp

theorem insertLine_around (next : List Char) :
    insertLine (before.length + 1) next (before ++ line :: after) =
      some (before ++ line :: next :: after) := by
  have hbound : before.length + 1 ≤ (before ++ line :: after).length := by
    rw [List.length_append, List.length_cons]
    omega
  rw [insertLine, if_pos hbound, Option.some.injEq]
  induction before with
  | nil => rfl
  | cons first before ih =>
    rw [List.length_cons, List.cons_append, List.insertIdx_succ_cons, ih]
    · rfl
    · rw [List.length_append, List.length_cons]
      omega

/-- The line under another is taken out and put behind it. -/
theorem join_around (next joined : List Char) :
    ((before ++ line :: next :: after).eraseIdx (before.length + 1)).set before.length joined =
      before ++ joined :: after := by
  rw [List.eraseIdx_append_of_length_le (Nat.le_succ _), Nat.succ_sub (Nat.le_refl _),
    Nat.sub_self]
  exact set_around joined

end Lines

section Operations

variable {e : RawEditor} {before after : List (List Char)} {left right : List Char}

theorem insertChar_shows (h : Shows e before left right after) {c : Char} (hc : c ≠ '\n') :
    ∃ e', e.insertChar c = some e' ∧ Shows e' before (left ++ [c]) right after := by
  obtain ⟨hlines, hcursor, hbefore, hleft, hright, hafter⟩ := h
  refine ⟨⟨before ++ (left ++ c :: right) :: after, (before.length, left.length + 1), none⟩, ?_, ?_⟩
  · simp only [RawEditor.insertChar, hcursor, hlines, getElem_around, insertAt, charToByte_append,
      cut_append, Option.bind_eq_bind, Option.bind_some, Option.map_some, set_around]
    rfl
  · refine ⟨by simp, by simp, hbefore, ?_, hright, hafter⟩
    simpa [hleft] using hc.symm

theorem insertNewline_shows (h : Shows e before left right after) :
    ∃ e', e.insertNewline = some e' ∧ Shows e' (before ++ [left]) [] right after := by
  obtain ⟨hlines, hcursor, hbefore, hleft, hright, hafter⟩ := h
  refine ⟨⟨before ++ left :: right :: after, (before.length + 1, 0), none⟩, ?_, ?_⟩
  · simp only [RawEditor.insertNewline, hcursor, hlines, getElem_around, charToByte_append,
      cut_append, Option.bind_eq_bind, Option.bind_some, set_around, insertLine_around]
    rfl
  · refine ⟨by simp, by simp, ?_, List.not_mem_nil, hright, hafter⟩
    intro line hline
    rcases List.mem_append.mp hline with hmem | hmem
    · exact hbefore line hmem
    · rwa [List.mem_singleton.mp hmem]

/-- A character in front of the cursor goes. -/
theorem backspace_shows_char {c : Char} (h : Shows e before (left ++ [c]) right after) :
    ∃ e', e.backspace = some e' ∧ Shows e' before left right after := by
  obtain ⟨hlines, hcursor, hbefore, hleft, hright, hafter⟩ := h
  have hcut : removeAt (charToByte (left ++ c :: right) left.length) (left ++ c :: right) =
      some (left ++ right) := by
    rw [charToByte_append, removeAt, cut_append]
    rfl
  rw [List.append_assoc, List.singleton_append] at hlines
  rw [List.length_append, List.length_singleton] at hcursor
  refine ⟨⟨before ++ (left ++ right) :: after, (before.length, left.length), none⟩, ?_, ?_⟩
  · simp only [RawEditor.backspace, hcursor, hlines, Nat.zero_lt_succ, if_true, getElem_around,
      Nat.add_sub_cancel, hcut, Option.bind_eq_bind, Option.bind_some, set_around]
    rfl
  · exact ⟨rfl, rfl, hbefore, fun hmem => hleft (List.mem_append_left _ hmem), hright, hafter⟩

theorem backspace_shows_join {above : List Char} (h : Shows e (before ++ [above]) [] right after) :
    ∃ e', e.backspace = some e' ∧ Shows e' before above right after := by
  obtain ⟨hlines, hcursor, hbefore, hleft, hright, hafter⟩ := h
  rw [List.append_assoc, List.singleton_append, List.nil_append] at hlines
  rw [List.length_append, List.length_singleton] at hcursor
  have hcurrent : (before ++ above :: right :: after)[before.length + 1]? = some right := by simp
  refine ⟨⟨before ++ (above ++ right) :: after, (before.length, above.length), none⟩, ?_, ?_⟩
  · simp only [RawEditor.backspace, hcursor, hlines, List.length_nil, Nat.lt_irrefl,
      Nat.zero_lt_succ, if_true, if_false, Nat.add_sub_cancel, getElem_around, hcurrent,
      Option.bind_eq_bind, Option.bind_some, join_around, charLen, gt_iff_lt]
    rfl
  · refine ⟨rfl, rfl, fun line hmem => hbefore line (List.mem_append_left _ hmem), ?_, hright,
      hafter⟩
    exact hbefore above (List.mem_append_right _ List.mem_cons_self)

theorem backspace_shows_start (h : Shows e [] [] right after) :
    ∃ e', e.backspace = some e' ∧ Shows e' [] [] right after := by
  obtain ⟨hlines, hcursor, hbefore, hleft, hright, hafter⟩ := h
  refine ⟨{ e with error := none }, ?_, hlines, hcursor, hbefore, hleft, hright, hafter⟩
  simp only [RawEditor.backspace, hcursor, List.length_nil, Nat.lt_irrefl, if_false, gt_iff_lt]

theorem delete_shows_char {c : Char} (h : Shows e before left (c :: right) after) :
    ∃ e', e.delete = some e' ∧ Shows e' before left right after := by
  obtain ⟨hlines, hcursor, hbefore, hleft, hright, hafter⟩ := h
  have hcut : removeAt (charToByte (left ++ c :: right) left.length) (left ++ c :: right) =
      some (left ++ right) := by
    rw [charToByte_append, removeAt, cut_append]
    rfl
  have hcol : left.length < charLen (left ++ c :: right) := by simp [charLen]
  refine ⟨⟨before ++ (left ++ right) :: after, (before.length, left.length), none⟩, ?_, ?_⟩
  · simp only [RawEditor.delete, hcursor, hlines, getElem_around, hcol, if_true, hcut,
      Option.bind_eq_bind, Option.bind_some, set_around]
    rfl
  · exact ⟨rfl, rfl, hbefore, hleft, fun hmem => hright (List.mem_cons_of_mem _ hmem), hafter⟩

theorem delete_shows_join {next : List Char} (h : Shows e before left [] (next :: after)) :
    ∃ e', e.delete = some e' ∧ Shows e' before left next after := by
  obtain ⟨hlines, hcursor, hbefore, hleft, hright, hafter⟩ := h
  rw [List.append_nil] at hlines
  have hrow : before.length + 1 < (before ++ left :: next :: after).length := by simp
  have hnext : (before ++ left :: next :: after)[before.length + 1]? = some next := by simp
  refine ⟨⟨before ++ (left ++ next) :: after, (before.length, left.length), none⟩, ?_, ?_⟩
  · simp only [RawEditor.delete, hcursor, hlines, getElem_around, charLen, Nat.lt_irrefl, if_false,
      hrow, if_true, hnext, Option.bind_eq_bind, Option.bind_some, join_around]
    rfl
  · exact ⟨rfl, rfl, hbefore, hleft, hafter next List.mem_cons_self,
      fun line hmem => hafter line (List.mem_cons_of_mem _ hmem)⟩

theorem delete_shows_stop (h : Shows e before left [] []) :
    ∃ e', e.delete = some e' ∧ Shows e' before left [] [] := by
  obtain ⟨hlines, hcursor, hbefore, hleft, hright, hafter⟩ := h
  refine ⟨{ e with error := none }, ?_, hlines, hcursor, hbefore, hleft, hright, hafter⟩
  rw [List.append_nil] at hlines
  have hrow : ¬ before.length + 1 < (before ++ [left]).length := by simp
  simp only [RawEditor.delete, hcursor, hlines, getElem_around, charLen, Nat.lt_irrefl, if_false,
    hrow, Option.bind_eq_bind, Option.bind_some]
  rfl

theorem moveLeft_shows_char {c : Char} (h : Shows e before (left ++ [c]) right after) :
    ∃ e', e.moveLeft = some e' ∧ Shows e' before left (c :: right) after := by
  obtain ⟨hlines, hcursor, hbefore, hleft, hright, hafter⟩ := h
  rw [List.append_assoc, List.singleton_append] at hlines
  rw [List.length_append, List.length_singleton] at hcursor
  refine ⟨{ e with cursor := (before.length, left.length) }, ?_, ?_⟩
  · simp only [RawEditor.moveLeft, hcursor, gt_iff_lt, Nat.zero_lt_succ, if_true,
      Nat.add_sub_cancel]
  · refine ⟨hlines, rfl, hbefore, fun hmem => hleft (List.mem_append_left _ hmem), ?_, hafter⟩
    intro hmem
    rcases List.mem_cons.mp hmem with hc | hmem
    · exact hleft (List.mem_append_right _ (List.mem_singleton.mpr hc))
    · exact hright hmem

theorem moveLeft_shows_wrap {above : List Char} (h : Shows e (before ++ [above]) [] right after) :
    ∃ e', e.moveLeft = some e' ∧ Shows e' before above [] (right :: after) := by
  obtain ⟨hlines, hcursor, hbefore, hleft, hright, hafter⟩ := h
  rw [List.append_assoc, List.singleton_append, List.nil_append] at hlines
  rw [List.length_append, List.length_singleton] at hcursor
  refine ⟨{ e with cursor := (before.length, above.length) }, ?_, ?_⟩
  · simp only [RawEditor.moveLeft, hcursor, hlines, List.length_nil, gt_iff_lt, Nat.lt_irrefl,
      if_false, Nat.zero_lt_succ, if_true, Nat.add_sub_cancel, getElem_around, charLen,
      Option.bind_eq_bind, Option.bind_some]
    rfl
  · refine ⟨by rw [List.append_nil]; exact hlines, rfl,
      fun line hmem => hbefore line (List.mem_append_left _ hmem),
      hbefore above (List.mem_append_right _ List.mem_cons_self), List.not_mem_nil, ?_⟩
    intro line hmem
    rcases List.mem_cons.mp hmem with rfl | hmem
    · exact hright
    · exact hafter line hmem

theorem moveLeft_shows_start (h : Shows e [] [] right after) : e.moveLeft = some e := by
  simp only [RawEditor.moveLeft, h.cursor, List.length_nil, gt_iff_lt, Nat.lt_irrefl, if_false]

theorem moveRight_shows_char {c : Char} (h : Shows e before left (c :: right) after) :
    ∃ e', e.moveRight = some e' ∧ Shows e' before (left ++ [c]) right after := by
  obtain ⟨hlines, hcursor, hbefore, hleft, hright, hafter⟩ := h
  have hcol : left.length < charLen (left ++ c :: right) := by simp [charLen]
  refine ⟨{ e with cursor := (before.length, left.length + 1) }, ?_, ?_⟩
  · simp only [RawEditor.moveRight, hcursor, hlines, getElem_around, hcol, if_true,
      Option.bind_eq_bind, Option.bind_some]
    rfl
  · refine ⟨by rw [List.append_assoc]; exact hlines, by simp, hbefore, ?_,
      fun hmem => hright (List.mem_cons_of_mem _ hmem), hafter⟩
    intro hmem
    rcases List.mem_append.mp hmem with hmem | hc
    · exact hleft hmem
    · exact hright (List.mem_singleton.mp hc ▸ List.mem_cons_self)

theorem moveRight_shows_wrap {next : List Char} (h : Shows e before left [] (next :: after)) :
    ∃ e', e.moveRight = some e' ∧ Shows e' (before ++ [left]) [] next after := by
  obtain ⟨hlines, hcursor, hbefore, hleft, hright, hafter⟩ := h
  rw [List.append_nil] at hlines
  have hrow : before.length + 1 < (before ++ left :: next :: after).length := by simp
  refine ⟨{ e with cursor := (before.length + 1, 0) }, ?_, ?_⟩
  · simp only [RawEditor.moveRight, hcursor, hlines, getElem_around, charLen, Nat.lt_irrefl,
      if_false, hrow, if_true, Option.bind_eq_bind, Option.bind_some]
    rfl
  · refine ⟨by rw [List.append_assoc]; exact hlines, by simp, ?_, List.not_mem_nil,
      hafter next List.mem_cons_self, fun line hmem => hafter line (List.mem_cons_of_mem _ hmem)⟩
    intro line hline
    rcases List.mem_append.mp hline with hmem | hmem
    · exact hbefore line hmem
    · rwa [List.mem_singleton.mp hmem]

theorem moveRight_shows_stop (h : Shows e before left [] []) : e.moveRight = some e := by
  obtain ⟨hlines, hcursor, hbefore, hleft, hright, hafter⟩ := h
  rw [List.append_nil] at hlines
  have hrow : ¬ before.length + 1 < (before ++ [left]).length := by simp
  simp only [RawEditor.moveRight, hcursor, hlines, getElem_around, charLen, Nat.lt_irrefl, if_false,
    hrow, Option.bind_eq_bind, Option.bind_some]
  rfl

theorem moveUp_shows {above : List Char} (h : Shows e (before ++ [above]) left right after) :
    ∃ e', e.moveUp = some e' ∧ Shows e' before (above.take left.length) (above.drop left.length)
      ((left ++ right) :: after) := by
  obtain ⟨hlines, hcursor, hbefore, hleft, hright, hafter⟩ := h
  rw [List.append_assoc, List.singleton_append] at hlines
  rw [List.length_append, List.length_singleton] at hcursor
  have habove := hbefore above (List.mem_append_right _ List.mem_cons_self)
  refine ⟨{ e with cursor := (before.length, min left.length above.length) }, ?_, ?_⟩
  · simp only [RawEditor.moveUp, hcursor, hlines, gt_iff_lt, Nat.zero_lt_succ, if_true,
      Nat.add_sub_cancel, getElem_around, charLen, Option.bind_eq_bind, Option.bind_some]
    rfl
  · refine ⟨by rw [List.take_append_drop]; exact hlines, by rw [List.length_take],
      fun line hmem => hbefore line (List.mem_append_left _ hmem),
      fun hmem => habove (List.mem_of_mem_take hmem),
      fun hmem => habove (List.mem_of_mem_drop hmem), ?_⟩
    intro line hmem
    rcases List.mem_cons.mp hmem with rfl | hmem
    · exact fun hc => (List.mem_append.mp hc).elim hleft hright
    · exact hafter line hmem

theorem moveUp_shows_first (h : Shows e [] left right after) : e.moveUp = some e := by
  simp only [RawEditor.moveUp, h.cursor, List.length_nil, gt_iff_lt, Nat.lt_irrefl, if_false]

theorem moveDown_shows {next : List Char} (h : Shows e before left right (next :: after)) :
    ∃ e', e.moveDown = some e' ∧ Shows e' (before ++ [left ++ right]) (next.take left.length)
      (next.drop left.length) after := by
  obtain ⟨hlines, hcursor, hbefore, hleft, hright, hafter⟩ := h
  have hnext := hafter next List.mem_cons_self
  have hrow : before.length + 1 < (before ++ (left ++ right) :: next :: after).length := by simp
  have hbelow : (before ++ (left ++ right) :: next :: after)[before.length + 1]? = some next := by
    simp
  refine ⟨{ e with cursor := (before.length + 1, min left.length next.length) }, ?_, ?_⟩
  · simp only [RawEditor.moveDown, hcursor, hlines, hrow, if_true, hbelow, charLen,
      Option.bind_eq_bind, Option.bind_some]
    rfl
  · refine ⟨by rw [List.take_append_drop, List.append_assoc]; exact hlines, by simp, ?_,
      fun hmem => hnext (List.mem_of_mem_take hmem), fun hmem => hnext (List.mem_of_mem_drop hmem),
      fun line hmem => hafter line (List.mem_cons_of_mem _ hmem)⟩
    intro line hline
    rcases List.mem_append.mp hline with hmem | hmem
    · exact hbefore line hmem
    · rw [List.mem_singleton.mp hmem]
      exact fun hc => (List.mem_append.mp hc).elim hleft hright

theorem moveDown_shows_last (h : Shows e before left right []) : e.moveDown = some e := by
  have hrow : ¬ before.length + 1 < (before ++ [left ++ right]).length := by simp
  simp only [RawEditor.moveDown, h.cursor, h.lines, hrow, if_false]

theorem moveHome_shows (h : Shows e before left right after) :
    ∃ e', e.moveHome = some e' ∧ Shows e' before [] (left ++ right) after := by
  obtain ⟨hlines, hcursor, hbefore, hleft, hright, hafter⟩ := h
  refine ⟨{ e with cursor := (before.length, 0) }, ?_, hlines, rfl, hbefore, List.not_mem_nil, ?_,
    hafter⟩
  · rw [RawEditor.moveHome, hcursor]
  · exact fun hc => (List.mem_append.mp hc).elim hleft hright

theorem moveEnd_shows (h : Shows e before left right after) :
    ∃ e', e.moveEnd = some e' ∧ Shows e' before (left ++ right) [] after := by
  obtain ⟨hlines, hcursor, hbefore, hleft, hright, hafter⟩ := h
  refine ⟨{ e with cursor := (before.length, (left ++ right).length) }, ?_, ?_⟩
  · simp only [RawEditor.moveEnd, hcursor, hlines, getElem_around, charLen, Option.bind_eq_bind,
      Option.bind_some]
    rfl
  · exact ⟨by rw [List.append_nil]; exact hlines, rfl, hbefore,
      fun hc => (List.mem_append.mp hc).elim hleft hright, List.not_mem_nil, hafter⟩

end Operations

/-- An operation of the editor acts on the flat text as one of the buffer does. -/
def Follows (op : RawEditor → Option RawEditor) (f : Buffer Char → Buffer Char) : Prop :=
  ∀ e, Valid e → ∃ e', op e = some e' ∧ Valid e' ∧ flat e' = f (flat e)

section Simulation

variable {op : RawEditor → Option RawEditor} {f : Buffer Char → Buffer Char} {e : RawEditor}
  {before before' after after' : List (List Char)} {left left' right right' : List Char}

theorem follow_of_shows (h : Shows e before left right after)
    (hop : ∃ e', op e = some e' ∧ Shows e' before' left' right' after')
    (hflat : f (between (leading '\n' before ++ left) (right ++ trailing '\n' after)) =
      between (leading '\n' before' ++ left') (right' ++ trailing '\n' after')) :
    ∃ e', op e = some e' ∧ Valid e' ∧ flat e' = f (flat e) := by
  obtain ⟨e', hsome, hshows⟩ := hop
  exact ⟨e', hsome, valid_of_shows hshows, by rw [flat_shows hshows, flat_shows h, hflat]⟩

theorem follow_of_same (h : Shows e before left right after) (hop : op e = some e)
    (hflat : f (between (leading '\n' before ++ left) (right ++ trailing '\n' after)) =
      between (leading '\n' before ++ left) (right ++ trailing '\n' after)) :
    ∃ e', op e = some e' ∧ Valid e' ∧ flat e' = f (flat e) :=
  follow_of_shows h ⟨e, hop, h⟩ hflat

theorem insertChar_follows {c : Char} (hc : c ≠ '\n') :
    Follows (RawEditor.insertChar c) (Buffer.insert c) := by
  intro e hvalid
  obtain ⟨before, left, right, after, h⟩ := shows_of_valid hvalid
  refine follow_of_shows h (insertChar_shows h hc) ?_
  rw [insert_between, List.append_assoc]

theorem insertNewline_follows : Follows RawEditor.insertNewline (Buffer.insert '\n') := by
  intro e hvalid
  obtain ⟨before, left, right, after, h⟩ := shows_of_valid hvalid
  refine follow_of_shows h (insertNewline_shows h) ?_
  rw [insert_between, leading_concat, List.append_nil]

theorem backspace_follows : Follows RawEditor.backspace Buffer.backspace := by
  intro e hvalid
  obtain ⟨before, left, right, after, h⟩ := shows_of_valid hvalid
  rcases List.eq_nil_or_concat left with rfl | ⟨left, c, rfl⟩
  · rcases List.eq_nil_or_concat before with rfl | ⟨before, above, rfl⟩
    · exact follow_of_shows h (backspace_shows_start h) backspace_start
    · rw [List.concat_eq_append] at h
      refine follow_of_shows h (backspace_shows_join h) ?_
      rw [leading_concat, List.append_nil, backspace_between]
  · rw [List.concat_eq_append] at h
    refine follow_of_shows h (backspace_shows_char h) ?_
    rw [← List.append_assoc, backspace_between]

theorem delete_follows : Follows RawEditor.delete Buffer.delete := by
  intro e hvalid
  obtain ⟨before, left, right, after, h⟩ := shows_of_valid hvalid
  cases right with
  | nil =>
    cases after with
    | nil => exact follow_of_shows h (delete_shows_stop h) delete_stop
    | cons next after =>
      refine follow_of_shows h (delete_shows_join h) ?_
      rw [trailing_cons, List.nil_append, List.cons_append, delete_between]
  | cons c right =>
    refine follow_of_shows h (delete_shows_char h) ?_
    rw [List.cons_append, delete_between]

theorem moveLeft_follows : Follows RawEditor.moveLeft Buffer.left := by
  intro e hvalid
  obtain ⟨before, left, right, after, h⟩ := shows_of_valid hvalid
  rcases List.eq_nil_or_concat left with rfl | ⟨left, c, rfl⟩
  · rcases List.eq_nil_or_concat before with rfl | ⟨before, above, rfl⟩
    · exact follow_of_same h (moveLeft_shows_start h) left_start
    · rw [List.concat_eq_append] at h
      refine follow_of_shows h (moveLeft_shows_wrap h) ?_
      rw [leading_concat, List.append_nil, left_between, trailing_cons, List.nil_append,
        List.cons_append]
  · rw [List.concat_eq_append] at h
    refine follow_of_shows h (moveLeft_shows_char h) ?_
    rw [← List.append_assoc, left_between, List.cons_append]

theorem moveRight_follows : Follows RawEditor.moveRight Buffer.right := by
  intro e hvalid
  obtain ⟨before, left, right, after, h⟩ := shows_of_valid hvalid
  cases right with
  | nil =>
    cases after with
    | nil => exact follow_of_same h (moveRight_shows_stop h) right_stop
    | cons next after =>
      refine follow_of_shows h (moveRight_shows_wrap h) ?_
      rw [trailing_cons, List.nil_append, List.cons_append, right_between, leading_concat,
        List.append_nil]
  | cons c right =>
    refine follow_of_shows h (moveRight_shows_char h) ?_
    rw [List.cons_append, right_between, List.append_assoc]

theorem moveHome_follows : Follows RawEditor.moveHome (Buffer.home '\n') := by
  intro e hvalid
  obtain ⟨before, left, right, after, h⟩ := shows_of_valid hvalid
  refine follow_of_shows h (moveHome_shows h) ?_
  rw [home_between h.plainLeft, List.append_nil, List.append_assoc]

theorem moveEnd_follows : Follows RawEditor.moveEnd (Buffer.toEnd '\n') := by
  intro e hvalid
  obtain ⟨before, left, right, after, h⟩ := shows_of_valid hvalid
  refine follow_of_shows h (moveEnd_shows h) ?_
  rw [toEnd_between h.plainRight, List.nil_append, List.append_assoc]

theorem moveUp_follows : Follows RawEditor.moveUp (Buffer.up '\n') := by
  intro e hvalid
  obtain ⟨before, left, right, after, h⟩ := shows_of_valid hvalid
  rcases List.eq_nil_or_concat before with rfl | ⟨before, above, rfl⟩
  · exact follow_of_same h (moveUp_shows_first h) (up_first h.plainLeft)
  · rw [List.concat_eq_append] at h
    have habove := h.plainBefore above (List.mem_append_right _ List.mem_cons_self)
    refine follow_of_shows h (moveUp_shows h) ?_
    rw [up_between habove h.plainLeft, trailing_cons]
    simp only [List.append_assoc, List.cons_append]

theorem moveDown_follows : Follows RawEditor.moveDown (Buffer.down '\n') := by
  intro e hvalid
  obtain ⟨before, left, right, after, h⟩ := shows_of_valid hvalid
  cases after with
  | nil =>
    refine follow_of_same h (moveDown_shows_last h) ?_
    have hplain : '\n' ∉ right ++ trailing '\n' [] := by
      rw [trailing, List.flatMap_nil, List.append_nil]
      exact h.plainRight
    exact down_last hplain
  | cons next after =>
    refine follow_of_shows h (moveDown_shows h) ?_
    rw [down_between h.plainLeft h.plainRight (h.plainAfter next List.mem_cons_self)]

theorem insertStr_follows : Follows (RawEditor.insertStr "  ")
    fun b => (b.insert ' ').insert ' ' := by
  intro e hvalid
  obtain ⟨first, hfirst, hvalid', hflat⟩ :=
    insertChar_follows (show ' ' ≠ '\n' by decide) e hvalid
  obtain ⟨second, hsecond, hvalid'', hflat'⟩ :=
    insertChar_follows (show ' ' ≠ '\n' by decide) first hvalid'
  refine ⟨second, ?_, hvalid'', by rw [hflat', hflat]⟩
  have hspaces : "  ".toList = [' ', ' '] := rfl
  rw [RawEditor.insertStr, hspaces]
  simp only [List.foldlM_cons, List.foldlM_nil, hfirst, hsecond, Option.bind_eq_bind,
    Option.bind_some]
  rfl

end Simulation

def typed (key : KeyEvent) : Option Char :=
  match key.code with
  | .char c => if key.modifiers.control then none else some c
  | _ => none

/-- How long a line is; a line that is not there has no characters. -/
def lineLen (e : RawEditor) (row : Nat) : Nat := charLen (e.lines.getD row [])

/-- A key acts as on a flat buffer, and up and down land on the adjacent line. -/
structure KeyFollows (e e' : RawEditor) (key : KeyEvent) : Prop where
  valid : Valid e'
  flat : flat e' = flatStep (flat e) key
  up : key.code = .up → e'.lines = e.lines ∧ e'.cursor =
    if e.cursor.1 = 0 then e.cursor
    else (e.cursor.1 - 1, min e.cursor.2 (lineLen e (e.cursor.1 - 1)))
  down : key.code = .down → e'.lines = e.lines ∧ e'.cursor =
    if e.cursor.1 + 1 < e.lines.length then
      (e.cursor.1 + 1, min e.cursor.2 (lineLen e (e.cursor.1 + 1)))
    else e.cursor

section Runs

variable {e e' : RawEditor}

theorem moveUp_lands (hvalid : Valid e) (h : e.moveUp = some e') :
    e'.lines = e.lines ∧ e'.cursor = if e.cursor.1 = 0 then e.cursor
      else (e.cursor.1 - 1, min e.cursor.2 (lineLen e (e.cursor.1 - 1))) := by
  have hmove : (if e.cursor.1 > 0 then e.lines[e.cursor.1 - 1]?.bind fun prev =>
      some { e with cursor := (e.cursor.1 - 1, min e.cursor.2 (charLen prev)) } else some e) =
      some e' := h
  by_cases hrow : e.cursor.1 = 0
  · rw [if_neg (by omega)] at hmove
    rw [← Option.some.inj hmove, if_pos hrow]
    exact ⟨rfl, rfl⟩
  · have hline : e.lines[e.cursor.1 - 1]? = some (e.lines.getD (e.cursor.1 - 1) []) := by
      have hbound : e.cursor.1 - 1 < e.lines.length := by
        have hvalid := hvalid.row
        omega
      rw [List.getD_eq_getElem?_getD, List.getElem?_eq_getElem hbound]
      rfl
    rw [if_pos (by omega), hline] at hmove
    rw [← Option.some.inj hmove, if_neg hrow]
    exact ⟨rfl, rfl⟩

theorem moveDown_lands (h : e.moveDown = some e') :
    e'.lines = e.lines ∧ e'.cursor = if e.cursor.1 + 1 < e.lines.length then
      (e.cursor.1 + 1, min e.cursor.2 (lineLen e (e.cursor.1 + 1))) else e.cursor := by
  have hmove : (if e.cursor.1 + 1 < e.lines.length then e.lines[e.cursor.1 + 1]?.bind fun next =>
      some { e with cursor := (e.cursor.1 + 1, min e.cursor.2 (charLen next)) } else some e) =
      some e' := h
  by_cases hrow : e.cursor.1 + 1 < e.lines.length
  · have hline : e.lines[e.cursor.1 + 1]? = some (e.lines.getD (e.cursor.1 + 1) []) := by
      rw [List.getD_eq_getElem?_getD, List.getElem?_eq_getElem hrow]
      rfl
    rw [if_pos hrow, hline] at hmove
    rw [← Option.some.inj hmove, if_pos hrow]
    exact ⟨rfl, rfl⟩
  · rw [if_neg hrow] at hmove
    rw [← Option.some.inj hmove, if_neg hrow]
    exact ⟨rfl, rfl⟩

/-- An edit or a move is what its operation does. -/
theorem dispatch_of_follows {op : RawEditor → Option RawEditor} {f : Buffer Char → Buffer Char}
    (key : KeyEvent) (hop : Follows op f) (hvalid : Valid e)
    (hdispatch : dispatch e key = (op e).map fun e => (e, RawStep.continue))
    (hflat : flatStep (flat e) key = f (flat e)) :
    ∃ e' step, dispatch e key = some (e', step) ∧ op e = some e' ∧ Valid e' ∧
      flat e' = flatStep (flat e) key := by
  obtain ⟨e', hsome, hvalid', hflat'⟩ := hop e hvalid
  exact ⟨e', .continue, by rw [hdispatch, hsome]; rfl, hsome, hvalid', by rw [hflat', hflat]⟩

theorem dispatch_follows (hvalid : Valid e) {key : KeyEvent} (htyped : typed key ≠ some '\n') :
    ∃ e' step, dispatch e key = some (e', step) ∧ KeyFollows e e' key := by
  obtain ⟨code, modifiers⟩ := key
  have hother : ∀ {op f}, Follows op f → code ≠ .up → code ≠ .down →
      dispatch e ⟨code, modifiers⟩ = (op e).map (fun e => (e, RawStep.continue)) →
      flatStep (flat e) ⟨code, modifiers⟩ = f (flat e) →
      ∃ e' step, dispatch e ⟨code, modifiers⟩ = some (e', step) ∧
        KeyFollows e e' ⟨code, modifiers⟩ := by
    intro op f hop hup hdown hdispatch hflat
    obtain ⟨e', step, hsome, -, hvalid', hflat'⟩ :=
      dispatch_of_follows _ hop hvalid hdispatch hflat
    exact ⟨e', step, hsome, hvalid', hflat', fun h => absurd h hup, fun h => absurd h hdown⟩
  have hstays : ∀ step, code ≠ .up → code ≠ .down →
      dispatch e ⟨code, modifiers⟩ = some (e, step) → flatStep (flat e) ⟨code, modifiers⟩ = flat e →
      ∃ e' step, dispatch e ⟨code, modifiers⟩ = some (e', step) ∧
        KeyFollows e e' ⟨code, modifiers⟩ := by
    intro step hup hdown hdispatch hflat
    exact ⟨e, step, hdispatch, hvalid, hflat.symm, fun h => absurd h hup, fun h => absurd h hdown⟩
  cases code with
  | char c =>
    by_cases hcontrol : modifiers.control = true
    · have hflat : flatStep (flat e) ⟨.char c, modifiers⟩ = flat e := by
        simp only [flatStep, hcontrol, if_true]
      by_cases hs : c = 's'
      · exact hstays .commit nofun nofun (by simp [dispatch, hcontrol, hs]) hflat
      · by_cases hr : c = 'r'
        · exact hstays .toTree nofun nofun (by simp [dispatch, hcontrol, hr]) hflat
        · exact hstays .continue nofun nofun (by simp [dispatch, hcontrol, hs, hr]) hflat
    · have hc : c ≠ '\n' := by
        rintro rfl
        exact htyped (by simp [typed, hcontrol])
      exact hother (insertChar_follows hc) nofun nofun (by simp [dispatch, hcontrol])
        (by simp [flatStep, hcontrol])
  | enter => exact hother insertNewline_follows nofun nofun rfl rfl
  | backspace => exact hother backspace_follows nofun nofun rfl rfl
  | delete => exact hother delete_follows nofun nofun rfl rfl
  | left => exact hother moveLeft_follows nofun nofun rfl rfl
  | right => exact hother moveRight_follows nofun nofun rfl rfl
  | up =>
    obtain ⟨e', step, hsome, hop, hvalid', hflat⟩ :=
      dispatch_of_follows ⟨.up, modifiers⟩ moveUp_follows hvalid rfl rfl
    exact ⟨e', step, hsome, hvalid', hflat, fun _ => moveUp_lands hvalid hop, nofun⟩
  | down =>
    obtain ⟨e', step, hsome, hop, hvalid', hflat⟩ :=
      dispatch_of_follows ⟨.down, modifiers⟩ moveDown_follows hvalid rfl rfl
    exact ⟨e', step, hsome, hvalid', hflat, nofun, fun _ => moveDown_lands hop⟩
  | home => exact hother moveHome_follows nofun nofun rfl rfl
  | «end» => exact hother moveEnd_follows nofun nofun rfl rfl
  | tab => exact hother insertStr_follows nofun nofun rfl rfl
  | esc => exact hstays .cancel nofun nofun rfl rfl
  | other => exact hstays .continue nofun nofun rfl rfl

theorem run_follows {keys : List KeyEvent} (htyped : ∀ key ∈ keys, typed key ≠ some '\n')
    (hvalid : Valid e) :
    ∃ e', run keys e = some e' ∧ Valid e' ∧ flat e' = keys.foldl flatStep (flat e) := by
  induction keys generalizing e with
  | nil => exact ⟨e, rfl, hvalid, rfl⟩
  | cons key keys ih =>
    obtain ⟨next, step, hdispatch, hfollows⟩ :=
      dispatch_follows hvalid (htyped key List.mem_cons_self)
    obtain ⟨e', hrun, hvalid', hflat⟩ :=
      ih (fun key hkey => htyped key (List.mem_cons_of_mem _ hkey)) hfollows.valid
    refine ⟨e', ?_, hvalid', by rw [hflat, hfollows.flat]; rfl⟩
    rw [run, List.foldlM_cons, hdispatch]
    exact hrun

theorem fromSeed_shows (seed : String) :
    Valid (RawEditor.fromSeed seed) ∧ flat (RawEditor.fromSeed seed) = ⟨seed.toList, 0⟩ := by
  have htext : ∀ lines, flat ⟨lines, (0, 0), none⟩ = ⟨['\n'].intercalate lines, 0⟩ := by
    intro lines
    simp [flat, RawEditor.toText]
  by_cases hempty : seed.isEmpty = true
  · have hseed : seed.toList = [] := by simpa using hempty
    have hstart : RawEditor.fromSeed seed = ⟨[[]], (0, 0), none⟩ := by
      rw [RawEditor.fromSeed, if_pos hempty]
    rw [hstart, htext, hseed]
    exact ⟨⟨Nat.zero_lt_one, fun _ _ => Nat.zero_le _, by simp⟩, rfl⟩
  · have hstart : RawEditor.fromSeed seed = ⟨seed.toList.splitOn '\n', (0, 0), none⟩ := by
      rw [RawEditor.fromSeed, if_neg hempty]
    rw [hstart, htext, List.intercalate_splitOn]
    refine ⟨⟨?_, fun _ _ => Nat.zero_le _, ?_⟩, rfl⟩
    · exact List.length_pos_iff.mpr (List.splitOn_ne_nil _ _)
    · intro line hline hmem
      rw [List.splitOn_eq_splitOnP] at hline
      simpa using UrlPaths.not_separator_of_split hline '\n' hmem

/-- From a text, under any keys: nothing panics, the cursor stays on its line, and the editor is
the flat buffer of its text. -/
theorem editor_follows (seed : String) (keys : List KeyEvent)
    (htyped : ∀ key ∈ keys, typed key ≠ some '\n') :
    flat (RawEditor.fromSeed seed) = ⟨seed.toList, 0⟩ ∧
    ∃ e, run keys (RawEditor.fromSeed seed) = some e ∧ Valid e ∧
      flat e = keys.foldl flatStep ⟨seed.toList, 0⟩ ∧
      ∀ key, typed key ≠ some '\n' →
        ∃ e' step, dispatch e key = some (e', step) ∧ KeyFollows e e' key := by
  obtain ⟨hvalid, hflat⟩ := fromSeed_shows seed
  obtain ⟨e, hrun, hvalid', hflat'⟩ := run_follows htyped hvalid
  exact ⟨hflat, e, hrun, hvalid', by rw [hflat', hflat],
    fun key hkey => dispatch_follows hvalid' hkey⟩

/-- Down, to the end, a letter of two bytes, and back over it and the newline. -/
theorem editor_follows_join : ∃ e,
    run ([.down, .end, .char 'é', .backspace, .home, .backspace].map fun code =>
      ⟨code, ⟨false, false, false⟩⟩) (RawEditor.fromSeed "aé\nb") = some e ∧ e.toText = "aéb" := by
  obtain ⟨-, e, hrun, -, hflat, -⟩ := editor_follows "aé\nb"
    ([.down, .end, .char 'é', .backspace, .home, .backspace].map fun code =>
      ⟨code, ⟨false, false, false⟩⟩) (by decide)
  refine ⟨e, hrun, ?_⟩
  have htext : e.toText.toList = "aéb".toList := by
    have h := congrArg Buffer.text hflat
    exact h.trans (by decide)
  exact String.toList_inj.mp htext

end Runs

end RawEditing
