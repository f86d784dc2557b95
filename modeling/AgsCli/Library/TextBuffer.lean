import Mathlib.Data.List.Basic
import Mathlib.Tactic.Common

/-! # Text buffers

A flat text with an insertion point, what an editor does to it, and the same text as lines. The
elements are of any type; one of them ends a line. -/
namespace TextBuffer

structure Buffer (α : Type) where
  text : List α
  offset : Nat
  deriving DecidableEq

def between {α : Type} (front back : List α) : Buffer α := ⟨front ++ back, front.length⟩

namespace Buffer

variable {α : Type}

def insert (c : α) (b : Buffer α) : Buffer α :=
  ⟨b.text.take b.offset ++ c :: b.text.drop b.offset, b.offset + 1⟩

def backspace (b : Buffer α) : Buffer α :=
  if 0 < b.offset then ⟨b.text.eraseIdx (b.offset - 1), b.offset - 1⟩ else b

def delete (b : Buffer α) : Buffer α := { b with text := b.text.eraseIdx b.offset }

def left (b : Buffer α) : Buffer α := { b with offset := b.offset - 1 }

def right (b : Buffer α) : Buffer α := { b with offset := min (b.offset + 1) b.text.length }

variable [DecidableEq α] (newline : α)

def lineStart (b : Buffer α) : Nat :=
  b.offset - ((b.text.take b.offset).reverse.takeWhile (· ≠ newline)).length

def lineEnd (b : Buffer α) : Nat :=
  b.offset + ((b.text.drop b.offset).takeWhile (· ≠ newline)).length

def home (b : Buffer α) : Buffer α := { b with offset := b.lineStart newline }

def toEnd (b : Buffer α) : Buffer α := { b with offset := b.lineEnd newline }

def up (b : Buffer α) : Buffer α :=
  let start := b.lineStart newline
  if start = 0 then b else
    let above : Buffer α := { b with offset := start - 1 }
    { b with offset := min (above.lineStart newline + (b.offset - start)) (start - 1) }

def down (b : Buffer α) : Buffer α :=
  let stop := b.lineEnd newline
  if stop = b.text.length then b else
    let below : Buffer α := { b with offset := stop + 1 }
    { b with offset := min (stop + 1 + (b.offset - b.lineStart newline)) (below.lineEnd newline) }

end Buffer

section Between

variable {α : Type} {front back : List α}

theorem insert_between (c : α) :
    (between front back).insert c = between (front ++ [c]) back := by
  simp [between, Buffer.insert]

theorem backspace_between (c : α) :
    (between (front ++ [c]) back).backspace = between front back := by
  simp [between, Buffer.backspace, List.eraseIdx_append]

theorem backspace_start : (between [] back).backspace = between [] back := by
  simp [between, Buffer.backspace]

theorem delete_between (c : α) : (between front (c :: back)).delete = between front back := by
  simp [between, Buffer.delete, List.eraseIdx_append]

theorem delete_stop : (between front []).delete = between front [] := by
  simp [between, Buffer.delete, List.eraseIdx_of_length_le]

theorem left_between (c : α) :
    (between (front ++ [c]) back).left = between front (c :: back) := by
  simp [between, Buffer.left]

theorem left_start : (between [] back).left = between [] back := rfl

theorem right_between (c : α) :
    (between front (c :: back)).right = between (front ++ [c]) back := by
  simp [between, Buffer.right]

theorem right_stop : (between front []).right = between front [] := by
  simp [between, Buffer.right]

end Between

section Lines

variable {α : Type} (newline : α)

def leading (lines : List (List α)) : List α := lines.flatMap (· ++ [newline])

def trailing (lines : List (List α)) : List α := lines.flatMap (newline :: ·)

variable {newline}

theorem leading_concat (lines : List (List α)) (line : List α) :
    leading newline (lines ++ [line]) = leading newline lines ++ line ++ [newline] := by
  simp [leading]

theorem trailing_cons (line : List α) (lines : List (List α)) :
    trailing newline (line :: lines) = newline :: line ++ trailing newline lines := by
  simp [trailing]

theorem intercalate_around (before : List (List α)) (line : List α) (after : List (List α)) :
    [newline].intercalate (before ++ line :: after) =
      leading newline before ++ line ++ trailing newline after := by
  induction before generalizing line with
  | nil =>
    induction after generalizing line with
    | nil => simp [leading, trailing]
    | cons next after ih =>
      have hrest := ih next
      rw [List.nil_append] at hrest ⊢
      rw [List.intercalate_cons_cons, hrest, trailing_cons]
      simp [leading]
  | cons first before ih =>
    have hrest := ih line
    cases before with
    | nil =>
      rw [List.nil_append] at hrest
      rw [List.cons_append, List.nil_append, List.intercalate_cons_cons, hrest]
      simp [leading]
    | cons second before =>
      rw [List.cons_append] at hrest
      rw [List.cons_append, List.cons_append, List.intercalate_cons_cons, hrest]
      simp [leading]

theorem head_trailing (lines : List (List α)) :
    ∀ c ∈ (trailing newline lines).head?, c = newline := by
  cases lines with
  | nil => nofun
  | cons line lines =>
    intro c hc
    simpa [trailing_cons, eq_comm] using hc

theorem head_leading_reverse (lines : List (List α)) :
    ∀ c ∈ (leading newline lines).reverse.head?, c = newline := by
  rcases List.eq_nil_or_concat lines with rfl | ⟨lines, line, rfl⟩
  · nofun
  · intro c hc
    rw [List.concat_eq_append, leading_concat, List.reverse_append] at hc
    simpa [eq_comm] using hc

end Lines

section Cursor

variable {α : Type} [DecidableEq α] {newline : α} {line back front : List α}
  {before after : List (List α)}

theorem takeWhile_line (hline : newline ∉ line) (hrest : ∀ c ∈ back.head?, c = newline) :
    (line ++ back).takeWhile (· ≠ newline) = line := by
  have hall : ∀ c ∈ line, decide (c ≠ newline) = true := by
    intro c hc
    rw [decide_eq_true_eq]
    rintro rfl
    exact hline hc
  rw [List.takeWhile_append_of_pos hall]
  cases back with
  | nil => rw [List.takeWhile_nil, List.append_nil]
  | cons c back =>
    rw [hrest c rfl, List.takeWhile_cons_of_neg (by simp), List.append_nil]

theorem lineStart_between (hline : newline ∉ line) :
    (between (leading newline before ++ line) back).lineStart newline =
      (leading newline before).length := by
  have hfront : ((leading newline before ++ line).reverse.takeWhile (· ≠ newline)) =
      line.reverse := by
    rw [List.reverse_append]
    exact takeWhile_line (by simpa using hline) (head_leading_reverse before)
  rw [Buffer.lineStart, between, List.take_left, hfront, List.length_reverse, List.length_append,
    Nat.add_sub_cancel]

theorem lineEnd_between (hline : newline ∉ line) :
    (between front (line ++ trailing newline after)).lineEnd newline = (front ++ line).length := by
  rw [Buffer.lineEnd, between, List.drop_left, takeWhile_line hline (head_trailing after),
    List.length_append]

theorem home_between (hline : newline ∉ line) :
    (between (leading newline before ++ line) back).home newline =
      between (leading newline before) (line ++ back) := by
  rw [Buffer.home, lineStart_between hline, between, between, List.append_assoc]

theorem toEnd_between (hline : newline ∉ line) :
    (between front (line ++ trailing newline after)).toEnd newline =
      between (front ++ line) (trailing newline after) := by
  rw [Buffer.toEnd, lineEnd_between hline, between, between, List.append_assoc]

theorem up_first (hline : newline ∉ line) :
    (between line back).up newline = between line back := by
  have hfirst : (between (leading newline [] ++ line) back).lineStart newline = 0 :=
    lineStart_between hline
  have hstart : (between line back).lineStart newline = 0 := hfirst
  rw [Buffer.up, hstart]
  rfl

theorem down_last (hline : newline ∉ line) :
    (between front line).down newline = between front line := by
  have hlast : (between front (line ++ trailing newline [])).lineEnd newline =
      (front ++ line).length := lineEnd_between hline
  have hstop : (between front line).lineEnd newline = (front ++ line).length := by
    rwa [trailing, List.flatMap_nil, List.append_nil] at hlast
  rw [Buffer.down, hstop]
  exact if_pos rfl

theorem up_between {above : List α} (habove : newline ∉ above) (hline : newline ∉ line) :
    (between (leading newline (before ++ [above]) ++ line) back).up newline =
      between (leading newline before ++ above.take line.length)
        (above.drop line.length ++ newline :: line ++ back) := by
  have hstart : (between (leading newline (before ++ [above]) ++ line) back).lineStart newline =
      (leading newline before ++ above).length + 1 := by
    rw [lineStart_between hline, leading_concat, List.length_append, List.length_singleton]
  have htext : leading newline (before ++ [above]) ++ line ++ back =
      leading newline before ++ above ++ (newline :: line ++ back) := by
    rw [leading_concat]
    simp only [List.append_assoc, List.cons_append, List.nil_append]
  have habove' : (between (leading newline before ++ above) (newline :: line ++ back)).lineStart
      newline = (leading newline before).length := lineStart_between habove
  have hcut : leading newline before ++ above.take line.length ++
      (above.drop line.length ++ newline :: line ++ back) =
      leading newline before ++ above ++ (newline :: line ++ back) := by
    conv_rhs => rw [← List.take_append_drop line.length above]
    simp only [List.append_assoc]
  have hoffset : (leading newline (before ++ [above]) ++ line).length =
      (leading newline before ++ above).length + 1 + line.length := by
    rw [leading_concat]
    simp only [List.length_append, List.length_singleton]
  simp only [Buffer.up, hstart, Nat.add_one_ne_zero, if_false, Nat.add_sub_cancel]
  simp only [between, htext, hoffset, hcut] at habove' ⊢
  rw [habove']
  simp only [List.length_append, List.length_take, Buffer.mk.injEq, true_and]
  omega

theorem down_between {next rest : List α} (hline : newline ∉ line) (hrest : newline ∉ rest)
    (hnext : newline ∉ next) :
    (between (leading newline before ++ line) (rest ++ trailing newline (next :: after))).down
        newline =
      between (leading newline (before ++ [line ++ rest]) ++ next.take line.length)
        (next.drop line.length ++ trailing newline after) := by
  have hwhole : newline ∉ line ++ rest := by
    rw [List.mem_append]
    exact not_or.mpr ⟨hline, hrest⟩
  have hstart : (between (leading newline before ++ line)
      (rest ++ trailing newline (next :: after))).lineStart newline =
      (leading newline before).length := lineStart_between hline
  have hstop : (between (leading newline before ++ line)
      (rest ++ trailing newline (next :: after))).lineEnd newline =
      (leading newline before ++ line ++ rest).length := lineEnd_between hrest
  have hbelow : (between (leading newline (before ++ [line ++ rest]))
      (next ++ trailing newline after)).lineEnd newline =
      (leading newline (before ++ [line ++ rest]) ++ next).length := lineEnd_between hnext
  have htext : leading newline before ++ line ++ (rest ++ trailing newline (next :: after)) =
      leading newline (before ++ [line ++ rest]) ++ (next ++ trailing newline after) := by
    rw [leading_concat, trailing_cons]
    simp only [List.append_assoc, List.cons_append, List.nil_append]
  have hcut : leading newline (before ++ [line ++ rest]) ++ next.take line.length ++
      (next.drop line.length ++ trailing newline after) =
      leading newline (before ++ [line ++ rest]) ++ (next ++ trailing newline after) := by
    conv_rhs => rw [← List.take_append_drop line.length next]
    simp only [List.append_assoc]
  have hlength : (leading newline (before ++ [line ++ rest])).length =
      (leading newline before ++ line ++ rest).length + 1 := by
    rw [leading_concat]
    simp only [List.length_append, List.length_singleton]
    omega
  have hmore : (leading newline before ++ line ++ rest).length ≠
      (leading newline (before ++ [line ++ rest]) ++ (next ++ trailing newline after)).length := by
    have hsum : (leading newline (before ++ [line ++ rest]) ++
        (next ++ trailing newline after)).length =
        (leading newline (before ++ [line ++ rest])).length +
        (next ++ trailing newline after).length := List.length_append
    omega
  simp only [Buffer.down, hstop, hstart]
  simp only [between, htext, hcut] at hbelow ⊢
  rw [if_neg hmore, ← hlength, hbelow]
  simp only [List.length_append, List.length_take, Buffer.mk.injEq, true_and]
  omega

end Cursor

end TextBuffer
