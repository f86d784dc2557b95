import Mathlib.Data.String.Basic
import Mathlib.Tactic.Common

/-! # Byte slices

Texts searched and cut at byte offsets. A cut inside a character has no result. -/
namespace ByteSlices

open String (utf8Len)

/-- The parts of a text before and from a byte offset. -/
def cut : Nat → List Char → Option (List Char × List Char)
  | 0, cs => some ([], cs)
  | _ + 1, [] => none
  | n + 1, c :: cs =>
    if c.utf8Size ≤ n + 1 then
      (cut (n + 1 - c.utf8Size) cs).map fun parts => (c :: parts.1, parts.2)
    else none

def find (needle : List Char) : List Char → Option Nat
  | [] => if needle = [] then some 0 else none
  | c :: cs =>
    if needle.isPrefixOf (c :: cs) then some 0
    else (find needle cs).map (c.utf8Size + ·)

def Boundary (n : Nat) (cs : List Char) : Prop := (cut n cs).isSome = true

instance (n : Nat) (cs : List Char) : Decidable (Boundary n cs) :=
  inferInstanceAs (Decidable (_ = true))

theorem cut_zero (cs : List Char) : cut 0 cs = some ([], cs) := by cases cs <;> rfl

theorem cut_succ (n : Nat) (c : Char) (cs : List Char) : cut (n + 1) (c :: cs) =
    if c.utf8Size ≤ n + 1 then
      (cut (n + 1 - c.utf8Size) cs).map fun parts => (c :: parts.1, parts.2)
    else none := rfl

theorem find_cons (needle : List Char) (c : Char) (cs : List Char) : find needle (c :: cs) =
    if needle.isPrefixOf (c :: cs) then some 0 else (find needle cs).map (c.utf8Size + ·) := rfl

theorem cut_append (before after : List Char) :
    cut (utf8Len before) (before ++ after) = some (before, after) := by
  induction before with
  | nil => exact cut_zero after
  | cons c before ih =>
    have hpos := c.utf8Size_pos
    obtain ⟨n, hn⟩ : ∃ n, utf8Len (c :: before) = n + 1 :=
      ⟨utf8Len (c :: before) - 1, by rw [String.utf8Len_cons]; omega⟩
    have hrest : n + 1 - c.utf8Size = utf8Len before := by
      rw [← hn, String.utf8Len_cons]
      omega
    rw [hn, List.cons_append, cut_succ, if_pos (by rw [String.utf8Len_cons] at hn; omega), hrest, ih]
    rfl

theorem cut_eq_some {n : Nat} {cs before after : List Char} (h : cut n cs = some (before, after)) :
    cs = before ++ after ∧ utf8Len before = n := by
  induction cs generalizing n before after with
  | nil =>
    cases n with
    | zero =>
      cases h
      exact ⟨rfl, rfl⟩
    | succ n => cases h
  | cons c cs ih =>
    cases n with
    | zero =>
      cases h
      exact ⟨rfl, rfl⟩
    | succ n =>
      rw [cut_succ] at h
      split_ifs at h with hfits
      obtain ⟨⟨front, back⟩, hcut, heq⟩ := Option.map_eq_some_iff.mp h
      obtain ⟨rfl, rfl⟩ := Prod.mk.inj heq
      obtain ⟨rfl, hlength⟩ := ih hcut
      refine ⟨rfl, ?_⟩
      rw [String.utf8Len_cons, hlength]
      omega

theorem boundary_iff {n : Nat} {cs : List Char} :
    Boundary n cs ↔ ∃ before after, cs = before ++ after ∧ utf8Len before = n := by
  constructor
  · intro h
    obtain ⟨⟨before, after⟩, hcut⟩ := Option.isSome_iff_exists.mp h
    exact ⟨before, after, cut_eq_some hcut⟩
  · rintro ⟨before, after, rfl, rfl⟩
    rw [Boundary, cut_append]
    rfl

/-- An occurrence does not start in a text without the needle's first character. -/
theorem find_append {first : Char} {needle skipped : List Char} (habsent : first ∉ skipped)
    (cs : List Char) : find (first :: needle) (skipped ++ cs) =
      (find (first :: needle) cs).map (utf8Len skipped + ·) := by
  induction skipped with
  | nil =>
    rw [List.nil_append]
    cases find (first :: needle) cs <;> simp
  | cons c skipped ih =>
    have hne : first ≠ c := by
      rintro rfl
      exact habsent List.mem_cons_self
    have hrest : first ∉ skipped := fun hmem => habsent (List.mem_cons_of_mem _ hmem)
    have hhead : (first :: needle).isPrefixOf (c :: (skipped ++ cs)) = false := by
      rw [List.isPrefixOf, beq_false_of_ne hne, Bool.false_and]
    rw [List.cons_append, find_cons, hhead, if_neg Bool.false_ne_true, ih hrest, Option.map_map]
    congr 1
    funext n
    rw [String.utf8Len_cons, Function.comp_apply]
    omega

/-- Nor inside a block whose first character alone may be the needle's. -/
theorem find_cons_append {first c : Char} {needle skipped cs : List Char}
    (habsent : first ∉ skipped)
    (hhead : (first :: needle).isPrefixOf (c :: skipped ++ cs) = false) :
    find (first :: needle) (c :: skipped ++ cs) =
      (find (first :: needle) cs).map (utf8Len (c :: skipped) + ·) := by
  rw [List.cons_append] at hhead ⊢
  rw [find_cons, hhead, if_neg Bool.false_ne_true, find_append habsent, Option.map_map]
  congr 1
  funext n
  rw [String.utf8Len_cons, Function.comp_apply]
  omega

/-- A found offset is where an occurrence starts. -/
theorem find_split {needle cs : List Char} {n : Nat} (h : find needle cs = some n) :
    ∃ before after, cs = before ++ (needle ++ after) ∧ utf8Len before = n := by
  induction cs generalizing n with
  | nil =>
    have hempty : needle = [] := by
      by_contra hne
      cases h.symm.trans (if_neg hne)
    subst hempty
    cases h
    exact ⟨[], [], rfl, rfl⟩
  | cons c cs ih =>
    rw [find_cons] at h
    split_ifs at h with hhead
    · cases h
      obtain ⟨after, hafter⟩ := List.isPrefixOf_iff_prefix.mp hhead
      exact ⟨[], after, hafter.symm, rfl⟩
    · obtain ⟨m, hm, rfl⟩ := Option.map_eq_some_iff.mp h
      obtain ⟨before, after, rfl, rfl⟩ := ih hm
      exact ⟨c :: before, after, rfl, by rw [String.utf8Len_cons]; omega⟩

theorem boundary_of_find {needle cs : List Char} {n : Nat} (h : find needle cs = some n) :
    Boundary n cs ∧ Boundary (n + utf8Len needle) cs := by
  obtain ⟨before, after, rfl, rfl⟩ := find_split h
  refine ⟨boundary_iff.mpr ⟨before, _, rfl, rfl⟩, boundary_iff.mpr ⟨before ++ needle, after, ?_, ?_⟩⟩
  · rw [List.append_assoc]
  · rw [String.utf8Len_append]

end ByteSlices
