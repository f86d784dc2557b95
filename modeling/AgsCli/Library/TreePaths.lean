import Mathlib.Data.List.Basic
import Mathlib.Tactic.Common

/-! # Places in a tree

A tree by the children of its nodes, its places as lists of positions, the tree with another node
at a place, and the places that are seen when only some nodes are open. -/
namespace TreePaths

/-- Nodes whose children may be exchanged for as many others. -/
structure Branching (α : Type*) where
  children : α → List α
  withChildren : α → List α → α
  isOpen : α → Bool
  children_withChildren : ∀ n others, others.length = (children n).length →
    children (withChildren n others) = others
  isOpen_withChildren : ∀ n others, isOpen (withChildren n others) = isOpen n

namespace Branching

variable {α : Type*} (b : Branching α) {n m m' : α} {p q : List ℕ} {i : ℕ}

def get? : List ℕ → α → Option α
  | [], n => some n
  | i :: p, n => ((b.children n)[i]?).bind fun c => get? p c

def replace (m : α) : List ℕ → α → α
  | [], _ => m
  | i :: p, n => b.withChildren n ((b.children n).modify i fun c => replace m p c)

inductive Visible : α → List ℕ → Prop
  | root (n : α) : Visible n []
  | child {n c : α} {i : ℕ} {p : List ℕ} (hopen : b.isOpen n = true)
    (hchild : (b.children n)[i]? = some c) (h : Visible c p) : Visible n (i :: p)

theorem children_replace : b.children (b.replace m (i :: p) n) =
    (b.children n).modify i fun c => b.replace m p c :=
  b.children_withChildren n _ (List.length_modify ..)

/-- Places beside the replaced one keep their nodes. -/
theorem get?_replace_apart (h : ¬ p <+: q) (h' : ¬ q <+: p) :
    b.get? q (b.replace m p n) = b.get? q n := by
  induction p generalizing n q with
  | nil => exact absurd ⟨_, List.nil_append _⟩ h
  | cons i p ih =>
    cases q with
    | nil => exact absurd ⟨_, List.nil_append _⟩ h'
    | cons j q =>
      rw [get?, get?, children_replace]
      by_cases hij : i = j
      · subst hij
        rw [List.prefix_cons_inj] at h h'
        rw [List.getElem?_modify_eq, Option.map_eq_map, Option.bind_map]
        exact Option.bind_congr fun c _ => ih h h'
      · rw [List.getElem?_modify_ne _ _ hij]

variable {b}

theorem Visible.exists_get? (h : b.Visible n p) : ∃ m, b.get? p n = some m := by
  induction h with
  | root n => exact ⟨n, rfl⟩
  | child hopen hchild h ih =>
    obtain ⟨m, hm⟩ := ih
    exact ⟨m, by rw [get?, hchild]; exact hm⟩

theorem visible_cons_iff : b.Visible n (i :: p) ↔
    b.isOpen n = true ∧ ∃ c, (b.children n)[i]? = some c ∧ b.Visible c p := by
  constructor
  · intro h
    cases h with
    | child hopen hchild h => exact ⟨hopen, _, hchild, h⟩
  · rintro ⟨hopen, c, hchild, h⟩
    exact .child hopen hchild h

/-- What is above a place that is seen is seen. -/
theorem Visible.of_append (h : b.Visible n (p ++ q)) : b.Visible n p := by
  induction p generalizing n with
  | nil => exact .root n
  | cons i p ih =>
    cases h with
    | child hopen hchild h => exact .child hopen hchild (ih h)

theorem Visible.inside (h : b.Visible n (p ++ q)) (hget : b.get? p n = some m) :
    b.Visible m q := by
  induction p generalizing n with
  | nil =>
    cases hget
    exact h
  | cons i p ih =>
    obtain ⟨-, c, hchild, h⟩ := visible_cons_iff.mp h
    rw [get?, hchild] at hget
    exact ih h hget

/-- A place stays seen when the replaced node above it shows it. -/
theorem Visible.replace (h : b.Visible n (p ++ q)) (hm : b.Visible m q) :
    b.Visible (b.replace m p n) (p ++ q) := by
  induction p generalizing n with
  | nil => exact hm
  | cons i p ih =>
    cases h with
    | child hopen hchild h =>
      refine .child ((b.isOpen_withChildren n _).trans hopen) ?_ (ih h)
      rw [children_replace, List.getElem?_modify_eq, hchild]
      rfl

end Branching

end TreePaths
