import Mathlib.Data.List.Sort
import Mathlib.Data.List.Dedup
import Mathlib.Data.List.Perm.Basic
import Mathlib.Tactic.Common

/-! # Grouping

Stable sorting by a key, the sorted list of distinct keys, and the groups of a list by key. The
sorted results do not depend on the order of the list. -/
namespace Grouping

variable {α β κ : Type*}

section Groups

variable [DecidableEq κ] {key : α → κ}

def group (key : α → κ) (l : List α) (k : κ) : List α := l.filter fun a => key a = k

theorem mem_group {l : List α} {k : κ} {a : α} : a ∈ group key l k ↔ a ∈ l ∧ key a = k := by
  rw [group, List.mem_filter, decide_eq_true_iff]

end Groups

variable [LinearOrder κ]

def sortBy (key : α → κ) (l : List α) : List α := l.insertionSort fun a b => key a ≤ key b

variable {key : α → κ}

def distinct (l : List κ) : List κ := sortBy id l.dedup

end Grouping
