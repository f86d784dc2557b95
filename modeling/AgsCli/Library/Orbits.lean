import Mathlib.Data.List.Nodup
import Mathlib.Data.List.Perm.Subperm
import Mathlib.Data.Nat.Find
import Mathlib.Logic.Function.Iterate
import Mathlib.Tactic.Common

/-! # Leaving a list

A function applied over and over to a point. Up to the first point outside of a list no point comes
twice, so there are at most as many as the list is long. -/
namespace Orbits

variable {α : Type*} {f : α → α} {a : α} {l : List α} {k : ℕ}

structure Leaves (f : α → α) (a : α) (l : List α) (k : ℕ) : Prop where
  outside : f^[k] a ∉ l
  inside : ∀ j < k, f^[j] a ∈ l

theorem exists_leaves (h : ∃ k, f^[k] a ∉ l) : ∃ k, Leaves f a l k := by
  classical
  refine ⟨Nat.find h, Nat.find_spec h, fun j hj => ?_⟩
  by_contra hout
  exact Nat.find_min h hj hout

/-- A point met twice would bring the walk back without ever leaving. -/
theorem Leaves.ne (h : Leaves f a l k) {i j : ℕ} (hij : i < j) (hj : j < k) :
    f^[i] a ≠ f^[j] a := by
  intro heq
  have hback : f^[k - j + i] a = f^[k] a := by
    rw [Function.iterate_add_apply, heq, ← Function.iterate_add_apply]
    congr 2
    omega
  exact h.outside (hback ▸ h.inside (k - j + i) (by omega))

theorem Leaves.le_length (h : Leaves f a l k) : k ≤ l.length := by
  have hnodup : ((List.range k).map fun i => f^[i] a).Nodup := by
    refine (List.nodup_map_iff_inj_on List.nodup_range).mpr fun i hi j hj heq => ?_
    rw [List.mem_range] at hi hj
    rcases lt_trichotomy i j with hlt | rfl | hgt
    · exact absurd heq (h.ne hlt hj)
    · rfl
    · exact absurd heq.symm (h.ne hgt hi)
  have hsub : ((List.range k).map fun i => f^[i] a) ⊆ l := by
    intro b hb
    obtain ⟨i, hi, rfl⟩ := List.mem_map.mp hb
    exact h.inside i (List.mem_range.mp hi)
  simpa using (List.subperm_of_subset hnodup hsub).length_le

end Orbits
