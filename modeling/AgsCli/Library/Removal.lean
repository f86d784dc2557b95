import Mathlib.Data.List.Basic

/-! # Removing matches

What is left of a list when the matches of a language, found from the left, are taken out. -/
namespace Removal

variable {α : Type*} {M : List α → Prop} {f : List α → List α}

/-- `u` is what lies outside the matches in `s`: a match is passed over where one starts, and an
element is kept where none does. -/
inductive Outside (M : List α → Prop) : List α → List α → Prop
  | nil : Outside M [] []
  | skip {m s u : List α} : M m → Outside M s u → Outside M (m ++ s) u
  | keep {c : α} {s u : List α} : (∀ m t, c :: s = m ++ t → ¬M m) → Outside M s u →
      Outside M (c :: s) (c :: u)

structure Removes (M : List α → Prop) (f : List α → List α) : Prop where
  nil : f [] = []
  skip : ∀ m s, M m → f (m ++ s) = f s
  keep : ∀ c s, (∀ m t, c :: s = m ++ t → ¬M m) → f (c :: s) = c :: f s

namespace Removes

theorem eq_of_outside (hf : Removes M f) {s u : List α} (h : Outside M s u) : f s = u := by
  induction h with
  | nil => exact hf.nil
  | skip hm _ ih => rw [hf.skip _ _ hm, ih]
  | keep hno _ ih => rw [hf.keep _ _ hno, ih]

theorem outside (hf : Removes M f) (hnil : ¬M []) (s : List α) : Outside M s (f s) := by
  induction hn : s.length using Nat.strongRecOn generalizing s with
  | ind n ih =>
    cases s with
    | nil =>
      rw [hf.nil]
      exact .nil
    | cons c s =>
      by_cases hmatch : ∃ m t, c :: s = m ++ t ∧ M m
      · obtain ⟨m, t, heq, hm⟩ := hmatch
        have hpos : 0 < m.length := List.length_pos_iff.mpr fun hm' => hnil (hm' ▸ hm)
        have hlength : (c :: s).length = m.length + t.length := by rw [heq, List.length_append]
        rw [heq, hf.skip m t hm]
        exact .skip hm (ih t.length (by omega) t rfl)
      · have hno : ∀ m t, c :: s = m ++ t → ¬M m := fun m t heq hm => hmatch ⟨m, t, heq, hm⟩
        rw [hf.keep c s hno]
        exact .keep hno (ih s.length (by rw [← hn]; exact Nat.lt_succ_self _) s rfl)

theorem outside_iff (hf : Removes M f) (hnil : ¬M []) {s u : List α} :
    Outside M s u ↔ u = f s := by
  constructor
  · intro h
    exact (hf.eq_of_outside h).symm
  · rintro rfl
    exact hf.outside hnil s

/-- Nothing is removed where no match can be built of the elements. -/
theorem eq_self (hf : Removes M f) {s : List α} (h : ∀ m, M m → ∃ c ∈ m, c ∉ s) : f s = s := by
  induction s with
  | nil => exact hf.nil
  | cons c s ih =>
    have hno : ∀ m t, c :: s = m ++ t → ¬M m := by
      intro m t heq hm
      obtain ⟨d, hd, hout⟩ := h m hm
      exact hout (heq ▸ List.mem_append_left t hd)
    have hrest : ∀ m, M m → ∃ c ∈ m, c ∉ s := by
      intro m hm
      obtain ⟨d, hd, hout⟩ := h m hm
      exact ⟨d, hd, fun hmem => hout (List.mem_cons_of_mem c hmem)⟩
    rw [hf.keep c s hno, ih hrest]

end Removes

end Removal
