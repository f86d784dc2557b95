import Mathlib.Data.List.Sort

/-! # Sorting by a key

Lists sorted by a key, and what it means to be the first elements of a sorted list. -/
namespace Leading

variable {α κ : Type*} [LinearOrder κ] (key : α → κ)

def sortBy (l : List α) : List α := l.mergeSort fun a b => decide (key a ≤ key b)

structure Ordered (all l : List α) : Prop where
  perm : l.Perm all
  sorted : l.Pairwise fun a b => key a ≤ key b

/-- The elements begin an order of all: no other element comes before them. -/
def Begins (first all : List α) : Prop :=
  ∃ rest, (first ++ rest).Perm all ∧ ∀ a ∈ first, ∀ b ∈ rest, key a ≤ key b

variable {key} {all first : List α}

theorem ordered_sortBy (l : List α) : Ordered key l (sortBy key l) := by
  refine ⟨List.mergeSort_perm l _, ?_⟩
  have htrans : ∀ a b c : α, decide (key a ≤ key b) = true → decide (key b ≤ key c) = true →
      decide (key a ≤ key c) = true := by
    intro a b c hab hbc
    exact decide_eq_true ((of_decide_eq_true hab).trans (of_decide_eq_true hbc))
  have htotal : ∀ a b : α, (decide (key a ≤ key b) || decide (key b ≤ key a)) = true := by
    intro a b
    simpa using le_total (key a) (key b)
  exact (List.pairwise_mergeSort htrans htotal l).imp of_decide_eq_true

theorem length_sortBy (l : List α) : (sortBy key l).length = l.length :=
  (ordered_sortBy l).perm.length_eq

/-- Sorted elements begin an order of all when they are the front of all in order. -/
theorem begins_iff (hsorted : first.Pairwise fun a b => key a ≤ key b) :
    Begins key first all ↔ ∃ full, Ordered key all full ∧ first = full.take first.length := by
  constructor
  · rintro ⟨rest, hperm, hle⟩
    have hrest : Ordered key rest (sortBy key rest) := ordered_sortBy rest
    refine ⟨first ++ sortBy key rest, ⟨?_, ?_⟩, ?_⟩
    · exact (hrest.perm.append_left first).trans hperm
    · refine List.pairwise_append.mpr ⟨hsorted, hrest.sorted, fun a ha b hb => ?_⟩
      exact hle a ha b (hrest.perm.mem_iff.mp hb)
    · rw [List.take_left]
  · rintro ⟨full, ⟨hperm, hpairwise⟩, hfirst⟩
    have hsplit : first ++ full.drop first.length = full := by
      conv_rhs => rw [← List.take_append_drop first.length full, ← hfirst]
    refine ⟨full.drop first.length, by rwa [hsplit], ?_⟩
    rw [← hsplit] at hpairwise
    exact (List.pairwise_append.mp hpairwise).2.2

end Leading
