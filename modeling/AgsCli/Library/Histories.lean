import Mathlib.Tactic.Common

/-! # Histories

What holds at every point of a list of things that happened, each seen with what came before it. -/
namespace Histories

variable {α : Type*} {P : List α → α → Prop} {l : List α} {a : α}

/-- `P` holds of every element and of what comes before it. -/
def Everywhere (P : List α → α → Prop) (l : List α) : Prop :=
  ∀ before a after, l = before ++ a :: after → P before a

theorem everywhere_nil (P : List α → α → Prop) : Everywhere P [] := by
  intro before a after h
  exact absurd h.symm (List.append_ne_nil_of_right_ne_nil before (List.cons_ne_nil a after))

theorem everywhere_snoc : Everywhere P (l ++ [a]) ↔ Everywhere P l ∧ P l a := by
  constructor
  · refine fun h => ⟨fun before b after hl => ?_, h l a [] rfl⟩
    refine h before b (after ++ [a]) ?_
    rw [hl, List.append_assoc, List.cons_append]
  · rintro ⟨h, ha⟩ before b after hl
    rcases List.eq_nil_or_concat after with rfl | ⟨init, last, rfl⟩
    · obtain ⟨rfl, hb⟩ := List.append_inj' hl rfl
      cases hb
      exact ha
    · have hsplit : l ++ [a] = (before ++ b :: init) ++ [last] := by
        rw [hl, List.append_assoc, List.cons_append, List.concat_eq_append]
      exact h before b init (List.append_inj' hsplit rfl).1

/-- An element of which nothing is asked. -/
theorem everywhere_snoc_of (h : P l a) : Everywhere P (l ++ [a]) ↔ Everywhere P l :=
  everywhere_snoc.trans (and_iff_left h)

end Histories
