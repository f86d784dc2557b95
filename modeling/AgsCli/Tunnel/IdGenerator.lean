import Mathlib.Algebra.Order.Ring.Int
import Mathlib.Data.List.Basic
import Mathlib.Tactic.Common

/-! # Stream ids

Odd ids belong to the sidecar and even ids to the client. A generator counts up by two, skips the
ids in use and starts again near the end of the 64-bit range. -/
namespace IdGenerator

inductive IdParity
  | odd
  | even
  deriving DecidableEq, Repr

def overflowThreshold : Nat := 2 ^ 64 - 1 - 1000

structure Generator where
  current : Nat
  start : Nat
  deriving DecidableEq, Repr

def new : IdParity → Generator
  | .odd => ⟨1, 1⟩
  | .even => ⟨2, 2⟩

namespace Generator

/-- The next candidate: the counter, or the start once the counter is near overflow. -/
def candidate (g : Generator) : Nat :=
  if overflowThreshold ≤ g.current then g.start else g.current

def advance (g : Generator) : Generator := { g with current := g.candidate + 2 }

/-- The loop of `next`, for at most `fuel` rounds. -/
def search (active : List Nat) : Nat → Generator → Option (Nat × Generator)
  | 0, _ => none
  | fuel + 1, g =>
    if active.contains g.candidate then search active fuel g.advance
    else some (g.candidate, g.advance)

/-- One round more than there are ids in use: a longer search only meets ids it has met before,
so it never ends. -/
def next (g : Generator) (active : List Nat) : Option (Nat × Generator) :=
  search active (active.length + 1) g

theorem search_spec {active : List Nat} {fuel : Nat} {g g' : Generator} {id : Nat}
    (h : search active fuel g = some (id, g')) : id ∉ active ∧ g'.start = g.start := by
  induction fuel generalizing g with
  | zero => cases h
  | succ fuel ih =>
    rw [search] at h
    split at h
    · obtain ⟨hfree, hstart⟩ := ih h
      exact ⟨hfree, hstart⟩
    · next hfree =>
      simp only [Option.some.injEq, Prod.mk.injEq] at h
      obtain ⟨rfl, rfl⟩ := h
      exact ⟨by simpa using hfree, rfl⟩

theorem next_not_active {g g' : Generator} {active : List Nat} {id : Nat}
    (h : g.next active = some (id, g')) : id ∉ active := (search_spec h).1

end Generator

example : (new .odd).next [1, 3] = some (5, ⟨7, 1⟩) := by decide

end IdGenerator
