import Mathlib.Data.List.Basic
import Mathlib.Tactic.Common

/-! # Chunks of a list

A list cut at multiples of a chunk size: the chunks are non-empty and follow one another, and put
together in order they are the list. -/
namespace Chunks

variable {α : Type*}

/-- The elements at `first`, up to `last` but without it. -/
def between (l : List α) (first last : ℕ) : List α := (l.drop first).take (last - first)

def first (chunk i : ℕ) : ℕ := i * chunk

def last (size chunk i : ℕ) : ℕ := min ((i + 1) * chunk) size

/-- The number of chunks, the last one possibly shorter. -/
def count (size chunk : ℕ) : ℕ := size / chunk + if size % chunk > 0 then 1 else 0

variable {size chunk i j : ℕ}

theorem first_lt_iff (h : 0 < chunk) : first chunk i < size ↔ i < count size chunk := by
  have hdiv : size / chunk * chunk + size % chunk = size := Nat.div_add_mod' size chunk
  have hmod := Nat.mod_lt size h
  have hstep : ∀ {a b : ℕ}, a < b → a * chunk + chunk ≤ b * chunk := by
    intro a b hab
    rw [← Nat.succ_mul]
    exact Nat.mul_le_mul_right chunk hab
  unfold first count
  rcases Nat.lt_trichotomy i (size / chunk) with hlt | rfl | hgt
  · have := hstep hlt
    split_ifs <;> omega
  · split_ifs <;> omega
  · have := hstep hgt
    split_ifs <;> omega

theorem first_lt_last (h : 0 < chunk) (hi : i < count size chunk) :
    first chunk i < last size chunk i := by
  have hfirst := (first_lt_iff h).mpr hi
  have hnext : first chunk i < (i + 1) * chunk := by
    rw [first, Nat.add_mul]
    omega
  exact Nat.lt_min.mpr ⟨hnext, hfirst⟩

theorem last_le_first (hij : i < j) : last size chunk i ≤ first chunk j :=
  Nat.le_trans (Nat.min_le_left _ _) (Nat.mul_le_mul_right chunk hij)

theorem last_sub_first (size chunk i : ℕ) :
    last size chunk i - first chunk i = min chunk (size - first chunk i) := by
  rw [last, first, Nat.add_mul]
  omega

theorem flatMap_take (l : List α) (chunk n : ℕ) :
    (List.range n).flatMap (fun i => between l (first chunk i) (last l.length chunk i)) =
      l.take (n * chunk) := by
  induction n with
  | zero => simp
  | succ n ih =>
    have hchunk : between l (first chunk n) (last l.length chunk n) =
        (l.drop (n * chunk)).take chunk := by
      rw [between, last_sub_first, first, ← List.length_drop, ← List.take_take,
        List.take_length]
    rw [List.range_succ, List.flatMap_append, ih, List.flatMap_singleton, hchunk, Nat.add_mul,
      Nat.one_mul, List.take_add]

theorem flatMap_chunks (l : List α) (h : 0 < chunk) :
    (List.range (count l.length chunk)).flatMap
      (fun i => between l (first chunk i) (last l.length chunk i)) = l := by
  have hall : l.length ≤ count l.length chunk * chunk := by
    by_contra hshort
    have hmore := (first_lt_iff h).mp (show first chunk (count l.length chunk) < l.length by
      rw [first]
      omega)
    exact Nat.lt_irrefl _ hmore
  rw [flatMap_take, List.take_of_length_le hall]

end Chunks
