import Mathlib.Algebra.Order.Field.Rat
import Mathlib.Algebra.Order.Ring.Abs
import Mathlib.Algebra.Order.Field.Power
import Mathlib.Data.Set.Basic
import Mathlib.Tactic.Linarith
import Mathlib.Tactic.FieldSimp
import Mathlib.Tactic.NormNum
import Mathlib.Tactic.Positivity
import Mathlib.Tactic.Ring

/-! # Rounding to a binary format and printing the shortest decimal

Numbers are exact rationals. Both roundings are one relation: a best candidate is closer than
every other one, a tie going to the preferred one, so there is at most one. -/
namespace Rounding

section Best

variable {candidates : Set ℚ} {preferred : ℚ → Prop} {q d e : ℚ}

structure Best (candidates : Set ℚ) (preferred : ℚ → Prop) (q d : ℚ) : Prop where
  mem : d ∈ candidates
  least : ∀ x ∈ candidates, x ≠ d → |q - d| < |q - x| ∨
    (|q - d| = |q - x| ∧ preferred d ∧ ¬ preferred x)

theorem best_unique (hd : Best candidates preferred q d) (he : Best candidates preferred q e) :
    d = e := by
  by_contra hne
  rcases hd.least e he.mem (Ne.symm hne) with hlt | ⟨heq, hpref, -⟩
  · rcases he.least d hd.mem hne with hgt | ⟨heq, -, -⟩
    · exact lt_asymm hlt hgt
    · exact absurd heq hlt.ne'
  · rcases he.least d hd.mem hne with hgt | ⟨-, -, hnot⟩
    · exact absurd heq hgt.ne'
    · exact hnot hpref

theorem best_self (h : q ∈ candidates) : Best candidates preferred q q := by
  refine ⟨h, fun x _ hne => Or.inl ?_⟩
  rw [sub_self, abs_zero]
  exact abs_pos.mpr (sub_ne_zero.mpr (Ne.symm hne))

theorem best_of_closer (h : d ∈ candidates)
    (hcloser : ∀ x ∈ candidates, x ≠ d → |q - d| < |q - x|) : Best candidates preferred q d :=
  ⟨h, fun x hx hne => Or.inl (hcloser x hx hne)⟩

end Best

/-- Integers of so many bits scaled by a power of two in a range. -/
structure BinaryFormat where
  precision : ℕ
  minExponent : ℤ
  maxExponent : ℤ

namespace BinaryFormat

variable (f : BinaryFormat)

structure Represents (m e : ℤ) (x : ℚ) : Prop where
  significand : |m| < 2 ^ f.precision
  lower : f.minExponent ≤ e
  upper : e ≤ f.maxExponent
  value : x = m * 2 ^ e

def values : Set ℚ := {x | ∃ m e, f.Represents m e x}

/-- A number whose significand is even when it has as many bits as the exponent allows. -/
def IsEven (x : ℚ) : Prop :=
  ∃ m e, f.Represents m e x ∧ (2 ^ (f.precision - 1) ≤ |m| ∨ e = f.minExponent) ∧ Even m

/-- From half a unit above the largest number on, a number has no finite one near it. -/
def Overflows (q : ℚ) : Prop := (2 ^ f.precision - 1 / 2) * 2 ^ f.maxExponent ≤ |q|

structure Rounds (q d : ℚ) : Prop where
  finite : ¬ f.Overflows q
  best : Best f.values f.IsEven q d

theorem rounds_unique {q d e : ℚ} (hd : f.Rounds q d) (he : f.Rounds q e) : d = e :=
  best_unique hd.best he.best

end BinaryFormat

def HasDigits (n : ℕ) (s : ℚ) : Prop := ∃ m k : ℤ, |m| < 10 ^ n ∧ s = m * 10 ^ k

/-- A decimal whose significand of so many digits is even. -/
def IsEvenDecimal (n : ℕ) (s : ℚ) : Prop :=
  ∃ m k : ℤ, 10 ^ (n - 1) ≤ |m| ∧ |m| < 10 ^ n ∧ s = m * 10 ^ k ∧ Even m

section Shortest

variable (f : BinaryFormat) {d s t : ℚ} {n : ℕ}

/-- The decimals of at most so many digits that are read as a number of the format. -/
def readAs (d : ℚ) (n : ℕ) : Set ℚ := {s | f.Rounds s d ∧ HasDigits n s}

/-- Of the decimals read as a number of the format, the one with the fewest digits, and of these
the closest to it. -/
def Shortest (d s : ℚ) : Prop :=
  ∃ n, (∀ m < n, ∀ t, t ∉ readAs f d m) ∧ Best (readAs f d n) (IsEvenDecimal n) d s

theorem rounds_of_shortest (h : Shortest f d s) : f.Rounds s d := by
  obtain ⟨n, -, hbest⟩ := h
  exact hbest.mem.1

theorem shortest_unique (hs : Shortest f d s) (ht : Shortest f d t) : s = t := by
  obtain ⟨n, hfew, hbest⟩ := hs
  obtain ⟨m, hfew', hbest'⟩ := ht
  have hnm : n = m := by
    rcases lt_trichotomy n m with hlt | heq | hgt
    · exact absurd hbest.mem (hfew' n hlt s)
    · exact heq
    · exact absurd hbest'.mem (hfew m hgt t)
  subst hnm
  exact best_unique hbest hbest'

theorem eq_zero_of_no_digits (h : HasDigits 0 s) : s = 0 := by
  obtain ⟨m, k, hm, rfl⟩ := h
  have hzero : m = 0 := by
    rw [pow_zero, Int.abs_lt_one_iff] at hm
    exact hm
  rw [hzero, Int.cast_zero, zero_mul]

theorem shortest_of_digit (hne : s ≠ 0) (hdigit : HasDigits 1 s) (hvalue : s ∈ f.values)
    (hfinite : ¬ f.Overflows s) : Shortest f s s := by
  have hrounds : f.Rounds s s := ⟨hfinite, best_self hvalue⟩
  refine ⟨1, ?_, best_self ⟨hrounds, hdigit⟩⟩
  intro m hm t ht
  obtain rfl : m = 0 := by omega
  obtain rfl := eq_zero_of_no_digits ht.2
  have hzero : f.Rounds 0 0 := by
    obtain ⟨m, e, hrep⟩ := hvalue
    refine ⟨ht.1.finite, best_self ⟨0, e, ?_, hrep.lower, hrep.upper, by simp⟩⟩
    simp
  exact hne (f.rounds_unique ht.1 hzero)

end Shortest

section One

variable {f : BinaryFormat} {q x : ℚ}

theorem two_le_pow (hp : 1 ≤ f.precision) : (2 : ℚ) ≤ 2 ^ f.precision :=
  calc (2 : ℚ) = 2 ^ 1 := (pow_one 2).symm
    _ ≤ 2 ^ f.precision := pow_le_pow_right₀ one_le_two hp

/-- Numbers of the format keep a distance from one. -/
theorem gap_one (hp : 1 ≤ f.precision) (hx : x ∈ f.values) (hne : x ≠ 1) :
    1 / 2 ^ f.precision ≤ |x - 1| := by
  obtain ⟨m, e, hrep⟩ := hx
  have hpos : (0 : ℚ) < 2 ^ f.precision := by positivity
  by_cases he : -(f.precision : ℤ) ≤ e
  · -- on the grid of the format just below one
    obtain ⟨k, hk⟩ := Int.eq_ofNat_of_zero_le (show 0 ≤ e + f.precision by omega)
    have hscaled : (x - 1) * 2 ^ f.precision = ((m * 2 ^ k - 2 ^ f.precision : ℤ) : ℚ) := by
      have hpow : (2 : ℚ) ^ e * 2 ^ f.precision = 2 ^ k := by
        rw [← zpow_natCast, ← zpow_add₀ two_ne_zero, hk]
        exact zpow_natCast 2 k
      rw [sub_mul, hrep.value, mul_assoc, hpow]
      push_cast
      ring
    have hint : (m * 2 ^ k - 2 ^ f.precision : ℤ) ≠ 0 := by
      intro hzero
      rw [hzero, Int.cast_zero, mul_eq_zero, sub_eq_zero] at hscaled
      rcases hscaled with h | h
      · exact hne h
      · exact hpos.ne' h
    rw [div_le_iff₀ hpos, ← abs_of_pos hpos, ← abs_mul, hscaled, ← Int.cast_abs]
    exact_mod_cast Int.one_le_abs hint
  · -- below one half
    have hm : |(m : ℚ)| ≤ 2 ^ f.precision := by exact_mod_cast hrep.significand.le
    have hexp : (2 : ℚ) ^ e ≤ 2 ^ (-(f.precision : ℤ) - 1) :=
      zpow_le_zpow_right₀ one_le_two (by omega)
    have hsmall : |x| ≤ 1 / 2 := by
      have hpow : (0 : ℚ) < 2 ^ e := zpow_pos two_pos e
      rw [hrep.value, abs_mul, abs_of_pos hpow]
      calc |(m : ℚ)| * 2 ^ e ≤ 2 ^ f.precision * 2 ^ (-(f.precision : ℤ) - 1) :=
            mul_le_mul hm hexp (zpow_pos two_pos e).le hpos.le
        _ = 1 / 2 := by
            rw [← zpow_natCast, ← zpow_add₀ two_ne_zero, ← Int.add_sub_assoc, Int.add_right_neg]
            norm_num
    have hunit : (1 : ℚ) / 2 ^ f.precision ≤ 1 / 2 :=
      one_div_le_one_div_of_le two_pos (two_le_pow hp)
    have hle := le_abs_self x
    have hdist := neg_abs_le (x - 1)
    linarith

theorem finite_of_small (hp : 1 ≤ f.precision) (hmax : 0 ≤ f.maxExponent) (hq : |q| < 3 / 2) :
    ¬ f.Overflows q := by
  intro hover
  have htwo := two_le_pow hp
  have hlarge : (2 ^ f.precision - 1 / 2 : ℚ) ≤ (2 ^ f.precision - 1 / 2) * 2 ^ f.maxExponent :=
    le_mul_of_one_le_right (by linarith) (one_le_zpow₀ one_le_two hmax)
  unfold BinaryFormat.Overflows at hover
  linarith

theorem rounds_one (hp : 1 ≤ f.precision) (hmin : f.minExponent ≤ 0) (hmax : 0 ≤ f.maxExponent)
    (hq : |q - 1| < 1 / 2 ^ (f.precision + 1)) : f.Rounds q 1 := by
  have hhalf : (1 : ℚ) / 2 ^ f.precision = 2 * (1 / 2 ^ (f.precision + 1)) := by
    rw [pow_succ]
    field_simp
  have htwo := two_le_pow hp
  have hquarter : (1 : ℚ) / 2 ^ (f.precision + 1) ≤ 1 / 4 :=
    one_div_le_one_div_of_le (by norm_num) (by
      rw [pow_succ]
      linarith)
  have hfinite : ¬ f.Overflows q := by
    have hle : |q| ≤ |q - 1| + 1 := by
      have htri := abs_add_le (q - 1) 1
      rwa [sub_add_cancel, abs_one] at htri
    exact finite_of_small hp hmax (by linarith)
  refine ⟨hfinite, best_of_closer ⟨1, 0, ?_, hmin, hmax, by simp⟩ fun x hx hne => ?_⟩
  · rw [abs_one]
    exact one_lt_pow₀ one_lt_two (by omega)
  · have hgap := gap_one hp hx hne
    have htri := abs_sub_le x q 1
    rw [abs_sub_comm x q] at htri
    linarith

end One

end Rounding
