import AgsCli.Support.Decimals
import Mathlib.Data.List.TakeWhile
import Mathlib.Data.Rat.Defs
import Mathlib.Algebra.Order.Field.Rat
import Mathlib.Tactic.NormNum

/-! # Decimal numerals

The texts Rust's float parser takes for a finite number, and the number each one denotes: a sign,
digits with a point among or around them, and an exponent. -/
namespace Numerals

open Strings Decimals

def splitSign : List Char → Bool × List Char
  | '-' :: rest => (true, rest)
  | '+' :: rest => (false, rest)
  | rest => (false, rest)

def exponent? : List Char → Option Int
  | [] => some 0
  | c :: rest =>
    if c = 'e' || c = 'E' then
      let (negative, digits) := splitSign rest
      (decimal? digits).map fun n => if negative then -(n : Int) else n
    else none

def splitFraction : List Char → List Char × List Char
  | '.' :: rest => (rest.takeWhile isAsciiDigit, rest.dropWhile isAsciiDigit)
  | rest => ([], rest)

def unsigned? (cs : List Char) : Option ℚ :=
  let whole := cs.takeWhile isAsciiDigit
  let (fraction, rest) := splitFraction (cs.dropWhile isAsciiDigit)
  if whole.isEmpty && fraction.isEmpty then none
  else (exponent? rest).map fun e =>
    (Nat.ofDigitChars 10 (whole ++ fraction) 0 : ℚ) * (10 : ℚ) ^ (e - (fraction.length : Int))

def numeral? (text : String) : Option ℚ :=
  let (negative, rest) := splitSign text.toList
  (unsigned? rest).map fun q => if negative then -q else q

section Integers

variable {cs : List Char} {n : Int}

theorem splitSign_of_digits (h : ∀ c ∈ cs, isAsciiDigit c = true) :
    splitSign cs = (false, cs) := by
  have hfirst : ∀ c, isAsciiDigit c = false → ∀ rest, cs ≠ c :: rest := by
    rintro c hc rest rfl
    rw [h c List.mem_cons_self] at hc
    cases hc
  exact splitSign.eq_3 cs (hfirst '-' (by decide)) (hfirst '+' (by decide))

theorem unsigned_of_digits (hne : cs ≠ []) (h : ∀ c ∈ cs, isAsciiDigit c = true) :
    unsigned? cs = some (Nat.ofDigitChars 10 cs 0 : ℚ) := by
  have htake : cs.takeWhile isAsciiDigit = cs := List.takeWhile_eq_self_iff.mpr h
  have hdrop : cs.dropWhile isAsciiDigit = [] := List.dropWhile_eq_nil_iff.mpr h
  have hempty : cs.isEmpty = false := List.isEmpty_eq_false_iff.mpr hne
  unfold unsigned?
  rw [htake, hdrop, splitFraction.eq_2 [] fun _ h => by cases h]
  simp [hempty, exponent?]

theorem numeral_of_sign {text : String} {negative : Bool} {digits : List Char}
    (hsplit : splitSign text.toList = (negative, digits)) (hne : digits ≠ [])
    (h : ∀ c ∈ digits, isAsciiDigit c = true) :
    numeral? text =
      some (if negative then -(Nat.ofDigitChars 10 digits 0 : ℚ) else Nat.ofDigitChars 10 digits 0)
    := by
  unfold numeral?
  rw [hsplit]
  simp [unsigned_of_digits hne h]

end Integers

section Characters

/-- The characters of a numeral beside its digits. -/
def marks : List Char := ['+', '-', '.', 'e', 'E']

theorem splitSign_chars (cs : List Char) :
    ∀ c ∈ cs, c ∈ (splitSign cs).2 ∨ c ∈ marks := by
  intro c hc
  unfold splitSign
  split
  · rcases List.mem_cons.mp hc with rfl | hc
    · exact Or.inr (by decide)
    · exact Or.inl hc
  · rcases List.mem_cons.mp hc with rfl | hc
    · exact Or.inr (by decide)
    · exact Or.inl hc
  · exact Or.inl hc

theorem splitFraction_chars (cs : List Char) :
    ∀ c ∈ cs, isAsciiDigit c = true ∨ c ∈ (splitFraction cs).2 ∨ c ∈ marks := by
  intro c hc
  unfold splitFraction
  split
  · next rest =>
    rcases List.mem_cons.mp hc with rfl | hc
    · exact Or.inr (Or.inr (by decide))
    · rw [← List.takeWhile_append_dropWhile (p := isAsciiDigit) (l := rest)] at hc
      rcases List.mem_append.mp hc with hc | hc
      · exact Or.inl (List.mem_takeWhile_imp hc)
      · exact Or.inr (Or.inl hc)
  · exact Or.inr (Or.inl hc)

theorem exponent_chars {cs : List Char} {e : Int} (h : exponent? cs = some e) :
    ∀ c ∈ cs, isAsciiDigit c = true ∨ c ∈ marks := by
  intro c hc
  cases cs with
  | nil => cases hc
  | cons d rest =>
    rw [exponent?] at h
    split_ifs at h with hmark
    obtain ⟨n, hn, -⟩ := Option.map_eq_some_iff.mp h
    obtain ⟨m, hm, -⟩ := Option.bind_eq_some_iff.mp hn
    rcases List.mem_cons.mp hc with rfl | hc
    · right
      rcases Bool.or_eq_true_iff.mp hmark with hmark | hmark
      · rw [of_decide_eq_true hmark]
        decide
      · rw [of_decide_eq_true hmark]
        decide
    · rcases splitSign_chars rest c hc with hc | hc
      · exact Or.inl (digits_of_decimal hm c hc)
      · exact Or.inr hc

theorem chars_of_numeral {text : String} {q : ℚ} (h : numeral? text = some q) :
    ∀ c ∈ text.toList, isAsciiDigit c = true ∨ c ∈ marks := by
  intro c hc
  obtain ⟨r, hr, -⟩ := Option.map_eq_some_iff.mp h
  rcases splitSign_chars _ c hc with hc | hc
  · rw [unsigned?] at hr
    simp only at hr
    split_ifs at hr
    obtain ⟨e, he, -⟩ := Option.map_eq_some_iff.mp hr
    rw [← List.takeWhile_append_dropWhile (p := isAsciiDigit) (l := (splitSign text.toList).2)] at hc
    rcases List.mem_append.mp hc with hc | hc
    · exact Or.inl (List.mem_takeWhile_imp hc)
    · rcases splitFraction_chars _ c hc with hc | hc | hc
      · exact Or.inl hc
      · exact exponent_chars he c hc
      · exact Or.inr hc
  · exact Or.inr hc

theorem numeral_not_mem {text : String} {q : ℚ} (h : numeral? text = some q) {c : Char}
    (hdigit : isAsciiDigit c = false) (hmark : c ∉ marks) : c ∉ text.toList := by
  intro hc
  rcases chars_of_numeral h c hc with hc | hc
  · rw [hdigit] at hc
    cases hc
  · exact hmark hc

theorem numeral_nonempty {text : String} {q : ℚ} (h : numeral? text = some q) :
    text.toList ≠ [] := by
  intro hempty
  have hnone : unsigned? [] = none := rfl
  rw [numeral?, hempty, splitSign] at h
  · simp [hnone] at h
  · intro rest heq
    cases heq
  · intro rest heq
    cases heq

end Characters

example : ["", ".", "1.", ".5", "1e", "inf", "0x1", "1_0"].map (fun s => (numeral? s).isSome) =
    [false, false, true, true, false, false, false, false] := by decide +kernel

end Numerals
