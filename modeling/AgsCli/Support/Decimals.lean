import AgsCli.Support.Strings

/-! # Decimal texts

What Rust's unsigned parser accepts: digits, with a plus sign in front or not. Two texts of one
number differ in leading zeros only. -/
namespace Decimals

open Strings

theorem digits_of_decimal {cs : List Char} {n : Nat} (h : decimal? cs = some n) :
    ∀ c ∈ cs, isAsciiDigit c = true := by
  have hnone : ∀ cs : List Char, cs.foldl (fun (acc : Option Nat) c => acc.bind fun n =>
      if isAsciiDigit c then some (n * 10 + (c.toNat - '0'.toNat)) else none) none = none := by
    intro cs
    induction cs with
    | nil => rfl
    | cons c rest ih => exact ih
  have hfold : ∀ (cs : List Char) (acc n : Nat),
      cs.foldl (fun (acc : Option Nat) c => acc.bind fun n =>
        if isAsciiDigit c then some (n * 10 + (c.toNat - '0'.toNat)) else none) (some acc) = some n →
      ∀ c ∈ cs, isAsciiDigit c = true := by
    intro cs
    induction cs with
    | nil => exact fun _ _ _ c hc => absurd hc List.not_mem_nil
    | cons d rest ih =>
      intro acc n h
      rw [List.foldl_cons, Option.bind_some] at h
      by_cases hd : isAsciiDigit d = true
      · rw [if_pos hd] at h
        intro c hc
        rcases List.mem_cons.mp hc with rfl | hc
        · exact hd
        · exact ih _ _ h c hc
      · rw [if_neg hd, hnone] at h
        cases h
  cases cs with
  | nil => cases h
  | cons c rest => exact hfold (c :: rest) 0 n h

theorem digits_of_parseUsize {cs : List Char} {n : Nat} (h : parseUsize cs = some n) :
    ∀ c ∈ cs, isAsciiDigit c = true ∨ c = '+' := by
  intro c hc
  have hplain : ∀ digits, decimal? digits = some n → c ∈ digits → isAsciiDigit c = true :=
    fun digits hdigits hmem => digits_of_decimal hdigits c hmem
  cases cs with
  | nil => cases hc
  | cons d rest =>
    by_cases hd : d = '+'
    · subst hd
      have hrest : decimal? rest = some n := by
        rw [parseUsize] at h
        split at h
        · next m hm =>
          split_ifs at h
          rw [← Option.some.inj h]
          exact hm
        · cases h
      rcases List.mem_cons.mp hc with rfl | hmem
      · exact Or.inr rfl
      · exact Or.inl (hplain rest hrest hmem)
    · have hall : decimal? (d :: rest) = some n := by
        rw [parseUsize.eq_2 _ fun rest heq => hd (List.cons.inj heq).1] at h
        split at h
        · next m hm =>
          split_ifs at h
          rw [← Option.some.inj h]
          exact hm
        · cases h
      exact Or.inl (hplain _ hall hc)

def significant (cs : List Char) : List Char := cs.dropWhile (· = '0')

theorem isAsciiDigit_eq (c : Char) : isAsciiDigit c = c.isDigit := by
  rw [isAsciiDigit, Char.isDigit]
  rfl

theorem decimal_of_digits {cs : List Char} (hne : cs ≠ [])
    (h : ∀ c ∈ cs, isAsciiDigit c = true) : decimal? cs = some (Nat.ofDigitChars 10 cs 0) := by
  have hfold : ∀ (cs : List Char) (acc : Nat), (∀ c ∈ cs, isAsciiDigit c = true) →
      cs.foldl (fun (acc : Option Nat) c => acc.bind fun n =>
        if isAsciiDigit c then some (n * 10 + (c.toNat - '0'.toNat)) else none) (some acc) =
      some (Nat.ofDigitChars 10 cs acc) := by
    intro cs
    induction cs with
    | nil => exact fun acc _ => rfl
    | cons d rest ih =>
      intro acc h
      rw [List.foldl_cons, Option.bind_some, if_pos (h d List.mem_cons_self),
        ih _ fun c hc => h c (List.mem_cons_of_mem d hc), Nat.ofDigitChars_cons, Nat.mul_comm]
  cases cs with
  | nil => exact absurd rfl hne
  | cons c rest => exact hfold (c :: rest) 0 h

theorem ne_nil_of_decimal {cs : List Char} {n : Nat} (h : decimal? cs = some n) : cs ≠ [] := by
  rintro rfl
  cases h

theorem decimal_eq {cs : List Char} {n : Nat} (h : decimal? cs = some n) :
    Nat.ofDigitChars 10 cs 0 = n := by
  rw [decimal_of_digits (ne_nil_of_decimal h) (digits_of_decimal h)] at h
  exact Option.some.inj h

theorem digits_repr (n : Nat) : ∀ c ∈ Nat.toDigits 10 n, isAsciiDigit c = true := by
  intro c hc
  rw [isAsciiDigit_eq]
  exact Nat.isDigit_of_mem_toDigits (by decide) (by decide) hc

theorem decimal_toDigits (n : Nat) : decimal? (Nat.toDigits 10 n) = some n := by
  rw [decimal_of_digits Nat.toDigits_ne_nil (digits_repr n), Nat.ofDigitChars_ten_toDigits]

/-- Without a sign the parser reads a number that fits. -/
theorem parseUsize_digits {cs : List Char} (h : ∀ c ∈ cs, isAsciiDigit c = true) :
    parseUsize cs = (decimal? cs).filter (· < 2 ^ 64) := by
  have hsign : ∀ rest, cs ≠ '+' :: rest := by
    rintro rest rfl
    exact absurd (h '+' List.mem_cons_self) (by decide)
  rw [parseUsize.eq_2 _ hsign]
  cases decimal? cs with
  | none => rfl
  | some n => simp [Option.filter]

theorem lt_of_parseUsize {cs : List Char} {n : Nat} (h : parseUsize cs = some n) : n < 2 ^ 64 := by
  unfold parseUsize at h
  dsimp only at h
  generalize decimal? _ = o at h
  cases o with
  | none => cases h
  | some m =>
    simp only at h
    split_ifs at h with hbound
    rw [← Option.some.inj h]
    exact hbound

theorem decimal_of_parseUsize {cs : List Char} {n : Nat} (h : parseUsize cs = some n)
    (hsign : '+' ∉ cs) : decimal? cs = some n := by
  have hdigits : ∀ c ∈ cs, isAsciiDigit c = true := by
    intro c hc
    refine (digits_of_parseUsize h c hc).resolve_right ?_
    rintro rfl
    exact hsign hc
  rw [parseUsize_digits hdigits] at h
  exact (Option.filter_eq_some_iff.mp h).1

theorem parseUsize_toDigits {n : Nat} (h : n < 2 ^ 64) :
    parseUsize (Nat.toDigits 10 n) = some n := by
  rw [parseUsize_digits (digits_repr n), decimal_toDigits, Option.filter_some,
    if_pos (decide_eq_true h)]

theorem digitChar_of_digit {c : Char} (h : isAsciiDigit c = true) :
    c.toNat - '0'.toNat < 10 ∧ (c.toNat - '0'.toNat).digitChar = c := by
  rw [isAsciiDigit, Bool.and_eq_true, decide_eq_true_eq, decide_eq_true_eq] at h
  have hlow : '0'.toNat ≤ c.toNat := h.1
  have hhigh : c.toNat ≤ '9'.toNat := h.2
  have hzero : '0'.toNat = 48 := rfl
  have hnine : '9'.toNat = 57 := rfl
  have hdigit : ∀ n < 10, Char.ofNat (48 + n) = n.digitChar := by decide
  refine ⟨by omega, ?_⟩
  rw [← hdigit (c.toNat - '0'.toNat) (by omega), hzero, Nat.add_sub_cancel' (by omega),
    Char.ofNat_toNat]

theorem toDigits_append {cs : List Char} (h : ∀ c ∈ cs, isAsciiDigit c = true) {n : Nat}
    (hn : 0 < n) : Nat.toDigits 10 n ++ cs = Nat.toDigits 10 (Nat.ofDigitChars 10 cs n) := by
  induction cs generalizing n with
  | nil => simp
  | cons d rest ih =>
    obtain ⟨hbound, hchar⟩ := digitChar_of_digit (h d List.mem_cons_self)
    have hstep := Nat.toDigits_append_toDigits (by decide) hn hbound
    rw [Nat.toDigits_of_lt_base hbound, hchar] at hstep
    rw [Nat.ofDigitChars_cons, ← ih (fun c hc => h c (List.mem_cons_of_mem d hc)) (by omega),
      ← hstep, List.append_assoc, List.singleton_append]

theorem significant_eq {cs : List Char} (h : ∀ c ∈ cs, isAsciiDigit c = true) :
    significant cs = if Nat.ofDigitChars 10 cs 0 = 0 then [] else
      Nat.toDigits 10 (Nat.ofDigitChars 10 cs 0) := by
  induction cs with
  | nil => rfl
  | cons d rest ih =>
    have hrest := fun c hc => h c (List.mem_cons_of_mem d hc)
    obtain ⟨hbound, hchar⟩ := digitChar_of_digit (h d List.mem_cons_self)
    rw [significant, List.dropWhile_cons, Nat.ofDigitChars_cons, Nat.mul_zero, Nat.zero_add]
    by_cases hd : d = '0'
    · subst hd
      rw [if_pos (decide_eq_true rfl)]
      exact ih hrest
    · have hpos : 0 < d.toNat - '0'.toNat := by
        by_contra hle
        have hzero : d.toNat - '0'.toNat = 0 := by omega
        rw [hzero] at hchar
        exact hd hchar.symm
      have hvalue := toDigits_append hrest hpos
      rw [Nat.toDigits_of_lt_base hbound, hchar, List.singleton_append] at hvalue
      have hne : Nat.ofDigitChars 10 rest (d.toNat - '0'.toNat) ≠ 0 := by
        intro hzero
        rw [Nat.ofDigitChars_eq_ofDigitChars_zero] at hzero
        have hpow : 0 < 10 ^ rest.length * (d.toNat - '0'.toNat) :=
          Nat.mul_pos (Nat.pow_pos (by decide)) hpos
        omega
      rw [if_neg (by simpa using hd), if_neg hne, hvalue]

theorem significant_of_decimal {a b : List Char} {n : Nat} (ha : decimal? a = some n)
    (hb : decimal? b = some n) : significant a = significant b := by
  rw [significant_eq (digits_of_decimal ha), significant_eq (digits_of_decimal hb), decimal_eq ha,
    decimal_eq hb]

/-- A number that fits is read back from its text. -/
theorem parseUsize_toString {n : Nat} (h : n < 2 ^ 64) :
    parseUsize (toString n).toList = some n := by
  have hdigits : (toString n).toList = Nat.toDigits 10 n := String.toList_ofList
  rw [hdigits, parseUsize_toDigits h]

/-- An index has no bracket in it. -/
theorem no_close_of_parse {text : List Char} (h : (parseUsize text).isSome = true) :
    ']' ∉ text := by
  obtain ⟨n, hn⟩ := Option.isSome_iff_exists.mp h
  intro hmem
  exact absurd (digits_of_parseUsize hn ']' hmem) (by decide)

end Decimals
