import AgsCli.Support.Strings

/-! # Letter case

Case conversion over a table of the Unicode data. The table is that of any version; what the
conversions share with ASCII is part of it. -/
namespace Casing

/-- `char::to_lowercase`, `char::to_uppercase` and the properties of the final-sigma rule. Two
characters outside ASCII have an ASCII character in their lower case. -/
structure CaseTable where
  lower : Char → List Char
  upper : Char → List Char
  isUppercase : Char → Bool
  isCased : Char → Bool
  isCaseIgnorable : Char → Bool
  lower_ascii : ∀ c : Char, c.toNat < 128 → lower c = [c.toLower]
  lower_dotted : lower '\u0130' = ['i', '\u0307']
  lower_kelvin : lower '\u212A' = ['k']
  lower_sigma : lower '\u03A3' = ['\u03C3']
  lower_ne_nil : ∀ c, lower c ≠ []
  lower_other : ∀ c : Char, 128 ≤ c.toNat → c ≠ '\u0130' → c ≠ '\u212A' →
    ∀ d ∈ lower c, 128 ≤ d.toNat

theorem toLower_of_not_ascii {c : Char} (h : 128 ≤ c.toNat) : c.toLower = c := by
  have hnot : ¬(c.val ≥ 'A'.val ∧ c.val ≤ 'Z'.val) := by
    rintro ⟨-, hle⟩
    have hbound : c.toNat ≤ 90 := UInt32.le_iff_toNat_le.mp hle
    omega
  exact dif_neg hnot

/-- Unicode rows for the capital dotted I and the Kelvin sign beside ASCII and sigma. -/
def sampleTable : CaseTable where
  lower c :=
    if c = '\u0130' then ['i', '\u0307'] else if c = '\u212A' then ['k']
    else if c = '\u03A3' then ['\u03C3'] else [c.toLower]
  upper c := [c.toUpper]
  isUppercase c := c.isUpper || ['\u0130', '\u212A', '\u03A3'].contains c
  isCased c := c.isAlpha || ['\u0130', '\u212A', '\u03A3'].contains c
  isCaseIgnorable c := ['\'', '.', ':', '^', '`', '\u0307'].contains c
  lower_ascii c h := by
    have hwide : ∀ d : Char, 128 ≤ d.toNat → c ≠ d := by
      rintro d hd rfl
      omega
    rw [if_neg (hwide _ (by decide)), if_neg (hwide _ (by decide)), if_neg (hwide _ (by decide))]
  lower_dotted := rfl
  lower_kelvin := rfl
  lower_sigma := rfl
  lower_ne_nil c := by split_ifs <;> exact List.cons_ne_nil _ _
  lower_other c h hdotted hkelvin d hd := by
    rw [if_neg hdotted, if_neg hkelvin] at hd
    split_ifs at hd
    · rw [List.mem_singleton.mp hd]
      decide
    · rw [List.mem_singleton.mp hd, toLower_of_not_ascii h]
      exact h

variable (table : CaseTable)

def caseIgnorableThenCased (chars : List Char) : Bool :=
  match chars.dropWhile table.isCaseIgnorable with
  | c :: _ => table.isCased c
  | [] => false

/-- The lower case of a character between the reversed text before it and the text after it. -/
def lowerAt (before : List Char) (c : Char) (rest : List Char) : List Char :=
  if c = '\u03A3' then
    if caseIgnorableThenCased table before && !caseIgnorableThenCased table rest then ['\u03C2']
    else ['\u03C3']
  else table.lower c

def lowerFrom (before : List Char) : List Char → List Char
  | [] => []
  | c :: rest => lowerAt table before c rest ++ lowerFrom (c :: before) rest

def toLowercase (chars : List Char) : List Char := lowerFrom table [] chars

def toKebabCase (name : String) : String :=
  String.ofList (toLowercase table (Strings.kebabWords name))

example : toKebabCase sampleTable "s\u212Aeleton" = "skeleton" := by decide

def capitalizeFirst (string : String) : String :=
  match string.toList with
  | [] => ""
  | first :: rest => String.ofList (table.upper first ++ rest)

theorem lowerAt_ascii {c : Char} (h : c.toNat < 128) (before rest : List Char) :
    lowerAt table before c rest = [c.toLower] := by
  have hsigma : c ≠ '\u03A3' := by
    rintro rfl
    revert h
    decide
  rw [lowerAt, if_neg hsigma, table.lower_ascii c h]

theorem lowerFrom_ascii {chars : List Char} (h : ∀ c ∈ chars, c.toNat < 128)
    (before : List Char) : lowerFrom table before chars = chars.map Char.toLower := by
  induction chars generalizing before with
  | nil => rfl
  | cons c rest ih =>
    rw [lowerFrom, lowerAt_ascii table (h c List.mem_cons_self),
      ih fun d hd => h d (List.mem_cons_of_mem c hd)]
    rfl

/-- Tables agree on the name of an identifier. -/
theorem toKebabCase_ascii {name : String} (h : ∀ c ∈ Strings.kebabWords name, c.toNat < 128) :
    toKebabCase table name = Strings.kebabLabel name :=
  congrArg String.ofList (lowerFrom_ascii table h [])

end Casing
