import AgsCli.Invocation.ServiceRoute
import AgsCli.Library.Rounding
import AgsCli.Protocol.JsonScalars

/-! # What a flag's text says of its parameter

A flag's raw text is coerced by the schema of its parameter and printed by
`json_to_param_string`, which does not see the schema. Numbers go through a double, also those in
an array. -/
namespace FlagValues

open Json CatalogueTypes Strings Decimals Numerals JsonScalars Rounding AutoDerive Resolve
  Synthesised CliInputs ServiceRoute

def double : BinaryFormat := { precision := 53, minExponent := -1074, maxExponent := 971 }

/-- `parse::<f64>`, `Number::from_f64` and the number's text: the nearest double of a numeral,
printed with the fewest digits that are read as it again. -/
structure ReadsFloat (readers : Readers) (raw : String) : Prop where
  miss : numeral? raw = none → readers.parseFloat raw = none
  overflow : ∀ q, numeral? raw = some q → double.Overflows q → readers.parseFloat raw = none
  rounds : ∀ q, numeral? raw = some q → ¬ double.Overflows q → ∃ d text s,
    double.Rounds q d ∧ readers.parseFloat raw = some text ∧ numeral? text = some s ∧
    Shortest double d s

def boolOf? (text : String) : Option Bool :=
  match asciiLower text with
  | "true" => some true
  | "false" => some false
  | _ => none

/-- Digits, with a minus sign in front or not; `-0` is no integer to the JSON reader. -/
def isIntegerText (text : String) : Bool :=
  text.toList.all (fun c => isAsciiDigit c || c = '-') && text ≠ "-0"

/-- A number token by itself: an integer of 64 bits is read as it is, another number as a double,
printed with the fewest digits that are read as it, or not at all. -/
structure ReadsNumber (readers : Readers) (text : String) : Prop where
  integer : ∀ n : Int, isIntegerText text = true → numeral? text = some (n : ℚ) → -2 ^ 63 ≤ n →
    n < 2 ^ 64 → readers.parseJson text = some (.number (.int n))
  number : ∀ v, readers.parseJson text = some v →
    (∃ n : Int, v = .number (.int n) ∧ numeral? text = some (n : ℚ)) ∨
      ∃ shown d q, v = .number (.float shown) ∧ numeral? shown = some q ∧ Shortest double d q

def elementValue? (readers : Readers) : Element → Option Value
  | .keyword text => some (if text = "null" then .null else .bool (text = "true"))
  | .number text => readers.parseJson text
  | .string s => some (.string s)

/-- `serde_json::from_str` on an array of scalars, which it reads element by element. -/
structure ReadsArray (readers : Readers) (raw : String) : Prop where
  items : ∀ es, elements? raw = some es →
    readers.parseJson raw = (es.mapM (elementValue? readers)).map .array
  numbers : ∀ es, elements? raw = some es → ∀ text, .number text ∈ es → ReadsNumber readers text

def NumberKept (readers : Readers) (text : String) : Prop :=
  ∃ n, readers.parseJson text = some (.number n) ∧ numeral? n.render = numeral? text

section Coercion

variable (readers : Readers) (raw : String) (param : ParameterSchema)

def Parses : Prop :=
  match param.valueType with
  | .string => True
  | .enum _ => True
  | .integer => (parseI64 raw).isSome = true
  | .number => (numeral? raw).isSome = true
  | .boolean => (boolOf? raw).isSome = true
  | .array _ => ∃ items, readers.parseJson raw = some (.array items)

/-- A text says of a value of the declared type what the raw text says. -/
def SameValue (param : ParameterSchema) (raw sent : String) : Prop :=
  match param.valueType with
  | .string => sent = raw
  | .enum _ => sent = raw
  | .integer => ∀ q, numeral? raw = some q → numeral? sent = some q
  | .number => ∀ q, numeral? raw = some q → numeral? sent = some q
  | .boolean => ∀ b, boolOf? raw = some b → boolOf? sent = some b
  | .array _ => ∀ es, elements? raw = some es → Listed es sent

structure Survives : Prop where
  value : SameValue param raw (flagText readers param raw)
  kept : ¬ Parses readers raw param → flagText readers param raw = raw

/-- A number is the shortest decimal of its double or has none; what an array parameter gets is
no JSON, an array whose numbers are kept, or a text of another kind as the printer writes it. -/
def Spared : Prop :=
  match param.valueType with
  | .number => ∀ q, numeral? raw = some q → double.Overflows q ∨ ∃ d, Shortest double d q
  | .array _ =>
    (∀ v, readers.parseJson raw = some v → v.isArray = true ∨ jsonToParamString v = raw) ∧
      ∀ es, elements? raw = some es → ∀ text, .number text ∈ es → NumberKept readers text
  | .string | .integer | .boolean | .enum _ => True

end Coercion

section Integers

variable {raw : String} {n : Int}

theorem foldl_digits {cs : List Char} (h : ∀ c ∈ cs, isAsciiDigit c = true) (acc : Nat) :
    cs.foldl (fun (n : Int) c => n * 10 + (c.toNat - '0'.toNat)) acc =
      (Nat.ofDigitChars 10 cs acc : Int) := by
  induction cs generalizing acc with
  | nil => rfl
  | cons c rest ih =>
    have hc : '0'.toNat ≤ c.toNat := by
      have hdigit := h c List.mem_cons_self
      rw [isAsciiDigit_eq] at hdigit
      exact (Char.isDigit_iff_toNat.mp hdigit).1
    have hstep : (acc : Int) * 10 + (c.toNat - '0'.toNat) =
        ((10 * acc + (c.toNat - '0'.toNat) : Nat) : Int) := by
      rw [Nat.cast_add, Nat.cast_mul, Nat.cast_sub hc, mul_comm]
      rfl
    rw [List.foldl_cons, Nat.ofDigitChars_cons, hstep]
    exact ih (fun d hd => h d (List.mem_cons_of_mem c hd)) _

theorem parseI64_eq (raw : String) : parseI64 raw = match splitSign raw.toList with
    | (negative, digits) =>
      if digits.isEmpty || !digits.all isAsciiDigit then none
      else
        let magnitude : Int := digits.foldl (fun (n : Int) c => n * 10 + (c.toNat - '0'.toNat)) 0
        let n := if negative then -magnitude else magnitude
        if -2 ^ 63 ≤ n ∧ n < 2 ^ 63 then some n else none := rfl

/-- The integer parser reads the number its numeral denotes. -/
theorem numeral_of_parseI64 (h : parseI64 raw = some n) : numeral? raw = some (n : ℚ) := by
  rcases hsplit : splitSign raw.toList with ⟨negative, digits⟩
  rw [parseI64_eq, hsplit] at h
  simp only at h
  by_cases hbad : (digits.isEmpty || !digits.all isAsciiDigit) = true
  · rw [if_pos hbad] at h
    cases h
  · rw [if_neg hbad] at h
    simp only [Bool.or_eq_true, List.isEmpty_iff, Bool.not_eq_true', not_or,
      Bool.not_eq_false, List.all_eq_true] at hbad
    have hfold := foldl_digits hbad.2 0
    rw [Nat.cast_zero] at hfold
    rw [hfold] at h
    cases negative with
    | true =>
      simp only [if_true] at h
      split_ifs at h
      rw [numeral_of_sign hsplit hbad.1 hbad.2, if_pos rfl, ← Option.some.inj h, Int.cast_neg,
        Int.cast_natCast]
    | false =>
      simp only [Bool.false_eq_true, if_false] at h
      split_ifs at h
      rw [numeral_of_sign hsplit hbad.1 hbad.2, if_neg Bool.false_ne_true, ← Option.some.inj h,
        Int.cast_natCast]

theorem numeral_toString (n : Int) : numeral? (toString n) = some (n : ℚ) := by
  have htext := toList_render_int n
  rw [Number.render] at htext
  by_cases hn : 0 ≤ n
  · rw [if_pos hn] at htext
    have hsplit := splitSign_of_digits (Decimals.digits_repr n.toNat)
    rw [← htext] at hsplit
    rw [numeral_of_sign hsplit (by rw [htext]; exact Nat.toDigits_ne_nil)
      (by rw [htext]; exact Decimals.digits_repr n.toNat), htext, Nat.ofDigitChars_ten_toDigits]
    have hcast : ((n.toNat : Int) : ℚ) = n := by rw [Int.toNat_of_nonneg hn]
    rw [if_neg Bool.false_ne_true, ← Int.cast_natCast, hcast]
  · rw [if_neg hn] at htext
    have hsplit : splitSign (toString n).toList = (true, Nat.toDigits 10 (-n).toNat) := by
      rw [htext]
      rfl
    rw [numeral_of_sign hsplit Nat.toDigits_ne_nil (Decimals.digits_repr _),
      Nat.ofDigitChars_ten_toDigits]
    have hcast : (((-n).toNat : Int) : ℚ) = -n := by
      rw [Int.toNat_of_nonneg (by omega), Int.cast_neg]
    rw [if_pos rfl, ← Int.cast_natCast, hcast, neg_neg]

/-- An integer's own text is read back when it fits. -/
theorem parseI64_toString (n : Int) :
    parseI64 (toString n) = if -2 ^ 63 ≤ n ∧ n < 2 ^ 63 then some n else none := by
  have htext := toList_render_int n
  rw [Number.render] at htext
  have hfold := fun m => foldl_digits (Decimals.digits_repr m) 0
  have hgood : ∀ m, ((Nat.toDigits 10 m).isEmpty || !(Nat.toDigits 10 m).all isAsciiDigit) =
      false := by
    intro m
    have hall : (Nat.toDigits 10 m).all isAsciiDigit = true :=
      List.all_eq_true.mpr (Decimals.digits_repr m)
    rw [List.isEmpty_eq_false_iff.mpr Nat.toDigits_ne_nil, hall]
    rfl
  by_cases hn : 0 ≤ n
  · rw [if_pos hn] at htext
    have hvalue := hfold n.toNat
    rw [Nat.cast_zero] at hvalue
    rw [parseI64_eq, htext, splitSign_of_digits (Decimals.digits_repr n.toNat)]
    simp only [hgood, Bool.false_eq_true, if_false]
    rw [hvalue, Nat.ofDigitChars_ten_toDigits, Int.toNat_of_nonneg hn]
  · rw [if_neg hn] at htext
    have hsplit : splitSign ('-' :: Nat.toDigits 10 (-n).toNat) =
        (true, Nat.toDigits 10 (-n).toNat) := rfl
    have hvalue := hfold (-n).toNat
    rw [Nat.cast_zero] at hvalue
    rw [parseI64_eq, htext, hsplit]
    simp only [hgood, Bool.false_eq_true, if_false, if_true]
    rw [hvalue, Nat.ofDigitChars_ten_toDigits, Int.toNat_of_nonneg (by omega), neg_neg]

end Integers

section Texts

variable (readers : Readers) (raw : String) (param : ParameterSchema)

def typeName : ValueType → String
  | .string => "string"
  | .integer => "integer"
  | .number => "number"
  | .boolean => "boolean"
  | .array _ => "array"
  | .enum _ => "string"

theorem get?_enumSchema (values : List String) :
    (enumSchema values).get? "type" = some (.string "string") := by
  have hne : "type" ≠ "enum" := by decide
  simp only [enumSchema, Value.ofPairs, Value.get?, List.foldl_cons, List.foldl_nil]
  rw [OrderedMap.Entries.lookup_insert_of_ne hne, OrderedMap.Entries.lookup_insert_self]

theorem typeHint_schema : typeHint (some (parameterSchemaValue param)) = typeName param.valueType :=
  by
  unfold parameterSchemaValue
  cases param.valueType with
  | enum values =>
    simp only [typeHint, Option.bind_some, get?_enumSchema]
    rfl
  | _ => rfl

theorem flagText_eq : flagText readers param raw =
    match param.valueType with
    | .string => raw
    | .enum _ => raw
    | .integer => ((parseI64 raw).map toString).getD raw
    | .number => (readers.parseFloat raw).getD raw
    | .boolean => ((boolOf? raw).map fun b => if b then "true" else "false").getD raw
    | .array _ => ((readers.parseJson raw).map jsonToParamString).getD raw := by
  unfold flagText coerceCliValue
  rw [typeHint_schema]
  cases param.valueType with
  | string => simp [typeName, jsonToParamString]
  | enum values => simp [typeName, jsonToParamString]
  | integer => cases parseI64 raw <;> simp [typeName, jsonToParamString, Number.render]
  | number => cases readers.parseFloat raw <;> simp [typeName, jsonToParamString, Number.render]
  | array inner => cases readers.parseJson raw <;> simp [typeName, jsonToParamString]
  | boolean =>
    have hcases : ∀ text : String, jsonToParamString (match text with
        | "true" => Value.bool true
        | "false" => Value.bool false
        | _ => Value.string raw) =
        ((match text with
          | "true" => some true
          | "false" => some false
          | _ => none).map fun (b : Bool) => if b then "true" else "false").getD raw := by
      intro text
      split <;> simp [jsonToParamString]
    exact hcases (asciiLower raw)

end Texts

section Lists

variable {α β : Type}

theorem forall₂_of_mapM {f : α → Option β} {xs : List α} {ys : List β}
    (h : xs.mapM f = some ys) : List.Forall₂ (fun x y => f x = some y) xs ys := by
  induction xs generalizing ys with
  | nil =>
    obtain rfl := Option.some.inj h
    exact .nil
  | cons x xs ih =>
    rw [List.mapM_cons, Option.bind_eq_bind, Option.bind_eq_some_iff] at h
    obtain ⟨y, hy, h⟩ := h
    rw [Option.bind_eq_bind, Option.bind_eq_some_iff] at h
    obtain ⟨others, hothers, h⟩ := h
    obtain rfl := Option.some.inj h
    exact .cons hy (ih hothers)

theorem mapM_of_forall {f : α → Option β} {xs : List α}
    (h : ∀ x ∈ xs, ∃ y, f x = some y) : ∃ ys, xs.mapM f = some ys := by
  induction xs with
  | nil => exact ⟨[], rfl⟩
  | cons x xs ih =>
    obtain ⟨y, hy⟩ := h x List.mem_cons_self
    obtain ⟨ys, hys⟩ := ih fun z hz => h z (List.mem_cons_of_mem x hz)
    exact ⟨y :: ys, by rw [List.mapM_cons, hy, hys]; rfl⟩

theorem forall₂_both {R S : α → β → Prop} {xs : List α} {ys : List β} (hr : List.Forall₂ R xs ys)
    (hs : List.Forall₂ S xs ys) : List.Forall₂ (fun x y => R x y ∧ S x y) xs ys := by
  induction hr with
  | nil => exact .nil
  | cons h _ ih =>
    cases hs with
    | cons h' hs => exact .cons ⟨h, h'⟩ (ih hs)

theorem exists_of_mem_left {R : α → β → Prop} {xs : List α} {ys : List β}
    (h : List.Forall₂ R xs ys) {x : α} (hx : x ∈ xs) : ∃ y, R x y := by
  induction h with
  | nil => cases hx
  | cons hxy _ ih =>
    rcases List.mem_cons.mp hx with rfl | hx
    · exact ⟨_, hxy⟩
    · exact ih hx

end Lists

section Types

variable {readers : Readers} {raw : String} {param : ParameterSchema}

theorem survives_text (h : param.valueType = .string ∨ ∃ values, param.valueType = .enum values) :
    Survives readers raw param := by
  rcases h with h | ⟨values, h⟩
  · refine ⟨?_, fun hmiss => absurd ?_ hmiss⟩
    · simp only [SameValue, flagText_eq, h]
    · simp only [Parses, h]
  · refine ⟨?_, fun hmiss => absurd ?_ hmiss⟩
    · simp only [SameValue, flagText_eq, h]
    · simp only [Parses, h]

theorem survives_integer (h : param.valueType = .integer) : Survives readers raw param := by
  have hsent : flagText readers param raw = ((parseI64 raw).map toString).getD raw := by
    rw [flagText_eq, h]
  constructor
  · simp only [SameValue, h]
    intro q hq
    rw [hsent]
    cases hparse : parseI64 raw with
    | none => exact hq
    | some n =>
      rw [numeral_of_parseI64 hparse] at hq
      exact (numeral_toString n).trans hq
  · intro hmiss
    simp only [Parses, h, Option.not_isSome_iff_eq_none] at hmiss
    rw [hsent, hmiss]
    rfl

theorem survives_boolean (h : param.valueType = .boolean) : Survives readers raw param := by
  have hsent : flagText readers param raw =
      ((boolOf? raw).map fun b => if b then "true" else "false").getD raw := by
    rw [flagText_eq, h]
  constructor
  · simp only [SameValue, h]
    intro b hb
    rw [hsent, hb, Option.map_some, Option.getD_some]
    cases b <;> decide
  · intro hmiss
    simp only [Parses, h, Option.not_isSome_iff_eq_none] at hmiss
    rw [hsent, hmiss]
    rfl

/-- A number is printed as the shortest decimal of its double. -/
theorem survives_number_iff (h : param.valueType = .number) (hreads : ReadsFloat readers raw) :
    Survives readers raw param ↔
      ∀ q, numeral? raw = some q → double.Overflows q ∨ ∃ d, Shortest double d q := by
  have hsent : flagText readers param raw = (readers.parseFloat raw).getD raw := by
    rw [flagText_eq, h]
  constructor
  · intro hs q hq
    by_cases hover : double.Overflows q
    · exact Or.inl hover
    · obtain ⟨d, text, s, -, htext, hvalue, hshort⟩ := hreads.rounds q hq hover
      have hkept := hs.value
      simp only [SameValue, h] at hkept
      have hsame := hkept q hq
      rw [hsent, htext, Option.getD_some, hvalue] at hsame
      rw [← Option.some.inj hsame]
      exact Or.inr ⟨d, hshort⟩
  · intro hall
    constructor
    · simp only [SameValue, h]
      intro q hq
      rw [hsent]
      by_cases hover : double.Overflows q
      · rw [hreads.overflow q hq hover]
        exact hq
      · obtain ⟨d, text, s, hrounds, htext, hvalue, hshort⟩ := hreads.rounds q hq hover
        obtain ⟨d', hd'⟩ := (hall q hq).resolve_left hover
        obtain rfl := double.rounds_unique hrounds (rounds_of_shortest double hd')
        rw [htext, Option.getD_some, hvalue, shortest_unique double hshort hd']
    · intro hmiss
      simp only [Parses, h, Option.not_isSome_iff_eq_none] at hmiss
      rw [hsent, hreads.miss hmiss]
      rfl

theorem paramStrings_eq_map (items : List Value) :
    paramStrings items = items.map jsonToParamString := by
  induction items with
  | nil => rfl
  | cons v rest ih => rw [paramStrings, ih, List.map_cons]

/-- An element that is read as it is, number or not, is printed as it is. -/
theorem sameElement_printed {e : Element} {text : List Char} {v : Value}
    (he : element? text = some e) (hv : elementValue? readers e = some v)
    (hkept : ∀ t, e = .number t → NumberKept readers t) :
    SameElement e (jsonToParamString v) := by
  rcases element_cases he with ⟨_, s, -, -, rfl⟩ | ⟨word, hword, rfl⟩ | ⟨q, hq, rfl⟩
  · obtain rfl := Option.some.inj hv
    exact jsonToParamString.eq_1 _
  · obtain rfl := Option.some.inj hv
    have hall : ∀ word ∈ keywords, jsonToParamString
        (if word = "null" then Value.null else .bool (word = "true")) = word := by decide
    exact hall word hword
  · obtain ⟨n, hn, hsame⟩ := hkept _ rfl
    obtain rfl := Option.some.inj (hn.symm.trans hv)
    exact ⟨q, hq, hsame.trans hq⟩

theorem mem_elements {es : List Element} (h : elements? raw = some es) {e : Element}
    (he : e ∈ es) : ∃ text, element? text = some e := by
  obtain ⟨body, -, h⟩ := Option.bind_eq_some_iff.mp h
  by_cases hblank : body.all isJsonBlank = true
  · rw [if_pos hblank] at h
    obtain rfl := Option.some.inj h
    cases he
  · rw [if_neg hblank] at h
    exact (exists_of_mem_left (forall₂_of_mapM h).flip he).imp' _ fun _ h => h

/-- Two texts of one place in a list: the same, or both without a comma. -/
def Aligned (s t : String) : Prop := s = t ∨ ',' ∉ s.toList ∧ ',' ∉ t.toList

theorem join_inj {xs ys : List String} (h : List.Forall₂ Aligned xs ys)
    (heq : join "," xs = join "," ys) : xs = ys := by
  induction h with
  | nil => rfl
  | @cons x y xs ys hxy htail ih =>
    cases htail with
    | nil => exact congrArg (· :: []) heq
    | @cons x' y' xs ys _ _ =>
      have hchars := congrArg String.toList heq
      rw [toList_join_cons "," ',' rfl, toList_join_cons "," ',' rfl] at hchars
      have hlength : x.toList.length = y.toList.length := by
        rcases hxy with rfl | ⟨hx, hy⟩
        · rfl
        · have hcount := congrArg beforeComma hchars
          rw [beforeComma_stop, beforeComma_stop] at hcount
          rw [← List.append_nil x.toList, ← List.append_nil y.toList, beforeComma_front hx,
            beforeComma_front hy] at hcount
          exact hcount
      obtain ⟨hhead, hrest⟩ := List.append_inj hchars hlength
      rw [String.toList_inj] at hhead
      have hjoin := String.toList_inj.mp (List.cons.inj hrest).2
      rw [hhead, ih hjoin]

/-- A number's text and what it is read as are aligned, whatever the reader. -/
theorem aligned_printed {e : Element} {text : List Char} {v : Value} {sent : String}
    (he : element? text = some e) (hv : elementValue? readers e = some v)
    (hsame : SameElement e sent) (hreads : ∀ t, e = .number t → ReadsNumber readers t) :
    Aligned (jsonToParamString v) sent := by
  have hplain : (∀ t, e ≠ .number t) → Aligned (jsonToParamString v) sent := by
    intro hnone
    have hprinted := sameElement_printed he hv fun t ht => absurd ht (hnone t)
    cases e with
    | number t => exact absurd rfl (hnone t)
    | keyword word => exact Or.inl (hprinted.trans hsame.symm)
    | string s => exact Or.inl (hprinted.trans hsame.symm)
  cases e with
  | keyword word => exact hplain fun t h => by cases h
  | string s => exact hplain fun t h => by cases h
  | number t =>
    obtain ⟨q, -, hq⟩ := hsame
    have hcomma : ∀ {text : String} {r : ℚ}, numeral? text = some r → ',' ∉ text.toList :=
      fun h => numeral_not_mem h (by decide) (by decide)
    refine Or.inr ⟨?_, hcomma hq⟩
    rcases (hreads t rfl).number v hv with ⟨n, rfl, -⟩ | ⟨shown, d, r, rfl, hr, -⟩
    · exact hcomma (numeral_toString n)
    · exact hcomma hr

theorem forall₂_aligned {es : List Element} {items : List Value} {texts : List String}
    (hread : List.Forall₂ (fun e v => elementValue? readers e = some v) es items)
    (hsame : List.Forall₂ SameElement es texts) (hes : ∀ e ∈ es, ∃ text, element? text = some e)
    (hreads : ∀ t, .number t ∈ es → ReadsNumber readers t) :
    List.Forall₂ Aligned (paramStrings items) texts := by
  induction hread generalizing texts with
  | nil =>
    cases hsame
    exact .nil
  | @cons e v es items hv _ ih =>
    cases hsame with
    | cons hfirst hrest =>
      obtain ⟨text, he⟩ := hes e List.mem_cons_self
      refine .cons (aligned_printed he hv hfirst fun t ht => hreads t (ht ▸ List.mem_cons_self)) ?_
      exact ih hrest (fun e he => hes e (List.mem_cons_of_mem _ he))
        fun t ht => hreads t (List.mem_cons_of_mem _ ht)

/-- An array lists its elements exactly when its numbers are kept. -/
theorem listed_iff {es : List Element} (hes : elements? raw = some es)
    (hreads : ReadsArray readers raw) :
    Listed es (((readers.parseJson raw).map jsonToParamString).getD raw) ↔
      ∀ text, .number text ∈ es → NumberKept readers text := by
  have helements : ∀ e ∈ es, ∃ text, element? text = some e := fun e he => mem_elements hes he
  rw [hreads.items es hes]
  constructor
  · intro hlisted t ht
    cases hitems : es.mapM (elementValue? readers) with
    | none =>
      rw [hitems] at hlisted
      exact absurd hlisted (array_not_listed hes ht)
    | some items =>
      rw [hitems] at hlisted
      obtain ⟨texts, hsame, hsent⟩ := hlisted
      have hread := forall₂_of_mapM hitems
      have haligned := forall₂_aligned hread hsame helements (hreads.numbers es hes)
      have htexts := join_inj haligned hsent
      rw [paramStrings_eq_map] at htexts
      rw [← htexts, List.forall₂_map_right_iff] at hsame
      obtain ⟨v, hv, q, hq, hshown⟩ : ∃ v, readers.parseJson t = some v ∧
          SameElement (.number t) (jsonToParamString v) := by
        exact exists_of_mem_left (forall₂_both hread hsame) ht
      rcases (hreads.numbers es hes t ht).number v hv with ⟨n, rfl, -⟩ | ⟨shown, d, r, rfl, -, -⟩
      · exact ⟨_, hv, hshown.trans hq.symm⟩
      · exact ⟨_, hv, hshown.trans hq.symm⟩
  · intro hkept
    have hvalues : ∀ e ∈ es, ∃ v, elementValue? readers e = some v := by
      intro e he
      cases e with
      | keyword word => exact ⟨_, rfl⟩
      | string s => exact ⟨_, rfl⟩
      | number t =>
        obtain ⟨n, hn, -⟩ := hkept t he
        exact ⟨_, hn⟩
    obtain ⟨items, hitems⟩ := mapM_of_forall hvalues
    rw [hitems]
    refine ⟨paramStrings items, ?_, rfl⟩
    rw [paramStrings_eq_map, List.forall₂_map_right_iff]
    refine List.Forall₂.imp ?_ ((List.forall₂_and_left _ _).mpr
      ⟨fun e he => he, forall₂_of_mapM hitems⟩)
    intro e v ⟨he, hv⟩
    obtain ⟨text, htext⟩ := helements e he
    exact sameElement_printed htext hv fun t ht => hkept t (ht ▸ he)

/-- The elements of an array are listed; another JSON value is printed afresh. -/
theorem survives_array_iff {inner : ValueType} (h : param.valueType = .array inner)
    (hreads : ReadsArray readers raw) :
    Survives readers raw param ↔
      (∀ v, readers.parseJson raw = some v → v.isArray = true ∨ jsonToParamString v = raw) ∧
        ∀ es, elements? raw = some es → ∀ text, .number text ∈ es → NumberKept readers text := by
  have hsent : flagText readers param raw =
      ((readers.parseJson raw).map jsonToParamString).getD raw := by
    rw [flagText_eq, h]
  have hvalue : SameValue param raw (flagText readers param raw) ↔
      ∀ es, elements? raw = some es → ∀ text, .number text ∈ es → NumberKept readers text := by
    simp only [SameValue, h, hsent]
    exact forall₂_congr fun es hes => listed_iff hes hreads
  constructor
  · intro hs
    refine ⟨fun v hv => ?_, hvalue.mp hs.value⟩
    by_cases harray : v.isArray = true
    · exact Or.inl harray
    · have hmiss : ¬ Parses readers raw param := by
        simp only [Parses, h]
        rintro ⟨items, hitems⟩
        obtain rfl := Option.some.inj (hv.symm.trans hitems)
        exact harray rfl
      have hkept := hs.kept hmiss
      rw [hsent, hv] at hkept
      exact Or.inr hkept
  · intro ⟨hkinds, hnumbers⟩
    refine ⟨hvalue.mpr hnumbers, fun hmiss => ?_⟩
    rw [hsent]
    cases hv : readers.parseJson raw with
    | none => rfl
    | some v =>
      refine (hkinds v hv).resolve_left fun harray => hmiss ?_
      simp only [Parses, h]
      cases v with
      | array items => exact ⟨items, hv⟩
      | _ => cases harray

theorem numberKept_integer {text : String} (hreads : ReadsNumber readers text) {n : Int}
    (htext : isIntegerText text = true) (hn : numeral? text = some (n : ℚ)) (hlow : -2 ^ 63 ≤ n)
    (hhigh : n < 2 ^ 64) : NumberKept readers text :=
  ⟨.int n, hreads.integer n htext hn hlow hhigh, (numeral_toString n).trans hn.symm⟩

/-- A number that is kept is an integer or the shortest decimal of a double. -/
theorem shortest_of_numberKept {text : String} (hreads : ReadsNumber readers text)
    (h : NumberKept readers text) :
    (∃ n : Int, numeral? text = some (n : ℚ)) ∨
      ∃ d q, numeral? text = some q ∧ Shortest double d q := by
  obtain ⟨number, hnumber, hsame⟩ := h
  rcases hreads.number _ hnumber with ⟨n, -, hn⟩ | ⟨shown, d, q, hvalue, hq, hshort⟩
  · exact Or.inl ⟨n, hn⟩
  · obtain rfl := Value.number.inj hvalue
    exact Or.inr ⟨d, q, hsame.symm.trans hq, hshort⟩

/-- A flag survives its coercion exactly when neither a double nor a JSON text of another kind
comes between. -/
theorem flag_survives_iff (hreads : ReadsFloat readers raw) (harray : ReadsArray readers raw) :
    Survives readers raw param ↔ Spared readers raw param := by
  unfold Spared
  cases h : param.valueType with
  | string => exact iff_of_true (survives_text (Or.inl h)) trivial
  | enum values => exact iff_of_true (survives_text (Or.inr ⟨values, h⟩)) trivial
  | integer => exact iff_of_true (survives_integer h) trivial
  | boolean => exact iff_of_true (survives_boolean h) trivial
  | number => exact survives_number_iff h hreads
  | array inner => exact survives_array_iff h harray

end Types

section Changed

def typedParameter (valueType : ValueType) : ParameterSchema :=
  ⟨"value", .query, false, valueType, false, none, none⟩

def overOne : String := "1.00000000000000000001"

def quoted : String := (Value.string "abc").render

def overOneArray : String := "[" ++ overOne ++ "]"

/-- The readers as they are on the texts below. -/
def shownReaders : Readers where
  parseFloat raw := if raw = "0.5" then some "0.5" else if raw = overOne then some "1.0" else none
  parseJson raw :=
    if raw = overOne then some (.number (.float "1.0"))
    else if raw = overOneArray then some (.array [.number (.float "1.0")])
    else textReader.read raw

theorem numeral_texts : numeral? "0.5" = some (1 / 2) ∧
    numeral? overOne = some (1 + 1 / 10 ^ 20) ∧ numeral? "1.0" = some 1 ∧
    numeral? quoted = none := by decide +kernel

theorem numeral_half : numeral? "0.5" = some (1 / 2) := numeral_texts.1

theorem numeral_overOne : numeral? overOne = some (1 + 1 / 10 ^ 20) := numeral_texts.2.1

theorem numeral_one : numeral? "1.0" = some 1 := numeral_texts.2.2.1

theorem half_mem : (1 / 2 : ℚ) ∈ double.values :=
  ⟨1, -1, by decide, by decide, by decide, by norm_num⟩

theorem one_mem : (1 : ℚ) ∈ double.values :=
  ⟨1, 0, by decide, by decide, by decide, by norm_num⟩

theorem shortest_half : Shortest double (1 / 2) (1 / 2) :=
  shortest_of_digit double (by norm_num) ⟨5, -1, by decide, by norm_num⟩ half_mem
    (finite_of_small (by decide) (by decide) (by norm_num))

theorem shortest_one : Shortest double 1 1 :=
  shortest_of_digit double (by norm_num) ⟨1, 0, by decide, by norm_num⟩ one_mem
    (finite_of_small (by decide) (by decide) (by norm_num))

theorem readsFloat_half : ReadsFloat shownReaders "0.5" := by
  refine ⟨fun hmiss => ?_, fun q hq hover => ?_, fun q hq _ => ?_⟩
  · cases numeral_half.symm.trans hmiss
  · obtain rfl := Option.some.inj (numeral_half.symm.trans hq)
    exact absurd hover (rounds_of_shortest double shortest_half).finite
  · obtain rfl := Option.some.inj (numeral_half.symm.trans hq)
    exact ⟨1 / 2, "0.5", 1 / 2, rounds_of_shortest double shortest_half, rfl, numeral_half,
      shortest_half⟩

theorem readsFloat_overOne : ReadsFloat shownReaders overOne := by
  have hrounds : double.Rounds (1 + 1 / 10 ^ 20) 1 :=
    rounds_one (by decide) (by decide) (by decide) (by norm_num [double])
  refine ⟨fun hmiss => ?_, fun q hq hover => ?_, fun q hq _ => ?_⟩
  · cases numeral_overOne.symm.trans hmiss
  · obtain rfl := Option.some.inj (numeral_overOne.symm.trans hq)
    exact absurd hover hrounds.finite
  · obtain rfl := Option.some.inj (numeral_overOne.symm.trans hq)
    exact ⟨1, "1.0", 1, hrounds, by decide, numeral_one, shortest_one⟩

theorem readsFloat_none {readers : Readers} {raw : String} (h : numeral? raw = none)
    (hmiss : readers.parseFloat raw = none) : ReadsFloat readers raw := by
  refine ⟨fun _ => hmiss, fun q hq _ => ?_, fun q hq _ => ?_⟩
  · cases h.symm.trans hq
  · cases h.symm.trans hq

/-- What is no array of scalars asks nothing of the reader of arrays. -/
theorem readsArray_of_none {readers : Readers} {raw : String} (h : elements? raw = none) :
    ReadsArray readers raw := by
  refine ⟨fun es hes => ?_, fun es hes => ?_⟩
  · cases h.symm.trans hes
  · cases h.symm.trans hes

theorem elements_texts : elements? "0.5" = none ∧ elements? overOne = none ∧
    elements? quoted = none ∧ elements? overOneArray = some [.number overOne] ∧
    numeral? overOneArray = none := by
  decide +kernel

theorem readsArray_overOne : ReadsArray shownReaders overOneArray := by
  refine ⟨fun es hes => ?_, fun es hes text htext => ?_⟩
  · obtain rfl := Option.some.inj (elements_texts.2.2.2.1.symm.trans hes)
    decide
  · obtain rfl := Option.some.inj (elements_texts.2.2.2.1.symm.trans hes)
    obtain rfl := Element.number.inj (List.mem_singleton.mp htext)
    refine ⟨fun n hn => absurd hn (by decide), fun v hv => Or.inr ?_⟩
    obtain rfl := Option.some.inj hv
    exact ⟨"1.0", 1, 1, rfl, numeral_one, shortest_one⟩

theorem flag_survives_half : Survives shownReaders "0.5" (typedParameter .number) :=
  (flag_survives_iff readsFloat_half (readsArray_of_none elements_texts.1)).mpr fun q hq => by
    obtain rfl := Option.some.inj (numeral_half.symm.trans hq)
    exact Or.inr ⟨1 / 2, shortest_half⟩

theorem read_quoted : shownReaders.parseJson quoted = some (.string "abc") := by
  have hnest : (Value.string "abc").nesting ≤ recursionLimit := by decide
  have hexact : ∀ t ∈ (Value.string "abc").floats, textReader.exact t = true :=
    fun _ hfloat => by cases hfloat
  have hread : textReader.read (Value.string "abc").render = some (.string "abc") :=
    textReader.read_render (.string "abc") rfl hnest hexact
  have hreader : shownReaders.parseJson quoted = textReader.read quoted := by
    have hone : quoted ≠ overOne := by decide
    have harray : quoted ≠ overOneArray := by decide
    simp only [shownReaders]
    rw [if_neg hone, if_neg harray]
  rw [hreader]
  exact hread

theorem flagText_quoted :
    flagText shownReaders (typedParameter (.array .string)) quoted = "abc" := by
  rw [flagText_eq]
  simp only [typedParameter, read_quoted, Option.map_some, Option.getD_some, jsonToParamString]

theorem flagText_overOneArray :
    flagText shownReaders (typedParameter (.array .number)) overOneArray = "1.0" := by
  rw [flagText_eq]
  decide

/-- A number parameter loses digits, so does an element of an array, and a JSON string given to an
array its quotes. -/
theorem flags_changed :
    (ReadsFloat shownReaders overOne ∧ ReadsArray shownReaders overOne ∧
      flagText shownReaders (typedParameter .number) overOne = "1.0" ∧
      ¬ Survives shownReaders overOne (typedParameter .number)) ∧
    (ReadsFloat shownReaders overOneArray ∧ ReadsArray shownReaders overOneArray ∧
      flagText shownReaders (typedParameter (.array .number)) overOneArray = "1.0" ∧
      ¬ Survives shownReaders overOneArray (typedParameter (.array .number))) ∧
    (ReadsFloat shownReaders quoted ∧ ReadsArray shownReaders quoted ∧
      flagText shownReaders (typedParameter (.array .string)) quoted = "abc" ∧
      ¬ Survives shownReaders quoted (typedParameter (.array .string))) := by
  have hnumber : flagText shownReaders (typedParameter .number) overOne = "1.0" := by
    rw [flagText_eq]
    decide
  have hone : (1 : ℚ) ≠ 1 + 1 / 10 ^ 20 := by norm_num
  obtain ⟨-, hover, hquoted, harray, hnone⟩ := elements_texts
  refine ⟨⟨readsFloat_overOne, readsArray_of_none hover, hnumber, fun hs => ?_⟩,
    ⟨readsFloat_none hnone (by decide), readsArray_overOne, flagText_overOneArray, fun hs => ?_⟩,
    readsFloat_none numeral_texts.2.2.2 (by decide), readsArray_of_none hquoted, flagText_quoted,
    fun hs => ?_⟩
  · have hsame := hs.value (1 + 1 / 10 ^ 20) numeral_overOne
    rw [hnumber, numeral_one] at hsame
    exact hone (Option.some.inj hsame)
  · obtain ⟨texts, hsame, hsent⟩ := hs.value _ harray
    rw [flagText_overOneArray] at hsent
    cases hsame with
    | cons hfirst hrest =>
      cases hrest
      obtain ⟨q, hq, hshown⟩ := hfirst
      obtain rfl : "1.0" = _ := hsent
      exact hone (Option.some.inj ((numeral_one.symm.trans hshown).trans
        (hq.symm.trans numeral_overOne)))
  · have hmiss : ¬ Parses shownReaders quoted (typedParameter (.array .string)) := by
      rintro ⟨items, hitems⟩
      cases read_quoted.symm.trans hitems
    have hkept := hs.kept hmiss
    rw [flagText_quoted] at hkept
    exact absurd hkept (by decide)

end Changed

end FlagValues
