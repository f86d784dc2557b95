import AgsCli.Protocol.Json
import Mathlib.Data.Nat.Digits.Defs

/-! # Reading JSON text

A reader for the compact rendering, with a limit on the nesting of arrays and objects, and the
proof that it inverts the rendering. What a codec relies on is stated of any reader. -/
namespace Json

/-- `remaining_depth` starts at 128 and the container that brings it to 0 is refused. -/
def recursionLimit : Nat := 127

mutual

def Value.nesting : Value → Nat
  | .array items => nestingItems items + 1
  | .object members => nestingMembers members + 1
  | _ => 0

def nestingItems : List Value → Nat
  | [] => 0
  | v :: rest => max v.nesting (nestingItems rest)

def nestingMembers : List (String × Value) → Nat
  | [] => 0
  | (_, v) :: rest => max v.nesting (nestingMembers rest)

end

mutual

def Value.floats : Value → List String
  | .number (.float text) => [text]
  | .array items => floatsItems items
  | .object members => floatsMembers members
  | _ => []

def floatsItems : List Value → List String
  | [] => []
  | v :: rest => v.floats ++ floatsItems rest

def floatsMembers : List (String × Value) → List String
  | [] => []
  | (_, v) :: rest => v.floats ++ floatsMembers rest

end

mutual

/-- Every integer in a value is one of 64 bits: longer ones are read as floats. -/
def Value.isSized : Value → Bool
  | .number (.int n) => -2 ^ 63 ≤ n && n < 2 ^ 64
  | .array items => sizedItems items
  | .object members => sizedMembers members
  | _ => true

def sizedItems : List Value → Bool
  | [] => true
  | v :: rest => v.isSized && sizedItems rest

def sizedMembers : List (String × Value) → Bool
  | [] => true
  | (_, v) :: rest => v.isSized && sizedMembers rest

end

theorem sizedItems_iff {items : List Value} :
    sizedItems items = true ↔ ∀ v ∈ items, v.isSized = true := by
  induction items with
  | nil => exact iff_of_true rfl nofun
  | cons v rest ih => rw [sizedItems, Bool.and_eq_true, ih, List.forall_mem_cons]

theorem sizedMembers_iff {members : List (String × Value)} :
    sizedMembers members = true ↔ ∀ e ∈ members, e.2.isSized = true := by
  induction members with
  | nil => exact iff_of_true rfl nofun
  | cons e rest ih => rw [sizedMembers, Bool.and_eq_true, ih, List.forall_mem_cons]

theorem isSized_int {n : Int} : (Value.number (.int n)).isSized = true ↔
    -2 ^ 63 ≤ n ∧ n < 2 ^ 64 := by
  rw [Value.isSized, Bool.and_eq_true, decide_eq_true_eq, decide_eq_true_eq]

/-- Text to values: `exact` are the float texts that are read back as they were written. -/
structure Reader where
  read : String → Option Value
  exact : String → Bool
  read_render : ∀ v : Value, v.isSized = true → v.nesting ≤ recursionLimit →
    (∀ t ∈ v.floats, exact t = true) → read v.render = some v
  read_deep : ∀ v : Value, recursionLimit < v.nesting → (∀ t ∈ v.floats, exact t = true) →
    read v.render = none

section Reading

def hexVal (c : Char) : Option Nat :=
  if '0' ≤ c ∧ c ≤ '9' then some (c.toNat - 48)
  else if 'a' ≤ c ∧ c ≤ 'f' then some (c.toNat - 87)
  else if 'A' ≤ c ∧ c ≤ 'F' then some (c.toNat - 55)
  else none

def hexVal4 (a b c d : Char) : Option Nat := do
  some (4096 * (← hexVal a) + 256 * (← hexVal b) + 16 * (← hexVal c) + (← hexVal d))

/-- What an escape of two characters stands for. -/
def unescape (c : Char) : Option Char :=
  if c = '"' ∨ c = '\\' ∨ c = '/' then some c
  else if c = 'b' then some (Char.ofNat 8)
  else if c = 't' then some (Char.ofNat 9)
  else if c = 'n' then some (Char.ofNat 10)
  else if c = 'f' then some (Char.ofNat 12)
  else if c = 'r' then some (Char.ofNat 13)
  else none

def pushChar (c : Option Char) (r : Option (List Char × List Char)) :
    Option (List Char × List Char) := do
  let c ← c
  let (cs, rest) ← r
  some (c :: cs, rest)

def readString : List Char → Option (List Char × List Char)
  | [] => none
  | c :: rest =>
    if c = '"' then some ([], rest)
    else if c = '\\' then
      match rest with
      | [] => none
      | e :: rest =>
        if e = 'u' then
          match rest with
          | a :: b :: c :: d :: rest =>
            pushChar ((hexVal4 a b c d).map Char.ofNat) (readString rest)
          | _ => none
        else pushChar (unescape e) (readString rest)
    else if c.toNat < 32 then none
    else pushChar (some c) (readString rest)

def isNumberChar (c : Char) : Bool :=
  c.isDigit || c == '-' || c == '+' || c == '.' || c == 'e' || c == 'E'

def isFloatMark (c : Char) : Bool := c == '.' || c == 'e' || c == 'E'

def readInt : List Char → Option Int
  | [] => none
  | ['-'] => none
  | '-' :: digits =>
    if digits.all Char.isDigit then some (-(Nat.ofDigitChars 10 digits 0 : Int)) else none
  | digits => if digits.all Char.isDigit then some (Nat.ofDigitChars 10 digits 0 : Int) else none

def readNumber (text : List Char) : Option Number :=
  if text.any isFloatMark then some (.float (String.ofList text)) else (readInt text).map .int

def readKeyword (v : Value) (word text : List Char) : Option (Value × List Char) :=
  if word.isPrefixOf text then some (v, text.drop word.length) else none

mutual

/-- The value at the front of the text; `depth` more containers may be opened. -/
def readValue : Nat → Nat → List Char → Option (Value × List Char)
  | 0, _, _ => none
  | _ + 1, _, [] => none
  | fuel + 1, depth, c :: rest =>
    if c = '"' then (readString rest).map fun r => (.string (String.ofList r.1), r.2)
    else if c = '[' then
      if depth = 0 then none
      else if rest.head? = some ']' then some (.array [], rest.tail)
      else (readItems fuel (depth - 1) rest).map fun r => (.array r.1, r.2)
    else if c = '\x7b' then
      if depth = 0 then none
      else if rest.head? = some '\x7d' then some (.object [], rest.tail)
      else (readMembers fuel (depth - 1) rest).map fun r => (.object r.1, r.2)
    else if c = 'n' then readKeyword .null ['u', 'l', 'l'] rest
    else if c = 't' then readKeyword (.bool true) ['r', 'u', 'e'] rest
    else if c = 'f' then readKeyword (.bool false) ['a', 'l', 's', 'e'] rest
    else (readNumber ((c :: rest).takeWhile isNumberChar)).map fun n =>
      (.number n, (c :: rest).dropWhile isNumberChar)

def readItems : Nat → Nat → List Char → Option (List Value × List Char)
  | 0, _, _ => none
  | fuel + 1, depth, text =>
    match readValue fuel depth text with
    | some (v, c :: rest) =>
      if c = ',' then (readItems fuel depth rest).map fun r => (v :: r.1, r.2)
      else if c = ']' then some ([v], rest)
      else none
    | _ => none

def readMembers : Nat → Nat → List Char → Option (List (String × Value) × List Char)
  | 0, _, _ => none
  | _ + 1, _, [] => none
  | fuel + 1, depth, quote :: text =>
    match readString text with
    | some (k, colon :: rest) =>
      if quote = '"' ∧ colon = ':' then
        match readValue fuel depth rest with
        | some (v, c :: rest) =>
          if c = ',' then
            (readMembers fuel depth rest).map fun r => ((String.ofList k, v) :: r.1, r.2)
          else if c = '\x7d' then some ([(String.ofList k, v)], rest)
          else none
        | _ => none
      else none
    | _ => none

end

def readText (text : String) : Option Value :=
  match readValue (text.toList.length + 1) recursionLimit text.toList with
  | some (v, []) => some v
  | _ => none

end Reading

section Strings

theorem hexVal_hexDigit {n : Nat} (h : n < 16) : hexVal (hexDigit n) = some n := by
  have hall : ∀ m < 16, hexVal (hexDigit m) = some m := by decide
  exact hall n h

theorem hexVal4_control {c : Char} (h : c.toNat < 32) :
    hexVal4 '0' '0' (hexDigit (c.toNat / 16)) (hexDigit (c.toNat % 16)) = some c.toNat := by
  have hzero : hexVal '0' = some 0 := by decide
  have hhigh := hexVal_hexDigit (n := c.toNat / 16) (by omega)
  have hlow := hexVal_hexDigit (n := c.toNat % 16) (by omega)
  simp only [hexVal4, hzero, hhigh, hlow, Option.bind_eq_bind, Option.bind_some]
  congr 1
  omega

theorem eq_ofNat {c : Char} {n : Nat} (h : c.toNat = n) : Char.ofNat n = c := by
  rw [← h, Char.ofNat_toNat]

theorem readString_escapeChar (c : Char) (text : List Char) :
    readString (escapeChar c ++ text) = pushChar (some c) (readString text) := by
  have hpair : ∀ e : Char, e ≠ 'u' →
      readString ('\\' :: e :: text) = pushChar (unescape e) (readString text) := by
    intro e he
    rw [readString.eq_def]
    simp only [if_neg (show ('\\' : Char) ≠ '"' by decide), if_true, if_neg he]
  have hplain : ∀ e : Char, e ≠ '"' → e ≠ '\\' → ¬ e.toNat < 32 →
      readString (e :: text) = pushChar (some e) (readString text) := by
    intro e hq hb hc
    rw [readString.eq_def]
    simp only [if_neg hq, if_neg hb, if_neg hc]
  unfold escapeChar
  split_ifs with h1 h2 h3 h4 h5 h6 h7 h8
  · subst h1
    exact hpair '"' (by decide)
  · subst h2
    exact hpair '\\' (by decide)
  · rw [← eq_ofNat h3]
    exact hpair 'b' (by decide)
  · rw [← eq_ofNat h4]
    exact hpair 't' (by decide)
  · rw [← eq_ofNat h5]
    exact hpair 'n' (by decide)
  · rw [← eq_ofNat h6]
    exact hpair 'f' (by decide)
  · rw [← eq_ofNat h7]
    exact hpair 'r' (by decide)
  · simp only [List.cons_append, List.nil_append]
    rw [readString.eq_def]
    simp only [if_neg (show ('\\' : Char) ≠ '"' by decide), if_true, hexVal4_control h8,
      Option.map_some, Char.ofNat_toNat]
  · exact hplain c h1 h2 h8

theorem readString_flatMap (cs rest : List Char) :
    readString (cs.flatMap escapeChar ++ '"' :: rest) = some (cs, rest) := by
  induction cs with
  | nil => rw [List.flatMap_nil, List.nil_append, readString.eq_def]; rfl
  | cons c cs ih =>
    rw [List.flatMap_cons, List.append_assoc, readString_escapeChar, ih]
    rfl

theorem toList_renderString (s : String) :
    (renderString s).toList = '"' :: (s.toList.flatMap escapeChar ++ ['"']) := by
  simp [renderString, String.toList_append]

end Strings

section Numbers

/-- What follows a value does not continue a number. -/
def NoNumberHead (rest : List Char) : Prop := ∀ c ∈ rest.head?, isNumberChar c = false

theorem takeWhile_number {text rest : List Char} (htext : ∀ c ∈ text, isNumberChar c = true)
    (hrest : NoNumberHead rest) : (text ++ rest).takeWhile isNumberChar = text ∧
      (text ++ rest).dropWhile isNumberChar = rest := by
  induction text with
  | nil =>
    cases rest with
    | nil => exact ⟨rfl, rfl⟩
    | cons c rest =>
      have hc : isNumberChar c = false := hrest c rfl
      simp [hc]
  | cons c text ih =>
    obtain ⟨htake, hdrop⟩ := ih fun d hd => htext d (List.mem_cons_of_mem _ hd)
    have hc := htext c List.mem_cons_self
    simp [hc, htake, hdrop]

theorem digits_repr (n : Nat) : ∀ c ∈ Nat.toDigits 10 n, c.isDigit = true := fun _ hc =>
  Nat.isDigit_of_mem_toDigits (by decide) (by decide) hc

theorem not_float_of_digits {text : List Char} (h : ∀ c ∈ text, c.isDigit = true) :
    text.any isFloatMark = false := by
  rw [List.any_eq_false]
  intro c hc hmark
  have hdigit := h c hc
  simp only [isFloatMark, Bool.or_eq_true, beq_iff_eq] at hmark
  rcases hmark with (rfl | rfl) | rfl <;> revert hdigit <;> decide

theorem readInt_digits {digits : List Char} (hne : digits ≠ [])
    (h : ∀ c ∈ digits, c.isDigit = true) :
    readInt digits = some (Nat.ofDigitChars 10 digits 0 : Int) ∧
      readInt ('-' :: digits) = some (-(Nat.ofDigitChars 10 digits 0 : Int)) := by
  have hall : digits.all Char.isDigit = true := List.all_eq_true.mpr h
  obtain ⟨c, rest, rfl⟩ := List.exists_cons_of_ne_nil hne
  have hminus : c ≠ '-' := by
    rintro rfl
    have hdigit := h '-' List.mem_cons_self
    revert hdigit
    decide
  constructor
  · unfold readInt
    split
    · next heq => cases heq
    · next heq => exact absurd (List.cons.inj heq).1 hminus
    · next heq => exact absurd (List.cons.inj heq).1 hminus
    · rw [if_pos hall]
  · unfold readInt
    split
    · next heq => cases heq
    · next heq => cases heq
    · next digits' hne' heq =>
      obtain ⟨-, rfl⟩ := List.cons.inj heq
      rw [if_pos hall]
    · next hno => exact absurd rfl (hno _)

def isFloatText (text : String) : Bool :=
  text.toList.all isNumberChar && text.toList.any isFloatMark &&
    text.toList.head?.all fun c => c.isDigit || c == '-'

theorem toList_render_int (n : Int) : (Number.int n).render.toList =
    if 0 ≤ n then Nat.toDigits 10 n.toNat else '-' :: Nat.toDigits 10 (-n).toNat := by
  have hrepr : ∀ m : Nat, (Nat.repr m).toList = Nat.toDigits 10 m := fun m =>
    String.toList_ofList
  cases n with
  | ofNat m => exact hrepr m
  | negSucc m =>
    have hneg : ¬ 0 ≤ Int.negSucc m := by omega
    have habs : (-Int.negSucc m).toNat = m + 1 := by omega
    rw [if_neg hneg, habs, ← hrepr]
    change ("-" ++ Nat.repr (m + 1)).toList = _
    rw [String.toList_append]
    rfl

theorem readNumber_render (n : Number) (h : ∀ t ∈ (Value.number n).floats, isFloatText t = true) :
    (∀ c ∈ n.render.toList, isNumberChar c = true) ∧ readNumber n.render.toList = some n := by
  have hnumber : ∀ c : Char, c.isDigit = true → isNumberChar c = true := by
    intro c hc
    simp [isNumberChar, hc]
  cases n with
  | float text =>
    have htext := h text (by simp [Value.floats])
    simp only [isFloatText, Bool.and_eq_true] at htext
    refine ⟨List.all_eq_true.mp htext.1.1, ?_⟩
    unfold readNumber
    rw [Number.render, if_pos htext.1.2, String.ofList_toList]
  | int n =>
    have hdigits := digits_repr
    rw [toList_render_int]
    split_ifs with hn
    · have hne : Nat.toDigits 10 n.toNat ≠ [] := Nat.toDigits_ne_nil
      refine ⟨fun c hc => hnumber c (hdigits _ c hc), ?_⟩
      unfold readNumber
      rw [not_float_of_digits (hdigits _), (readInt_digits hne (hdigits _)).1,
        Nat.ofDigitChars_ten_toDigits]
      simp [hn]
    · have hne : Nat.toDigits 10 (-n).toNat ≠ [] := Nat.toDigits_ne_nil
      refine ⟨?_, ?_⟩
      · intro c hc
        rcases List.mem_cons.mp hc with rfl | hc
        · decide
        · exact hnumber c (hdigits _ c hc)
      · have hmark : isFloatMark '-' = false := by decide
        unfold readNumber
        rw [List.any_cons, hmark, Bool.false_or, not_float_of_digits (hdigits _),
          (readInt_digits hne (hdigits _)).2, Nat.ofDigitChars_ten_toDigits]
        have habs : -((-n).toNat : Int) = n := by omega
        simp only [Bool.false_eq_true, if_false, Option.map_some, habs]

/-- The first character of a number starts nothing else. -/
theorem number_head (n : Number) (h : ∀ t ∈ (Value.number n).floats, isFloatText t = true) :
    ∃ c text, n.render.toList = c :: text ∧ (c.isDigit = true ∨ c = '-') := by
  cases n with
  | float text =>
    have htext := h text (by simp [Value.floats])
    simp only [isFloatText, Bool.and_eq_true] at htext
    cases hl : text.toList with
    | nil => simp [hl] at htext
    | cons c rest =>
      refine ⟨c, rest, hl, ?_⟩
      simpa [hl] using htext.2
  | int n =>
    rw [toList_render_int]
    split_ifs with hn
    · have hne : Nat.toDigits 10 n.toNat ≠ [] := Nat.toDigits_ne_nil
      obtain ⟨c, rest, hl⟩ := List.exists_cons_of_ne_nil hne
      exact ⟨c, rest, hl, Or.inl (digits_repr n.toNat c (by rw [hl]; exact List.mem_cons_self))⟩
    · exact ⟨'-', _, rfl, Or.inr rfl⟩

end Numbers

section Values

variable {fuel depth : Nat} {rest : List Char}

theorem readValue_string (s : String) (hfuel : 1 ≤ fuel) :
    readValue fuel depth ((renderString s).toList ++ rest) = some (.string s, rest) := by
  obtain ⟨fuel, rfl⟩ : ∃ k, fuel = k + 1 := ⟨fuel - 1, by omega⟩
  rw [toList_renderString, List.cons_append, List.append_assoc, readValue, if_pos rfl,
    List.singleton_append, readString_flatMap]
  simp [String.ofList_toList]

theorem readValue_number (n : Number) (h : ∀ t ∈ (Value.number n).floats, isFloatText t = true)
    (hrest : NoNumberHead rest) (hfuel : 1 ≤ fuel) :
    readValue fuel depth (n.render.toList ++ rest) = some (.number n, rest) := by
  obtain ⟨fuel, rfl⟩ : ∃ k, fuel = k + 1 := ⟨fuel - 1, by omega⟩
  obtain ⟨c, text, hl, hc⟩ := number_head n h
  obtain ⟨hchars, hread⟩ := readNumber_render n h
  obtain ⟨htake, hdrop⟩ := takeWhile_number hchars hrest
  rw [hl, List.cons_append] at htake hdrop
  have hother : ∀ d : Char, d.isDigit = false → d ≠ '-' → c ≠ d := by
    rintro d hd hm rfl
    rcases hc with hc | hc
    · rw [hd] at hc
      cases hc
    · exact hm hc
  rw [hl, List.cons_append, readValue, if_neg (hother '"' (by decide) (by decide)),
    if_neg (hother '[' (by decide) (by decide)), if_neg (hother '\x7b' (by decide) (by decide)),
    if_neg (hother 'n' (by decide) (by decide)), if_neg (hother 't' (by decide) (by decide)),
    if_neg (hother 'f' (by decide) (by decide)), htake, hdrop, ← hl, hread]
  rfl

theorem readKeyword_append (v : Value) (word rest : List Char) :
    readKeyword v word (word ++ rest) = some (v, rest) := by
  have hpre : word.isPrefixOf (word ++ rest) = true := by
    rw [List.isPrefixOf_iff_prefix]
    exact List.prefix_append _ _
  unfold readKeyword
  rw [if_pos hpre, List.drop_left]

/-- No value starts with a closing bracket or brace. -/
theorem render_head (v : Value) (h : ∀ t ∈ v.floats, isFloatText t = true) :
    ∃ c text, v.render.toList = c :: text ∧ c ≠ ']' := by
  cases v with
  | null => exact ⟨'n', ['u', 'l', 'l'], rfl, by decide⟩
  | bool b =>
    cases b with
    | true => exact ⟨'t', ['r', 'u', 'e'], rfl, by decide⟩
    | false => exact ⟨'f', ['a', 'l', 's', 'e'], rfl, by decide⟩
  | number n =>
    obtain ⟨c, text, hl, hc⟩ := number_head n h
    refine ⟨c, text, hl, ?_⟩
    rintro rfl
    rcases hc with hc | hc <;> revert hc <;> decide
  | string s => exact ⟨'"', _, toList_renderString s, by decide⟩
  | array items =>
    refine ⟨'[', (renderItems items ++ "]").toList, ?_, by decide⟩
    rw [Value.render, String.append_assoc, String.toList_append]
    rfl
  | object members =>
    refine ⟨'\x7b', (renderMembers members ++ "\x7d").toList, ?_, by decide⟩
    rw [Value.render, String.append_assoc, String.toList_append]
    rfl

theorem toList_renderItems_cons (v w : Value) (items : List Value) :
    (renderItems (v :: w :: items)).toList =
      v.render.toList ++ ',' :: (renderItems (w :: items)).toList := by
  rw [renderItems, String.toList_append, String.toList_append, List.append_assoc]
  rfl

theorem toList_renderMembers_single (k : String) (v : Value) :
    (renderMembers [(k, v)]).toList = (renderString k).toList ++ ':' :: v.render.toList := by
  rw [renderMembers, String.toList_append, String.toList_append, List.append_assoc]
  rfl

theorem toList_renderMembers_cons (k : String) (v : Value) (e : String × Value)
    (members : List (String × Value)) : (renderMembers ((k, v) :: e :: members)).toList =
      (renderString k).toList ++ ':' :: (v.render.toList ++ ',' ::
        (renderMembers (e :: members)).toList) := by
  rw [renderMembers, String.toList_append, String.toList_append, String.toList_append,
    String.toList_append, List.append_assoc, List.append_assoc, List.append_assoc]
  rfl

theorem toList_render_array (items : List Value) :
    (Value.array items).render.toList = '[' :: ((renderItems items).toList ++ [']']) := by
  rw [Value.render, String.toList_append, String.toList_append, List.append_assoc]
  rfl

theorem toList_render_object (members : List (String × Value)) :
    (Value.object members).render.toList =
      '\x7b' :: ((renderMembers members).toList ++ ['\x7d']) := by
  rw [Value.render, String.toList_append, String.toList_append, List.append_assoc]
  rfl

/-- With this fuel a value that fits the depth is read back, and one that does not is refused. -/
def ValueReads (fuel : Nat) : Prop := ∀ (v : Value) (depth : Nat) (rest : List Char),
  (∀ t ∈ v.floats, isFloatText t = true) → v.render.toList.length ≤ fuel → NoNumberHead rest →
    readValue fuel depth (v.render.toList ++ rest) =
      if v.nesting ≤ depth then some (v, rest) else none

def ItemsRead (fuel : Nat) : Prop := ∀ (v : Value) (items : List Value) (depth : Nat)
  (rest : List Char), (∀ t ∈ floatsItems (v :: items), isFloatText t = true) →
    (renderItems (v :: items)).toList.length + 1 ≤ fuel →
    readItems fuel depth ((renderItems (v :: items)).toList ++ ']' :: rest) =
      if nestingItems (v :: items) ≤ depth then some (v :: items, rest) else none

def MembersRead (fuel : Nat) : Prop := ∀ (k : String) (v : Value)
  (members : List (String × Value)) (depth : Nat) (rest : List Char),
    (∀ t ∈ floatsMembers ((k, v) :: members), isFloatText t = true) →
    (renderMembers ((k, v) :: members)).toList.length + 1 ≤ fuel →
    readMembers fuel depth ((renderMembers ((k, v) :: members)).toList ++ '\x7d' :: rest) =
      if nestingMembers ((k, v) :: members) ≤ depth then some ((k, v) :: members, rest) else none

theorem noNumberHead_cons {c : Char} (h : isNumberChar c = false) (rest : List Char) :
    NoNumberHead (c :: rest) := by
  intro d hd
  obtain rfl := Option.some.inj hd
  exact h

theorem itemsRead_succ (hv : ValueReads fuel) (hi : ItemsRead fuel) : ItemsRead (fuel + 1) := by
  intro v items depth rest hexact hfuel
  have hexactv : ∀ t ∈ v.floats, isFloatText t = true := fun t ht =>
    hexact t (List.mem_append_left _ ht)
  cases items with
  | nil =>
    have hlen : v.render.toList.length ≤ fuel := by
      rw [renderItems] at hfuel
      omega
    rw [renderItems, readItems, hv v depth _ hexactv hlen (noNumberHead_cons (by decide) _)]
    by_cases hnest : v.nesting ≤ depth
    · have hall : nestingItems [v] ≤ depth := by simpa [nestingItems] using hnest
      rw [if_pos hnest, if_pos hall]
      rfl
    · have hall : ¬ nestingItems [v] ≤ depth := by simpa [nestingItems] using hnest
      rw [if_neg hnest, if_neg hall]
  | cons w items =>
    rw [toList_renderItems_cons, List.length_append, List.length_cons] at hfuel
    rw [toList_renderItems_cons, List.append_assoc, List.cons_append, readItems,
      hv v depth _ hexactv (by omega) (noNumberHead_cons (by decide) _)]
    by_cases hnest : v.nesting ≤ depth
    · rw [if_pos hnest]
      simp only [if_true]
      rw [hi w items depth rest (fun t ht => hexact t (List.mem_append_right _ ht)) (by omega)]
      by_cases hrest : nestingItems (w :: items) ≤ depth
      · have hall : nestingItems (v :: w :: items) ≤ depth := max_le hnest hrest
        rw [if_pos hrest, if_pos hall]
        rfl
      · have hall : ¬ nestingItems (v :: w :: items) ≤ depth := fun hle =>
          hrest (le_trans (le_max_right _ _) hle)
        rw [if_neg hrest, if_neg hall]
        rfl
    · have hall : ¬ nestingItems (v :: w :: items) ≤ depth := fun hle =>
        hnest (le_trans (le_max_left _ _) hle)
      rw [if_neg hnest, if_neg hall]

theorem membersRead_succ (hv : ValueReads fuel) (hm : MembersRead fuel) :
    MembersRead (fuel + 1) := by
  intro k v members depth rest hexact hfuel
  have hexactv : ∀ t ∈ v.floats, isFloatText t = true := fun t ht =>
    hexact t (List.mem_append_left _ ht)
  cases members with
  | nil =>
    rw [toList_renderMembers_single, toList_renderString] at hfuel
    rw [toList_renderMembers_single, toList_renderString]
    simp only [List.cons_append, List.append_assoc, List.nil_append, List.length_cons,
      List.length_append] at hfuel ⊢
    rw [readMembers, readString_flatMap]
    simp only [and_self, if_true]
    rw [hv v depth _ hexactv (by omega) (noNumberHead_cons (by decide) _)]
    by_cases hnest : v.nesting ≤ depth
    · have hall : nestingMembers [(k, v)] ≤ depth := by simpa [nestingMembers] using hnest
      rw [if_pos hnest, if_pos hall]
      simp [String.ofList_toList]
    · have hall : ¬ nestingMembers [(k, v)] ≤ depth := by simpa [nestingMembers] using hnest
      rw [if_neg hnest, if_neg hall]
  | cons e members =>
    obtain ⟨l, w⟩ := e
    rw [toList_renderMembers_cons, toList_renderString] at hfuel
    rw [toList_renderMembers_cons, toList_renderString]
    simp only [List.cons_append, List.append_assoc, List.nil_append, List.length_cons,
      List.length_append] at hfuel ⊢
    rw [readMembers, readString_flatMap]
    simp only [and_self, if_true]
    rw [hv v depth _ hexactv (by omega) (noNumberHead_cons (by decide) _)]
    by_cases hnest : v.nesting ≤ depth
    · rw [if_pos hnest]
      simp only [if_true]
      rw [hm l w members depth rest (fun t ht => hexact t (List.mem_append_right _ ht)) (by omega)]
      by_cases hrest : nestingMembers ((l, w) :: members) ≤ depth
      · have hall : nestingMembers ((k, v) :: (l, w) :: members) ≤ depth := max_le hnest hrest
        rw [if_pos hrest, if_pos hall]
        simp [String.ofList_toList]
      · have hall : ¬ nestingMembers ((k, v) :: (l, w) :: members) ≤ depth := fun hle =>
          hrest (le_trans (le_max_right _ _) hle)
        rw [if_neg hrest, if_neg hall]
        rfl
    · have hall : ¬ nestingMembers ((k, v) :: (l, w) :: members) ≤ depth := fun hle =>
        hnest (le_trans (le_max_left _ _) hle)
      rw [if_neg hnest, if_neg hall]

theorem valueReads_succ (hi : ItemsRead fuel) (hm : MembersRead fuel) :
    ValueReads (fuel + 1) := by
  intro v depth rest hexact hfuel hrest
  cases v with
  | null => exact readKeyword_append .null ['u', 'l', 'l'] rest
  | bool b =>
    cases b with
    | true => exact readKeyword_append (.bool true) ['r', 'u', 'e'] rest
    | false => exact readKeyword_append (.bool false) ['a', 'l', 's', 'e'] rest
  | number n =>
    have hnest : (Value.number n).nesting ≤ depth := Nat.zero_le _
    rw [if_pos hnest]
    exact readValue_number n hexact hrest (by omega)
  | string s =>
    have hnest : (Value.string s).nesting ≤ depth := Nat.zero_le _
    rw [if_pos hnest]
    exact readValue_string s (by omega)
  | array items =>
    rw [toList_render_array] at hfuel ⊢
    simp only [List.cons_append, List.append_assoc, List.length_cons, List.length_append,
      List.nil_append, List.length_nil] at hfuel ⊢
    rw [readValue, if_neg (by decide), if_pos rfl, Value.nesting]
    by_cases hdepth : depth = 0
    · rw [if_pos hdepth, if_neg (by omega)]
    · rw [if_neg hdepth]
      cases items with
      | nil =>
        have hempty : (renderItems []).toList = [] := rfl
        rw [hempty, List.nil_append, List.head?_cons, if_pos rfl, nestingItems, if_pos (by omega)]
        rfl
      | cons v items =>
        have hhead : ((renderItems (v :: items)).toList ++ ']' :: rest).head? ≠ some ']' := by
          obtain ⟨c, text, hl, hc⟩ := render_head v fun t ht =>
            hexact t (List.mem_append_left _ ht)
          cases items with
          | nil =>
            rw [renderItems, hl]
            simpa using hc
          | cons w items =>
            rw [toList_renderItems_cons, hl]
            simpa using hc
        rw [if_neg hhead, hi v items (depth - 1) rest hexact (by omega)]
        by_cases hnest : nestingItems (v :: items) ≤ depth - 1
        · rw [if_pos hnest, if_pos (by omega)]
          rfl
        · rw [if_neg hnest, if_neg (by omega)]
          rfl
  | object members =>
    rw [toList_render_object] at hfuel ⊢
    simp only [List.cons_append, List.append_assoc, List.length_cons, List.length_append,
      List.nil_append, List.length_nil] at hfuel ⊢
    rw [readValue, if_neg (by decide), if_neg (by decide), if_pos rfl, Value.nesting]
    by_cases hdepth : depth = 0
    · rw [if_pos hdepth, if_neg (by omega)]
    · rw [if_neg hdepth]
      cases members with
      | nil =>
        have hempty : (renderMembers []).toList = [] := rfl
        rw [hempty, List.nil_append, List.head?_cons, if_pos rfl, nestingMembers, if_pos (by omega)]
        rfl
      | cons e members =>
        obtain ⟨k, v⟩ := e
        have hhead : ((renderMembers ((k, v) :: members)).toList ++ '\x7d' :: rest).head? ≠
            some '\x7d' := by
          cases members with
          | nil =>
            rw [toList_renderMembers_single, toList_renderString]
            simp
          | cons f members =>
            rw [toList_renderMembers_cons, toList_renderString]
            simp
        rw [if_neg hhead, hm k v members (depth - 1) rest hexact (by omega)]
        by_cases hnest : nestingMembers ((k, v) :: members) ≤ depth - 1
        · rw [if_pos hnest, if_pos (by omega)]
          rfl
        · rw [if_neg hnest, if_neg (by omega)]
          rfl

theorem reads (fuel : Nat) : ValueReads fuel ∧ ItemsRead fuel ∧ MembersRead fuel := by
  induction fuel with
  | zero =>
    refine ⟨?_, ?_, ?_⟩
    · intro v depth rest hexact hfuel _
      obtain ⟨c, text, hl, -⟩ := render_head v hexact
      rw [hl] at hfuel
      simp at hfuel
    · intro v items depth rest _ hfuel
      omega
    · intro k v members depth rest _ hfuel
      omega
  | succ fuel ih =>
    obtain ⟨hv, hi, hm⟩ := ih
    exact ⟨valueReads_succ hi hm, itemsRead_succ hv hi, membersRead_succ hv hm⟩

theorem readText_render {v : Value} (hexact : ∀ t ∈ v.floats, isFloatText t = true) :
    readText v.render = if v.nesting ≤ recursionLimit then some v else none := by
  have hread := (reads (v.render.toList.length + 1)).1 v recursionLimit [] hexact (by omega)
    (by intro c hc; cases hc)
  rw [List.append_nil] at hread
  unfold readText
  rw [hread]
  split_ifs
  · rfl
  · rfl

end Values

def textReader : Reader where
  read := readText
  exact := isFloatText
  read_render := by
    intro v _ hnest hexact
    rw [readText_render hexact, if_pos hnest]
  read_deep := by
    intro v hnest hexact
    rw [readText_render hexact, if_neg (Nat.not_le_of_lt hnest)]

end Json
