import AgsCli.Protocol.JsonText
import AgsCli.Support.Numerals
import Mathlib.Data.List.DropRight

/-! # Arrays of scalars

The elements of a JSON array of scalars as its text has them: numbers by their digits, strings
without their quotes and escapes. -/
namespace JsonScalars

open Json Strings Decimals Numerals

inductive Element
  | keyword (text : String)
  | number (text : String)
  | string (s : String)
  deriving DecidableEq

def isJsonBlank (c : Char) : Bool := [' ', '\t', '\n', '\r'].contains c

/-- A string literal behind its opening quote. Two escaped surrogates are one character. -/
def decode? : List Char → Option (List Char)
  | [] => none
  | ['"'] => some []
  | '\\' :: 'u' :: a :: b :: c :: d :: rest =>
    match hexVal4 a b c d with
    | none => none
    | some n =>
      if 0xD800 ≤ n ∧ n < 0xDC00 then
        match rest with
        | '\\' :: 'u' :: e :: f :: g :: h :: rest =>
          match hexVal4 e f g h with
          | none => none
          | some m =>
            if 0xDC00 ≤ m ∧ m < 0xE000 then
              (decode? rest).map
                (Char.ofNat (0x10000 + (n - 0xD800) * 0x400 + (m - 0xDC00)) :: ·)
            else none
        | _ => none
      else if 0xDC00 ≤ n ∧ n < 0xE000 then none
      else (decode? rest).map (Char.ofNat n :: ·)
  | c :: rest =>
    if c = '\\' then
      match rest with
      | [] => none
      | e :: rest => (unescape e).bind fun d => (decode? rest).map (d :: ·)
    else if c = '"' ∨ c.toNat < 32 then none
    else (decode? rest).map (c :: ·)

/-- A JSON number: a numeral without `+` in front or zeros that lead, with digits around its
point. -/
def isJsonNumber (text : List Char) : Bool :=
  let digits := if text.head? = some '-' then text.tail else text
  let whole := digits.takeWhile isAsciiDigit
  (numeral? (String.ofList text)).isSome && !whole.isEmpty &&
    (whole.head? ≠ some '0' || whole.length = 1) &&
    match digits.dropWhile isAsciiDigit with
    | '.' :: rest => rest.head?.any isAsciiDigit
    | _ => true

def keywords : List String := ["null", "true", "false"]

def element? (text : List Char) : Option Element :=
  if text.head? = some '"' then
    (decode? text.tail).map fun s => .string (String.ofList s)
  else if keywords.contains (String.ofList text) then some (.keyword (String.ofList text))
  else if isJsonNumber text then some (.number (String.ofList text))
  else none

/-- The pieces between the commas that stand outside strings. -/
def pieces (quoted escaped : Bool) : List Char → List (List Char)
  | [] => [[]]
  | c :: rest =>
    if c = ',' && !quoted then [] :: pieces false false rest
    else
      (pieces (if c = '"' && !escaped then !quoted else quoted) (quoted && !escaped && c = '\\')
        rest).modifyHead (c :: ·)

def enclosed? (text : List Char) : Option (List Char) :=
  match text.dropWhile isJsonBlank with
  | '[' :: rest =>
    if (rest.rdropWhile isJsonBlank).getLast? = some ']' then
      some (rest.rdropWhile isJsonBlank).dropLast
    else none
  | _ => none

def trim (text : List Char) : List Char := (text.dropWhile isJsonBlank).rdropWhile isJsonBlank

def elements? (raw : String) : Option (List Element) :=
  (enclosed? raw.toList).bind fun body =>
    if body.all isJsonBlank then some []
    else (pieces false false body).mapM fun piece => element? (trim piece)

def SameElement : Element → String → Prop
  | .keyword text, sent => sent = text
  | .number text, sent => ∃ q, numeral? text = some q ∧ numeral? sent = some q
  | .string s, sent => sent = s

example : elements? " [1.50, \"a,\\u0062\\\\\", null ]\n" =
    some [.number "1.50", .string "a,b\\", .keyword "null"] := by decide +kernel

section Commas

def beforeComma (text : List Char) : Nat := (text.takeWhile (· ≠ ',')).length

theorem beforeComma_cons {c : Char} (h : c ≠ ',') (rest : List Char) :
    beforeComma (c :: rest) = beforeComma rest + 1 := by
  rw [beforeComma, List.takeWhile_cons_of_pos (by simpa using h)]
  rfl

theorem beforeComma_le (c : Char) (rest : List Char) :
    beforeComma (c :: rest) ≤ beforeComma rest + 1 := by
  by_cases h : c = ','
  · subst h
    rw [beforeComma, List.takeWhile_cons_of_neg (by simp)]
    exact Nat.zero_le _
  · exact (beforeComma_cons h rest).le

theorem hexVal4_noComma {a b c d : Char} {n : Nat} (h : hexVal4 a b c d = some n) :
    a ≠ ',' ∧ b ≠ ',' ∧ c ≠ ',' ∧ d ≠ ',' := by
  have hcomma : hexVal ',' = none := by decide
  refine ⟨?_, ?_, ?_, ?_⟩
  all_goals
    rintro rfl
    simp [hexVal4, hcomma] at h

theorem decode_beforeComma {text s : List Char} (h : decode? text = some s) :
    beforeComma s ≤ beforeComma text := by
  have hslash : ('\\' : Char) ≠ ',' := by decide
  have hu : ('u' : Char) ≠ ',' := by decide
  fun_induction decode? text generalizing s with
  | case1 => cases h
  | case2 =>
    cases h
    exact Nat.zero_le _
  | case3 => cases h
  | case4 => cases h
  | case5 a b c d n hn hhigh e f g k rest m hm hlow ih =>
    obtain ⟨t, ht, rfl⟩ := Option.map_eq_some_iff.mp h
    obtain ⟨ha, hb, hc, hd⟩ := hexVal4_noComma hn
    obtain ⟨he, hf, hg, hk⟩ := hexVal4_noComma hm
    have hle := ih ht
    have hcons := beforeComma_le (Char.ofNat (0x10000 + (n - 0xD800) * 0x400 + (m - 0xDC00))) t
    simp only [beforeComma_cons hslash, beforeComma_cons hu, beforeComma_cons ha,
      beforeComma_cons hb, beforeComma_cons hc, beforeComma_cons hd, beforeComma_cons he,
      beforeComma_cons hf, beforeComma_cons hg, beforeComma_cons hk]
    omega
  | case6 => cases h
  | case7 => cases h
  | case8 => cases h
  | case9 a b c d rest n hn hhigh hlow ih =>
    obtain ⟨t, ht, rfl⟩ := Option.map_eq_some_iff.mp h
    obtain ⟨ha, hb, hc, hd⟩ := hexVal4_noComma hn
    have hle := ih ht
    have hcons := beforeComma_le (Char.ofNat n) t
    simp only [beforeComma_cons hslash, beforeComma_cons hu, beforeComma_cons ha,
      beforeComma_cons hb, beforeComma_cons hc, beforeComma_cons hd]
    omega
  | case10 => cases h
  | case11 e rest _ _ ih =>
    obtain ⟨d, hd, h⟩ := Option.bind_eq_some_iff.mp h
    obtain ⟨t, ht, rfl⟩ := Option.map_eq_some_iff.mp h
    have he : e ≠ ',' := by
      rintro rfl
      have hcomma : unescape ',' = none := by decide
      rw [hcomma] at hd
      cases hd
    have hle := ih ht
    have hcons := beforeComma_le d t
    rw [beforeComma_cons hslash, beforeComma_cons he]
    omega
  | case12 => cases h
  | case13 c rest _ _ _ _ ih =>
    obtain ⟨t, ht, rfl⟩ := Option.map_eq_some_iff.mp h
    have hle := ih ht
    by_cases hc : c = ','
    · subst hc
      rw [beforeComma, List.takeWhile_cons_of_neg (by simp)]
      exact Nat.zero_le _
    · rw [beforeComma_cons hc, beforeComma_cons hc]
      omega

end Commas

section Elements

theorem pieces_prefix {quoted escaped : Bool} {text piece : List Char} {rest : List (List Char)}
    (h : pieces quoted escaped text = piece :: rest) : piece <+: text := by
  induction text generalizing quoted escaped piece rest with
  | nil =>
    cases h
    exact List.nil_prefix
  | cons c text ih =>
    rw [pieces] at h
    by_cases hcomma : (c = ',' && !quoted) = true
    · rw [if_pos hcomma] at h
      cases h
      exact List.nil_prefix
    · rw [if_neg hcomma] at h
      cases hpieces : pieces (if c = '"' && !escaped then !quoted else quoted)
          (quoted && !escaped && c = '\\') text with
      | nil =>
        rw [hpieces] at h
        cases h
      | cons first others =>
        rw [hpieces] at h
        cases h
        exact List.cons_prefix_cons.mpr ⟨rfl, ih hpieces⟩

theorem dropWhile_eq_append (p : Char → Bool) (text : List Char) :
    ∃ front, text = front ++ text.dropWhile p ∧ ∀ c ∈ front, p c = true :=
  ⟨text.takeWhile p, List.takeWhile_append_dropWhile.symm, fun _ => List.mem_takeWhile_imp⟩

theorem enclosed_eq {text body : List Char} (h : enclosed? text = some body) :
    ∃ front back, text = front ++ '[' :: (body ++ back) ∧ ∀ c ∈ front, isJsonBlank c = true := by
  obtain ⟨front, htext, hfront⟩ := dropWhile_eq_append isJsonBlank text
  unfold enclosed? at h
  split at h
  · next rest hdrop =>
    split_ifs at h
    have hbody := Option.some.inj h
    obtain ⟨tail, htail⟩ :=
      (List.dropLast_prefix (rest.rdropWhile isJsonBlank)).trans (List.rdropWhile_prefix ..)
    rw [hbody] at htail
    exact ⟨front, tail, by rw [htail, ← hdrop]; exact htext, hfront⟩
  · cases h

/-- The text of the first element, with only blanks and a bracket in front of it. -/
theorem elements_first {raw : String} {e : Element} {es : List Element}
    (h : elements? raw = some (e :: es)) : ∃ front text back, raw.toList = front ++ (text ++ back) ∧
      front ≠ [] ∧ (∀ c ∈ front, isJsonBlank c = true ∨ c = '[') ∧ element? text = some e := by
  obtain ⟨body, hbody, h⟩ := Option.bind_eq_some_iff.mp h
  obtain ⟨front, back, hraw, hfront⟩ := enclosed_eq hbody
  have hblank : ¬body.all isJsonBlank = true := by
    intro hall
    rw [if_pos hall] at h
    cases h
  rw [if_neg hblank] at h
  cases hpieces : pieces false false body with
  | nil =>
    rw [hpieces] at h
    cases h
  | cons piece others =>
    rw [hpieces, List.mapM_cons, Option.bind_eq_bind, Option.bind_eq_some_iff] at h
    obtain ⟨first, hfirst, h⟩ := h
    rw [Option.bind_eq_bind, Option.bind_eq_some_iff] at h
    obtain ⟨rest, -, h⟩ := h
    obtain ⟨rfl, rfl⟩ := List.cons.inj (Option.some.inj h)
    obtain ⟨tail, htail⟩ := pieces_prefix hpieces
    obtain ⟨lead, hlead, hleads⟩ := dropWhile_eq_append isJsonBlank piece
    obtain ⟨trail, htrail⟩ := List.rdropWhile_prefix isJsonBlank (piece.dropWhile isJsonBlank)
    have hpiece : piece = lead ++ (trim piece ++ trail) :=
      hlead.trans (congrArg (lead ++ ·) htrail.symm)
    refine ⟨front ++ '[' :: lead, trim piece, trail ++ (tail ++ back), ?_, by simp, ?_, hfirst⟩
    · have hbodyText : body = lead ++ (trim piece ++ trail) ++ tail := by rw [← hpiece, htail]
      rw [hraw, hbodyText]
      simp only [List.append_assoc, List.cons_append]
    · intro c hc
      rcases List.mem_append.mp hc with hc | hc
      · exact Or.inl (hfront c hc)
      · rcases List.mem_cons.mp hc with rfl | hc
        · exact Or.inr rfl
        · exact Or.inl (hleads c hc)

theorem element_cases {text : List Char} {e : Element} (h : element? text = some e) :
    (∃ literal s, text = '"' :: literal ∧ decode? literal = some s ∧
      e = .string (String.ofList s)) ∨
      (∃ word, word ∈ keywords ∧ e = .keyword word) ∨
      ∃ q, numeral? (String.ofList text) = some q ∧ e = .number (String.ofList text) := by
  rw [element?] at h
  split_ifs at h with hquote hword hnumber
  · obtain ⟨s, hs, rfl⟩ := Option.map_eq_some_iff.mp h
    cases text with
    | nil => cases hquote
    | cons c literal =>
      obtain rfl := Option.some.inj hquote
      exact Or.inl ⟨literal, s, rfl, hs, rfl⟩
  · exact Or.inr (Or.inl ⟨_, List.contains_iff_mem.mp hword, (Option.some.inj h).symm⟩)
  · simp only [isJsonNumber, Bool.and_eq_true] at hnumber
    obtain ⟨q, hq⟩ := Option.isSome_iff_exists.mp hnumber.1.1.1
    exact Or.inr (Or.inr ⟨q, hq, (Option.some.inj h).symm⟩)

end Elements

section Listing

/-- A text lists the elements in order, with commas between them. -/
def Listed (es : List Element) (sent : String) : Prop :=
  ∃ texts, List.Forall₂ SameElement es texts ∧ sent = join "," texts

theorem join_front (s : String) (rest : List String) :
    ∃ back, (join "," (s :: rest)).toList = s.toList ++ back := by
  cases rest with
  | nil => exact ⟨[], (List.append_nil _).symm⟩
  | cons t rest => exact ⟨_, toList_join_cons "," ',' rfl s t rest⟩

theorem beforeComma_stop (text rest : List Char) :
    beforeComma (text ++ ',' :: rest) = beforeComma text := by
  induction text with
  | nil =>
    rw [List.nil_append, beforeComma, List.takeWhile_cons_of_neg (by simp)]
    rfl
  | cons c text ih =>
    by_cases hc : c = ','
    · subst hc
      rw [List.cons_append, beforeComma, beforeComma, List.takeWhile_cons_of_neg (by simp),
        List.takeWhile_cons_of_neg (by simp)]
    · rw [List.cons_append, beforeComma_cons hc, beforeComma_cons hc, ih]

theorem beforeComma_le_append (text rest : List Char) :
    beforeComma text ≤ beforeComma (text ++ rest) := by
  induction text with
  | nil => exact Nat.zero_le _
  | cons c text ih =>
    by_cases hc : c = ','
    · subst hc
      rw [beforeComma, List.takeWhile_cons_of_neg (by simp)]
      exact Nat.zero_le _
    · rw [List.cons_append, beforeComma_cons hc, beforeComma_cons hc]
      omega

theorem beforeComma_front {front : List Char} (h : ',' ∉ front) (rest : List Char) :
    beforeComma (front ++ rest) = front.length + beforeComma rest := by
  induction front with
  | nil => exact (Nat.zero_add _).symm
  | cons c front ih =>
    have hc : c ≠ ',' := fun heq => h (heq ▸ List.mem_cons_self)
    rw [List.cons_append, beforeComma_cons hc, ih fun hmem => h (List.mem_cons_of_mem c hmem),
      List.length_cons]
    omega

/-- What may stand in front of the first element. -/
def fronts : List Char := ['[', ' ', '\t', '\n', '\r']

theorem mem_fronts {c : Char} (h : isJsonBlank c = true ∨ c = '[') : c ∈ fronts := by
  rcases h with h | rfl
  · exact List.mem_cons_of_mem _ (List.contains_iff_mem.mp h)
  · exact List.mem_cons_self

/-- The text of an element that is no string does not begin as an array does. -/
theorem sameElement_head {e : Element} {text : List Char} {sent : String}
    (he : element? text = some e) (hsame : SameElement e sent)
    (hstring : ∀ s, e ≠ .string s) : ∃ c rest, sent.toList = c :: rest ∧ c ∉ fronts := by
  rcases element_cases he with ⟨_, s, -, -, rfl⟩ | ⟨word, hword, rfl⟩ | ⟨q, -, rfl⟩
  · exact absurd rfl (hstring _)
  · obtain rfl : sent = word := hsame
    have hall : ∀ word ∈ keywords, word.toList.head?.any (fun c => !fronts.contains c) = true := by
      decide
    have hhead := hall sent hword
    cases hsent : sent.toList with
    | nil =>
      rw [hsent] at hhead
      cases hhead
    | cons c rest =>
      rw [hsent] at hhead
      exact ⟨c, rest, rfl, by simpa using hhead⟩
  · obtain ⟨r, -, hr⟩ := hsame
    obtain ⟨c, rest, hsent⟩ := List.exists_cons_of_ne_nil (numeral_nonempty hr)
    refine ⟨c, rest, hsent, fun hc => ?_⟩
    have hall : (fronts.all fun d => !isAsciiDigit d && !marks.contains d) = true := by decide
    have hfront : ∀ d ∈ fronts, isAsciiDigit d = false ∧ d ∉ marks := fun d hd => by
      simpa using List.all_eq_true.mp hall d hd
    obtain ⟨hdigit, hmark⟩ := hfront c hc
    exact numeral_not_mem hr hdigit hmark (hsent ▸ List.mem_cons_self)

theorem array_not_listed {raw : String} {es : List Element} (h : elements? raw = some es)
    {t : String} (ht : .number t ∈ es) : ¬Listed es raw := by
  rintro ⟨texts, hsame, hraw⟩
  cases hsame with
  | nil => cases ht
  | @cons e sent es texts hfirst hrest =>
    obtain ⟨front, text, back, hchars, hne, hfront, he⟩ := elements_first h
    by_cases hstring : ∃ s, e = .string s
    · obtain ⟨_, rfl⟩ := hstring
      rcases element_cases he with ⟨literal, s, rfl, hs, heq⟩ | ⟨_, -, heq⟩ | ⟨_, -, heq⟩
      · obtain rfl := Element.string.inj heq
        obtain rfl : sent = String.ofList s := hfirst
        cases hrest with
        | nil => exact absurd ht (by simp)
        | @cons _ next _ texts _ _ =>
          have hcomma : ',' ∉ front := by
            intro hmem
            exact absurd (mem_fronts (hfront _ hmem)) (by decide)
          rw [hraw, toList_join_cons "," ',' rfl, String.toList_ofList] at hchars
          have hcount := congrArg beforeComma hchars
          rw [beforeComma_stop, beforeComma_front hcomma, List.cons_append,
            beforeComma_cons (by decide)] at hcount
          have hle := decode_beforeComma hs
          have hmore := beforeComma_le_append literal back
          omega
      · cases heq
      · cases heq
    · obtain ⟨c, rest, hsent, hc⟩ := sameElement_head he hfirst fun s heq => hstring ⟨s, heq⟩
      obtain ⟨tail, htail⟩ := join_front sent texts
      obtain ⟨d, front, rfl⟩ := List.exists_cons_of_ne_nil hne
      rw [hraw, htail, hsent] at hchars
      obtain rfl := (List.cons.inj hchars).1
      exact hc (mem_fronts (hfront _ List.mem_cons_self))

end Listing

end JsonScalars
