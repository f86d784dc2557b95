import AgsCli.Library.Templates
import AgsCli.Library.OrderedMap
import AgsCli.Protocol.Error
import Mathlib.Data.String.Basic

/-! # Path templates

`substitute_path_params`: the `{name}` placeholders of a template replaced by percent-encoded
values. What a word character is comes from the regex engine. -/
namespace PathTemplate

open OrderedMap ProtocolError

/-- `\w` of the regex engine. -/
structure WordClass where
  isWord : Char → Bool
  open_not_word : isWord '\x7b' = false
  close_not_word : isWord '\x7d' = false

def WordClass.brackets (w : WordClass) : Templates.Brackets Char where
  opening := '\x7b'
  closing := '\x7d'
  isWord := w.isWord
  opening_not_word := w.open_not_word
  closing_not_word := w.close_not_word
  opening_ne_closing := by decide

/-- `PATH_SEGMENT_ENCODE` within ASCII, and everything beyond. -/
def isEncoded (c : Char) : Bool :=
  c.toNat < 32 || 126 < c.toNat || c.toNat = 96 ||
    [' ', '"', '#', '%', '/', '<', '>', '?', '\x7b', '\x7d'].contains c

def upperHexDigit (n : Nat) : Char := if n < 10 then Char.ofNat (48 + n) else Char.ofNat (55 + n)

def percentEncodeByte (b : UInt8) : List Char :=
  ['%', upperHexDigit (b.toNat / 16), upperHexDigit (b.toNat % 16)]

def percentEncodeChar (c : Char) : List Char :=
  if isEncoded c then (String.utf8EncodeChar c).flatMap percentEncodeByte else [c]

def percentEncode (value : String) : String := String.ofList (value.toList.flatMap percentEncodeChar)

def isControl (c : Char) : Bool := c.toNat < 32 || c.toNat = 127

def containsDots : List Char → Bool
  | '.' :: '.' :: _ => true
  | _ :: rest => containsDots rest
  | [] => false

def encodeUrlPathSegment (value paramName : String) : Except RuntimeError String :=
  if value.isEmpty then
    .error { kind := .validation, message := s!"Parameter '{paramName}' cannot be empty"
             details := none
             hint := some s!"Provide a value for --{paramName}. Run with --help to see expected format." }
  else if containsDots value.toList then
    .error (.validation "Invalid parameter value: path traversal ('..') is not allowed")
  else if value.toList.contains '?' then
    .error (.validation "Invalid parameter value: '?' is not allowed")
  else if value.toList.contains '#' then
    .error (.validation "Invalid parameter value: '#' is not allowed")
  else if value.toList.any isControl then
    .error (.validation "Invalid parameter value: control characters are not allowed")
  else .ok (percentEncode value)

example : (encodeUrlPathSegment "user/123" "id").toOption = some "user%2F123" := by decide

variable (w : WordClass)

def placeholders (template : String) : List String :=
  (w.brackets.parse template.toList).holes.map fun hole => String.ofList hole.1

def replacePlaceholder (name encoded path : String) : String :=
  String.ofList (Templates.replace (w.brackets.wrap name.toList) encoded.toList path.toList)

def substituteNames (params : BTreeMap String String) :
    List String → String → Except RuntimeError String
  | [], path => .ok path
  | name :: rest, path =>
    match params.get? name with
    | none => .error (.validation s!"Missing required parameter: --{name}")
    | some value =>
      match encodeUrlPathSegment value name with
      | .error e => .error e
      | .ok encoded => substituteNames params rest (replacePlaceholder w name encoded path)

def substitutePathParams (template : String) (params : BTreeMap String String) :
    Except RuntimeError String :=
  substituteNames w params (placeholders w template) template

section Filling

variable {w}

/-- What a placeholder of this name becomes. -/
def encodedValue (params : BTreeMap String String) (name : List Char) : List Char :=
  match params.get? (String.ofList name) with
  | some value => (percentEncode value).toList
  | none => []

/-- The template with every placeholder replaced at once. -/
def filledPath (w : WordClass) (template : String) (params : BTreeMap String String) : String :=
  String.ofList (Templates.Brackets.fill (encodedValue params)
    (w.brackets.parse template.toList))

/-- No replacement finds its placeholder at a place where the template has none. -/
def PlaceholdersApart (w : WordClass) (template : String) (params : BTreeMap String String) :
    Prop :=
  w.brackets.NoStray (encodedValue params) ((placeholders w template).map String.toList)
    (w.brackets.parse template.toList)

instance (template : String) (params : BTreeMap String String) :
    Decidable (PlaceholdersApart w template params) :=
  inferInstanceAs (Decidable (w.brackets.NoStray _ _ _))

theorem mem_percentEncodeByte {c : Char} {b : UInt8} (h : c ∈ percentEncodeByte b) :
    c = '%' ∨ ∃ n < 16, c = upperHexDigit n := by
  have hb := b.toNat_lt
  simp only [percentEncodeByte, List.mem_cons, List.not_mem_nil, or_false] at h
  rcases h with rfl | rfl | rfl
  · exact Or.inl rfl
  · exact Or.inr ⟨b.toNat / 16, by omega, rfl⟩
  · exact Or.inr ⟨b.toNat % 16, by omega, rfl⟩

theorem mem_percentEncode {c : Char} {value : String} (h : c ∈ (percentEncode value).toList) :
    (c ∈ value.toList ∧ isEncoded c = false) ∨ c = '%' ∨ ∃ n < 16, c = upperHexDigit n := by
  rw [percentEncode, String.toList_ofList, List.mem_flatMap] at h
  obtain ⟨d, hd, hc⟩ := h
  rw [percentEncodeChar] at hc
  split_ifs at hc with hencoded
  · obtain ⟨b, -, hb⟩ := List.mem_flatMap.mp hc
    exact Or.inr (mem_percentEncodeByte hb)
  · rw [List.mem_singleton.mp hc]
    exact Or.inl ⟨hd, eq_false_of_ne_true hencoded⟩

/-- A character that is encoded, and that no percent sequence has, is in no encoded value. -/
theorem not_mem_percentEncode {c : Char} (value : String) (hencoded : isEncoded c = true)
    (hpercent : c ≠ '%') (hdigit : ∀ n < 16, c ≠ upperHexDigit n) :
    c ∉ (percentEncode value).toList := by
  intro hmem
  rcases mem_percentEncode hmem with ⟨-, hplain⟩ | heq | ⟨n, hn, heq⟩
  · rw [hencoded] at hplain
    cases hplain
  · exact hpercent heq
  · exact hdigit n hn heq

theorem not_open_percentEncode (value : String) : '\x7b' ∉ (percentEncode value).toList :=
  not_mem_percentEncode value (by decide) (by decide) (by decide)

theorem not_open_encodedValue (params : BTreeMap String String) (name : List Char) :
    '\x7b' ∉ encodedValue params name := by
  unfold encodedValue
  split
  · exact not_open_percentEncode _
  · exact List.not_mem_nil

theorem encodeUrlPathSegment_ok {value name encoded : String}
    (h : encodeUrlPathSegment value name = .ok encoded) : encoded = percentEncode value := by
  unfold encodeUrlPathSegment at h
  split_ifs at h
  exact (Except.ok.inj h).symm

/-- What the loop answers is the run of all its replacements. -/
theorem substituteNames_ok {params : BTreeMap String String} {names : List String}
    {template path : String} (h : substituteNames w params names template = .ok path) :
    path.toList = w.brackets.run (encodedValue params) (names.map String.toList)
      template.toList := by
  induction names generalizing template with
  | nil =>
    rw [← Except.ok.inj h]
    rfl
  | cons name rest ih =>
    rw [substituteNames] at h
    split at h
    · cases h
    · next value hvalue =>
      split at h
      · cases h
      · next encoded hencoded =>
        have hvalues : encodedValue params name.toList = encoded.toList := by
          rw [encodedValue, String.ofList_toList, hvalue, encodeUrlPathSegment_ok hencoded]
        rw [ih h, List.map_cons]
        simp only [Templates.Brackets.run, List.foldl_cons, hvalues, replacePlaceholder,
          String.toList_ofList]

theorem substituted_iff {params : BTreeMap String String} {template path : String}
    (h : substitutePathParams w template params = .ok path) :
    path = filledPath w template params ↔ PlaceholdersApart w template params := by
  have hnamed := Templates.Brackets.named_parse (b := w.brackets) template.toList
  have hflatten := Templates.Brackets.flatten_parse (b := w.brackets) template.toList
  have hnames : (placeholders w template).map String.toList =
      (w.brackets.parse template.toList).holes.map (·.1) := by
    rw [placeholders, List.map_map]
    exact List.map_congr_left fun hole _ => String.toList_ofList
  have hiff := @Templates.Brackets.run_eq_fill_iff _ _ w.brackets (encodedValue params)
    ((placeholders w template).map String.toList) (t := w.brackets.parse template.toList) (by
      rw [hnames]
      intro name hname
      obtain ⟨hole, hhole, rfl⟩ := List.mem_map.mp hname
      exact hnamed hole hhole)
    (fun name _ => not_open_encodedValue params name) hnamed (by
      rw [hnames]
      exact fun hole hhole => List.mem_map_of_mem hhole)
  rw [PlaceholdersApart, ← hiff, hflatten, ← substituteNames_ok h, filledPath]
  constructor
  · rintro rfl
    rw [String.toList_ofList]
  · intro heq
    rw [← String.ofList_toList (s := path), heq]

end Filling

end PathTemplate
