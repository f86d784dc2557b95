import AgsCli.Dispatch.WireParameters
import AgsCli.Library.UrlPaths

/-! # The shape of a substituted path

The segments an HTTP URL parser reads in a path, beside the segments of the template with each
value in its own, and exactly when the two are the same. -/
namespace PathShape

open OrderedMap ProtocolError PathTemplate UrlPaths Templates

section Decoding

def hexValue (c : Char) : Option Nat :=
  if '0' ≤ c ∧ c ≤ '9' then some (c.toNat - 48)
  else if 'A' ≤ c ∧ c ≤ 'F' then some (c.toNat - 55)
  else if 'a' ≤ c ∧ c ≤ 'f' then some (c.toNat - 87)
  else none

def percentDecodeBytes : List Char → List UInt8
  | '%' :: high :: low :: rest =>
    match hexValue high, hexValue low with
    | some h, some l => UInt8.ofNat (16 * h + l) :: percentDecodeBytes rest
    | _, _ => String.utf8EncodeChar '%' ++ percentDecodeBytes (high :: low :: rest)
  | c :: rest => String.utf8EncodeChar c ++ percentDecodeBytes rest
  | [] => []

/-- The text a percent-encoded one stands for, if it is UTF-8. -/
def percentDecode (encoded : String) : Option String :=
  String.fromUTF8? (percentDecodeBytes encoded.toList).toByteArray

theorem hexValue_upperHexDigit : ∀ n < 16, hexValue (upperHexDigit n) = some n := by decide

theorem decode_encodeByte (b : UInt8) (rest : List Char) :
    percentDecodeBytes (percentEncodeByte b ++ rest) = b :: percentDecodeBytes rest := by
  have hb := b.toNat_lt
  have hhigh := hexValue_upperHexDigit (b.toNat / 16) (by omega)
  have hlow := hexValue_upperHexDigit (b.toNat % 16) (by omega)
  have hsum : 16 * (b.toNat / 16) + b.toNat % 16 = b.toNat := Nat.div_add_mod _ _
  simp only [percentEncodeByte, List.cons_append, List.nil_append, percentDecodeBytes, hhigh, hlow,
    hsum, UInt8.ofNat_toNat]

theorem decode_encodeBytes (bytes : List UInt8) (rest : List Char) :
    percentDecodeBytes (bytes.flatMap percentEncodeByte ++ rest) =
      bytes ++ percentDecodeBytes rest := by
  induction bytes with
  | nil => rfl
  | cons b bytes ih =>
    rw [List.flatMap_cons, List.append_assoc, decode_encodeByte, ih, List.cons_append]

theorem decode_encodeChar (c : Char) (rest : List Char) :
    percentDecodeBytes (percentEncodeChar c ++ rest) =
      String.utf8EncodeChar c ++ percentDecodeBytes rest := by
  rw [percentEncodeChar]
  split_ifs with hencoded
  · exact decode_encodeBytes _ rest
  · have hne : c ≠ '%' := fun heq => hencoded (heq ▸ by decide)
    rw [List.singleton_append, percentDecodeBytes]
    intro high low rest' heq
    exact absurd heq hne

theorem percentDecode_percentEncode (value : String) :
    percentDecode (percentEncode value) = some value := by
  have hbytes : ∀ chars : List Char, percentDecodeBytes (chars.flatMap percentEncodeChar) =
      chars.flatMap String.utf8EncodeChar := by
    intro chars
    induction chars with
    | nil => rfl
    | cons c chars ih => rw [List.flatMap_cons, decode_encodeChar, ih, List.flatMap_cons]
  have hvalue : (value.toList.flatMap String.utf8EncodeChar).toByteArray = value.toByteArray :=
    String.utf8Encode_toList
  rw [percentDecode, percentEncode, String.toList_ofList, hbytes, hvalue, String.fromUTF8?,
    dif_pos value.isValidUTF8]
  rfl

end Decoding

section Parsing

def isSeparator (c : Char) : Bool := c = '/' || c = '\\'

def endsPath (c : Char) : Bool := c = '?' || c = '#'

/-- The dots a segment spells, with `%2e` for a dot. -/
def dotCount : List Char → Option Nat
  | [] => some 0
  | '.' :: rest => (dotCount rest).map (· + 1)
  | '%' :: '2' :: c :: rest => if c = 'e' ∨ c = 'E' then (dotCount rest).map (· + 1) else none
  | _ => none

def dots (segment : List Char) : Dots :=
  match dotCount segment with
  | some 1 => .single
  | some 2 => .double
  | _ => .plain

def splitPath {α : Type} (separates ends : α → Bool) (text : List α) : List (List α) :=
  afterStart ((text.takeWhile (!ends ·)).splitOnP separates)

/-- The segments of the path of an http URL; `base` are those its base URL has. A path begins with
a slash, as an OpenAPI template does, and holds no tab, newline or outer space: the parser would
drop them. -/
def requestPath (base : List (List Char)) (path : String) : List (List Char) :=
  resolve [] base ((splitPath isSeparator endsPath path.toList).map fun s => (s, dots s))

example : requestPath ["v1".toList] "/a/../b%2f/./c?d" = ["v1".toList, "b%2f".toList, "c".toList] := by
  decide

end Parsing

section Pieces

inductive Piece
  | text (c : Char)
  | hole (name : List Char)
  deriving DecidableEq

namespace Piece

def isSeparator : Piece → Bool
  | .text c => PathShape.isSeparator c
  | .hole _ => false

def endsPath : Piece → Bool
  | .text c => PathShape.endsPath c
  | .hole _ => false

def isHole : Piece → Bool
  | .text _ => false
  | .hole _ => true

end Piece

def holePieces : List (List Char × List Char) → List Piece
  | [] => []
  | (name, text) :: rest => .hole name :: (text.map .text ++ holePieces rest)

def templatePieces (w : WordClass) (template : String) : List Piece :=
  let t := w.brackets.parse template.toList
  t.head.map .text ++ holePieces t.holes

def filled (params : BTreeMap String String) : Piece → List Char
  | .text c => [c]
  | .hole name => encodedValue params name

def rawValue (params : BTreeMap String String) : Piece → List Char
  | .text _ => []
  | .hole name => ((params.get? (String.ofList name)).getD "").toList

def templateSegments (w : WordClass) (template : String) : List (List Piece) :=
  splitPath Piece.isSeparator Piece.endsPath (templatePieces w template)

/-- What the template says of a segment: one with a placeholder is never dots. -/
def templateDots (params : BTreeMap String String) (segment : List Piece) : Dots :=
  if segment.any Piece.isHole then .plain else dots (segment.flatMap (filled params))

/-- The path a template stands for, each value in the segment of its placeholder. -/
def templatePath (w : WordClass) (template : String) (params : BTreeMap String String)
    (base : List (List Char)) : List (List Char) :=
  resolve [] base ((templateSegments w template).map fun s =>
    (s.flatMap (filled params), templateDots params s))

/-- The values are where the template has them, and change nothing else of the path. -/
structure KeepsShape (w : WordClass) (template : String) (params : BTreeMap String String)
    (path : String) : Prop where
  filled : path = filledPath w template params
  decoded : ∀ name ∈ placeholders w template, ∀ value, params.get? name = some value →
    percentDecode (percentEncode value) = some value
  segments : splitPath isSeparator endsPath path.toList =
    (templateSegments w template).map (·.flatMap (PathShape.filled params))
  request : ∀ base, requestPath base path = templatePath w template params base

structure Contained (w : WordClass) (template : String) (params : BTreeMap String String) :
    Prop where
  apart : PlaceholdersApart w template params
  backslash : ∀ segment ∈ templateSegments w template, ∀ piece ∈ segment,
    '\\' ∉ rawValue params piece
  dots : ∀ segment ∈ templateSegments w template, segment.any Piece.isHole = true →
    dots (segment.flatMap (filled params)) = .plain

end Pieces

section Filling

variable {w : WordClass} {template : String} {params : BTreeMap String String}

theorem fill_holePieces (holes : List (List Char × List Char)) :
    (holePieces holes).flatMap (filled params) = Brackets.fillHoles (encodedValue params) holes := by
  have htext : ∀ text : List Char, (text.map Piece.text).flatMap (filled params) = text := by
    intro text
    rw [List.flatMap_map]
    exact List.flatMap_singleton' text
  induction holes with
  | nil => rfl
  | cons hole rest ih =>
    obtain ⟨name, text⟩ := hole
    rw [holePieces, List.flatMap_cons, List.flatMap_append, htext, ih]
    rfl

theorem fill_templatePieces :
    (templatePieces w template).flatMap (filled params) = (filledPath w template params).toList := by
  rw [templatePieces, List.flatMap_append, fill_holePieces, List.flatMap_map]
  rw [filledPath, String.toList_ofList, Brackets.fill]
  exact congrArg (· ++ _) (List.flatMap_singleton' _)

theorem placeholder_of_hole {name : List Char}
    (h : .hole name ∈ templatePieces w template) : String.ofList name ∈ placeholders w template := by
  have hholes : ∀ holes : List (List Char × List Char), Piece.hole name ∈ holePieces holes →
      ∃ hole ∈ holes, hole.1 = name := by
    intro holes hmem
    induction holes with
    | nil => exact absurd hmem List.not_mem_nil
    | cons hole rest ih =>
      obtain ⟨other, text⟩ := hole
      rw [holePieces] at hmem
      rcases List.mem_cons.mp hmem with heq | hmem
      · exact ⟨_, List.mem_cons_self, (Piece.hole.inj heq).symm⟩
      · rcases List.mem_append.mp hmem with htext | hrest
        · obtain ⟨c, -, hc⟩ := List.mem_map.mp htext
          cases hc
        · obtain ⟨hole, hhole, heq⟩ := ih hrest
          exact ⟨hole, List.mem_cons_of_mem _ hhole, heq⟩
  rcases List.mem_append.mp h with htext | hhole
  · obtain ⟨c, -, hc⟩ := List.mem_map.mp htext
    cases hc
  · obtain ⟨hole, hmem, heq⟩ := hholes _ hhole
    exact List.mem_map.mpr ⟨hole, hmem, heq ▸ rfl⟩

theorem encodeUrlPathSegment_nonempty {value name encoded : String}
    (h : encodeUrlPathSegment value name = .ok encoded) : value ≠ "" := by
  rintro rfl
  cases h

/-- A substitution that succeeds has a value, not empty, for each placeholder. -/
theorem substituteNames_values {names : List String} {path result : String}
    (h : substituteNames w params names path = .ok result) :
    ∀ name ∈ names, ∃ value, params.get? name = some value ∧ value ≠ "" := by
  induction names generalizing path with
  | nil => exact fun name hmem => absurd hmem List.not_mem_nil
  | cons first rest ih =>
    rw [substituteNames] at h
    split at h
    · cases h
    · next value hvalue =>
      split at h
      · cases h
      · next encoded hencoded =>
        intro name hmem
        rcases List.mem_cons.mp hmem with rfl | hmem
        · exact ⟨value, hvalue, encodeUrlPathSegment_nonempty hencoded⟩
        · exact ih h name hmem

theorem percentEncode_ne_nil {value : String} (h : value ≠ "") :
    (percentEncode value).toList ≠ [] := by
  intro hnil
  have hdecoded := percentDecode_percentEncode value
  rw [percentDecode, hnil] at hdecoded
  exact h (Option.some.inj hdecoded).symm

/-- Every piece of a template that can be substituted becomes some text. -/
theorem filled_ne_nil {path : String} (h : substitutePathParams w template params = .ok path)
    {piece : Piece} (hmem : piece ∈ templatePieces w template) : filled params piece ≠ [] := by
  cases piece with
  | text c => exact List.cons_ne_nil c []
  | hole name =>
    obtain ⟨value, hvalue, hne⟩ := substituteNames_values h _ (placeholder_of_hole hmem)
    have hfilled : filled params (.hole name) = (percentEncode value).toList := by
      simp only [filled, encodedValue, hvalue]
    rw [hfilled]
    exact percentEncode_ne_nil hne

theorem not_mem_encodedValue {c : Char} (name : List Char) (hencoded : isEncoded c = true)
    (hpercent : c ≠ '%') (hdigit : ∀ n < 16, c ≠ upperHexDigit n) :
    c ∉ encodedValue params name := by
  unfold encodedValue
  split
  · exact not_mem_percentEncode _ hencoded hpercent hdigit
  · exact List.not_mem_nil

theorem fills_ends (l : List Piece) : Fills endsPath Piece.endsPath (filled params) l := by
  intro piece hmem
  cases piece with
  | text c =>
    refine ⟨fun h => ⟨c, rfl, h⟩, fun h d hd => ?_⟩
    rw [List.mem_singleton.mp hd]
    exact h
  | hole name =>
    refine ⟨fun h => Bool.noConfusion h, fun _ d hd => ?_⟩
    by_contra hends
    have heither : d = '?' ∨ d = '#' := by simpa [endsPath] using eq_true_of_ne_false hends
    rcases heither with rfl | rfl
    · exact not_mem_encodedValue name (by decide) (by decide) (by decide) hd
    · exact not_mem_encodedValue name (by decide) (by decide) (by decide) hd

theorem separates_iff (name : List Char) :
    (∃ c ∈ filled params (.hole name), isSeparator c = true) ↔
      '\\' ∈ rawValue params (.hole name) := by
  rw [filled, encodedValue, rawValue]
  cases params.get? (String.ofList name) with
  | none => simp
  | some value =>
    dsimp only [Option.getD_some]
    constructor
    · rintro ⟨c, hc, hseparator⟩
      have heither : c = '/' ∨ c = '\\' := by simpa [isSeparator] using hseparator
      rcases heither with rfl | rfl
      · exact absurd hc (not_mem_percentEncode value (by decide) (by decide) (by decide))
      · rcases mem_percentEncode hc with ⟨hmem, -⟩ | heq | ⟨n, hn, heq⟩
        · exact hmem
        · cases heq
        · have hdigit : ∀ n < 16, '\\' ≠ upperHexDigit n := by decide
          exact absurd heq (hdigit n hn)
    · intro hmem
      refine ⟨'\\', ?_, by decide⟩
      rw [percentEncode, String.toList_ofList, List.mem_flatMap]
      exact ⟨'\\', hmem, by decide⟩

def pathPieces (w : WordClass) (template : String) : List Piece :=
  (templatePieces w template).takeWhile (!Piece.endsPath ·)

theorem mem_templatePieces {segment : List Piece} {piece : Piece}
    (hmem : segment ∈ (pathPieces w template).splitOnP Piece.isSeparator) (hin : piece ∈ segment) :
    piece ∈ templatePieces w template :=
  (List.takeWhile_prefix _).subset (mem_of_split hmem hin)

theorem fills_separators
    (hbackslash : ∀ segment ∈ templateSegments w template, ∀ piece ∈ segment,
      '\\' ∉ rawValue params piece) :
    Fills isSeparator Piece.isSeparator (filled params) (pathPieces w template) := by
  intro piece hmem
  cases piece with
  | text c =>
    refine ⟨fun h => ⟨c, rfl, h⟩, fun h d hd => ?_⟩
    rw [List.mem_singleton.mp hd]
    exact h
  | hole name =>
    refine ⟨fun h => Bool.noConfusion h, fun _ d hd => ?_⟩
    obtain ⟨segment, hsegment, hin⟩ := exists_segment_of_mem hmem (p := Piece.isSeparator) rfl
    have hkept := mem_afterStart hsegment (List.ne_nil_of_mem hin)
    by_contra hseparator
    exact hbackslash segment hkept _ hin
      ((separates_iff name).mp ⟨d, hd, eq_true_of_ne_false hseparator⟩)

theorem splitPath_filled : splitPath isSeparator endsPath (filledPath w template params).toList =
    afterStart (((pathPieces w template).flatMap (filled params)).splitOnP isSeparator) := by
  rw [splitPath, ← fill_templatePieces, takeWhile_flatMap (fills_ends _), pathPieces]

theorem namedDots_or_plain (segment : List Piece) :
    templateDots params segment = .plain ∨
      templateDots params segment = dots (segment.flatMap (filled params)) := by
  unfold templateDots
  split_ifs
  · exact Or.inl rfl
  · exact Or.inr rfl

/-- The request has the template's segments exactly when none of them becomes dots. -/
theorem request_iff {path : String} (hsegments : splitPath isSeparator endsPath path.toList =
    (templateSegments w template).map (·.flatMap (filled params))) :
    (∀ base, requestPath base path = templatePath w template params base) ↔
      ∀ segment ∈ templateSegments w template, segment.any Piece.isHole = true →
        dots (segment.flatMap (filled params)) = .plain := by
  have hiff := @resolve_eq_iff (List Char) [] (List Piece) (·.flatMap (filled params))
    (fun segment => dots (segment.flatMap (filled params))) (templateDots params)
    (templateSegments w template) (fun segment _ => namedDots_or_plain segment) (by
      intro segment _ hdots hnil
      rw [hnil] at hdots
      exact hdots rfl)
  have hrequest : ∀ base, requestPath base path = resolve [] base
      ((templateSegments w template).map fun segment =>
        (segment.flatMap (filled params), dots (segment.flatMap (filled params)))) := by
    intro base
    rw [requestPath, hsegments, List.map_map]
    rfl
  simp only [hrequest, templatePath, hiff]
  constructor
  · intro hsame segment hmem hhole
    rw [hsame segment hmem, templateDots, if_pos hhole]
  · intro hplain segment hmem
    rw [templateDots]
    split_ifs with hhole
    · exact hplain segment hmem hhole
    · rfl

/-- A substituted path keeps the template's shape exactly when no placeholder strays, no value of
the path has a backslash and no segment with a value is dots. -/
theorem keepsShape_iff {path : String} (h : substitutePathParams w template params = .ok path) :
    KeepsShape w template params path ↔ Contained w template params := by
  constructor
  · intro hkeeps
    refine ⟨(substituted_iff h).mp hkeeps.filled, ?_, (request_iff hkeeps.segments).mp
      hkeeps.request⟩
    intro segment hsegment piece hin hbackslash
    obtain ⟨name, rfl⟩ : ∃ name, piece = .hole name := by
      cases piece with
      | text c => exact absurd hbackslash List.not_mem_nil
      | hole name => exact ⟨name, rfl⟩
    obtain ⟨c, hc, hseparator⟩ := (separates_iff name).mpr hbackslash
    have hmem : segment.flatMap (filled params) ∈ splitPath isSeparator endsPath path.toList := by
      rw [hkeeps.segments]
      exact List.mem_map_of_mem hsegment
    have hnone := not_separator_of_split (mem_of_mem_afterStart hmem) c
      (List.mem_flatMap.mpr ⟨_, hin, hc⟩)
    rw [hseparator] at hnone
    cases hnone
  · rintro ⟨hapart, hbackslash, hdots⟩
    have hfilled := (substituted_iff h).mpr hapart
    have hsegments : splitPath isSeparator endsPath path.toList =
        (templateSegments w template).map (·.flatMap (filled params)) := by
      rw [hfilled, splitPath_filled, splitOnP_flatMap (fills_separators hbackslash),
        afterStart_map]
      · rfl
      · intro segment hsegment hnil
        rw [List.eq_nil_iff_forall_not_mem]
        intro piece hin
        exact filled_ne_nil h (mem_templatePieces hsegment hin)
          (List.flatMap_eq_nil_iff.mp hnil piece hin)
    exact ⟨hfilled, fun _ _ value _ => percentDecode_percentEncode value, hsegments,
      (request_iff hsegments).mpr hdots⟩

end Filling

section Concrete

def userTemplate : String := "/iam/v3/users/{userId}/roles"

def userParams (userId : String) : BTreeMap String String := .ofList [("userId", userId)]

/-- A value that tries nothing keeps the shape. -/
theorem keepsShape_plain :
    KeepsShape WireParameters.asciiWord userTemplate (userParams "a/b%2e é")
      "/iam/v3/users/a%2Fb%252e%20%C3%A9/roles" :=
  (keepsShape_iff rfl).mpr ⟨by decide, by decide, by decide⟩

/-- A backslash makes two segments of one, and a dot makes its segment vanish. -/
theorem segments_escape :
    substitutePathParams WireParameters.asciiWord userTemplate (userParams "a\\b") =
        .ok "/iam/v3/users/a\\b/roles" ∧
      requestPath [] "/iam/v3/users/a\\b/roles" =
        ["iam", "v3", "users", "a", "b", "roles"].map String.toList ∧
      substitutePathParams WireParameters.asciiWord userTemplate (userParams ".") =
        .ok "/iam/v3/users/./roles" ∧
      requestPath [] "/iam/v3/users/./roles" = ["iam", "v3", "users", "roles"].map String.toList ∧
      ¬ KeepsShape WireParameters.asciiWord userTemplate (userParams "a\\b")
        "/iam/v3/users/a\\b/roles" ∧
      ¬ KeepsShape WireParameters.asciiWord userTemplate (userParams ".")
        "/iam/v3/users/./roles" := by
  refine ⟨by decide, by decide, by decide, by decide, fun hkeeps => ?_, fun hkeeps => ?_⟩
  · have hlength := congrArg List.length hkeeps.segments
    revert hlength
    decide
  · have hlength := congrArg List.length (hkeeps.request [])
    revert hlength
    decide

end Concrete

end PathShape
