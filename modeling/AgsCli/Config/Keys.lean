import AgsCli.Support.Strings

/-! # Config keys

The registry of known keys and the predicates on their values. -/
namespace ConfigKeys

open Strings

inductive ConfigScope
  | global
  | profile
  deriving DecidableEq, Repr

structure ConfigKeyDef where
  cliName : String
  jsonName : String
  scope : ConfigScope
  deriving DecidableEq, Repr

def knownKeys : List ConfigKeyDef :=
  [⟨"active-profile", "active_profile", .global⟩, ⟨"format", "format", .global⟩,
   ⟨"no-color", "no_color", .global⟩, ⟨"timeout", "timeout", .global⟩,
   ⟨"page-limit", "page_limit", .global⟩,
   ⟨"first-run-hint-seen", "first_run_hint_seen", .global⟩,
   ⟨"base-url", "base_url", .profile⟩, ⟨"client-id", "client_id", .profile⟩,
   ⟨"namespace", "namespace", .profile⟩, ⟨"grant-type", "grant_type", .profile⟩,
   ⟨"update-check", "update_check", .global⟩]

def findKey (cliName : String) : Option ConfigKeyDef := knownKeys.find? (·.cliName = cliName)

def clientSecretAliases : List String := ["client-secret", "secret"]

def isClientSecretKey (cliName : String) : Bool :=
  clientSecretAliases.any fun name => asciiLower name = asciiLower cliName

section Predicates

def byteLength (s : List Char) : Nat := (s.map Char.utf8Size).sum

/-- `url::Url::parse`, as far as the scheme is http or https. -/
structure UrlParser where
  isHttp : String → Bool

def isValidBaseUrl (url : UrlParser) (value : String) : Bool := url.isHttp value

def isAsciiHexdigit (c : Char) : Bool :=
  isAsciiDigit c || ('a' ≤ c && c ≤ 'f') || ('A' ≤ c && c ≤ 'F')

def isValidClientId (value : String) : Bool :=
  let stripped := value.toList.filter (· ≠ '-')
  byteLength stripped = 32 && stripped.all isAsciiHexdigit

def normaliseClientId (value : String) : String :=
  asciiLower (String.ofList (value.toList.filter (· ≠ '-')))

def clientIdsMatch (a b : String) : Bool := normaliseClientId a = normaliseClientId b

def isValidNamespace (value : String) : Bool :=
  !value.isEmpty && byteLength value.toList ≤ 48 && value.toList.head? ≠ some '-' &&
    value.toList.getLast? ≠ some '-' &&
    value.toList.all fun c => isAsciiLower c || isAsciiDigit c || c = '-'

end Predicates

theorem findKey_some {cliName : String} {keyDef : ConfigKeyDef}
    (h : findKey cliName = some keyDef) : keyDef ∈ knownKeys ∧ keyDef.cliName = cliName :=
  ⟨List.mem_of_find?_eq_some h, by simpa using List.find?_some h⟩

/-- No two keys share a name, nor a field. -/
theorem knownKeys_distinct : (knownKeys.map (·.cliName)).Nodup ∧
    (knownKeys.map (·.jsonName)).Nodup := by simp [knownKeys]

theorem findKey_cliName {keyDef : ConfigKeyDef} (h : keyDef ∈ knownKeys) :
    findKey keyDef.cliName = some keyDef := by
  have hall : ∀ keyDef ∈ knownKeys, findKey keyDef.cliName = some keyDef := by
    simp [knownKeys, findKey]
  exact hall keyDef h

theorem not_secret {keyDef : ConfigKeyDef} (h : keyDef ∈ knownKeys) :
    isClientSecretKey keyDef.cliName = false := by
  have hall : ∀ keyDef ∈ knownKeys, isClientSecretKey keyDef.cliName = false := by
    simp [knownKeys, isClientSecretKey, clientSecretAliases, asciiLower, isAsciiUpper]
  exact hall keyDef h

section Normalisation

theorem dropWhile_dropWhile {α : Type} (p : α → Bool) (l : List α) :
    (l.dropWhile p).dropWhile p = l.dropWhile p := by
  induction l with
  | nil => rfl
  | cons a rest ih =>
    by_cases ha : p a = true
    · rw [List.dropWhile_cons_of_pos ha, ih]
    · rw [List.dropWhile_cons_of_neg ha, List.dropWhile_cons_of_neg ha]

theorem trimEndMatches_idem (c : Char) (s : String) :
    trimEndMatches c (trimEndMatches c s) = trimEndMatches c s := by
  rw [trimEndMatches, trimEndMatches, String.toList_ofList, List.reverse_reverse,
    dropWhile_dropWhile]

def hexdigits : List Char := "0123456789abcdefABCDEF".toList

theorem mem_hexdigits {c : Char} (h : isAsciiHexdigit c = true) : c ∈ hexdigits := by
  have hchar : Char.ofNat c.toNat = c := Char.ofNat_toNat c
  have hrange : (48 ≤ c.toNat ∧ c.toNat ≤ 57) ∨ (97 ≤ c.toNat ∧ c.toNat ≤ 102) ∨
      (65 ≤ c.toNat ∧ c.toNat ≤ 70) := by
    simpa [isAsciiHexdigit, isAsciiDigit, Char.le_def, UInt32.le_iff_toNat_le, or_assoc] using h
  rw [← hchar]
  generalize c.toNat = n at hrange
  have hmem : ∀ n ≤ 102, ((48 ≤ n ∧ n ≤ 57) ∨ (97 ≤ n ∧ n ≤ 102) ∨ (65 ≤ n ∧ n ≤ 70)) →
      Char.ofNat n ∈ hexdigits := by decide
  exact hmem n (by omega) hrange

def lowerChar (c : Char) : Char := if isAsciiUpper c then c.toLower else c

theorem hexdigit_lower : ∀ c ∈ hexdigits, isAsciiHexdigit (lowerChar c) = true ∧
    lowerChar c ≠ '-' ∧ (lowerChar c).utf8Size = 1 ∧ c.utf8Size = 1 ∧
    lowerChar (lowerChar c) = lowerChar c := by
  have hall : (hexdigits.all fun c => decide (isAsciiHexdigit (lowerChar c) = true ∧
      lowerChar c ≠ '-' ∧ (lowerChar c).utf8Size = 1 ∧ c.utf8Size = 1 ∧
      lowerChar (lowerChar c) = lowerChar c)) = true := by decide
  exact fun c hc => of_decide_eq_true (List.all_eq_true.mp hall c hc)

theorem normaliseClientId_valid {value : String} (h : isValidClientId value = true) :
    isValidClientId (normaliseClientId value) = true ∧
      normaliseClientId (normaliseClientId value) = normaliseClientId value := by
  simp only [isValidClientId, Bool.and_eq_true, decide_eq_true_eq, List.all_eq_true] at h
  obtain ⟨hlength, hdigits⟩ := h
  generalize hstripped : value.toList.filter (· ≠ '-') = stripped at hlength hdigits
  have hlower : ∀ c ∈ stripped, isAsciiHexdigit (lowerChar c) = true ∧
      lowerChar c ≠ '-' ∧ (lowerChar c).utf8Size = 1 ∧ c.utf8Size = 1 ∧
      lowerChar (lowerChar c) = lowerChar c :=
    fun c hc => hexdigit_lower c (mem_hexdigits (hdigits c hc))
  have hnormal : (normaliseClientId value).toList = stripped.map lowerChar := by
    rw [normaliseClientId, asciiLower, String.toList_ofList, String.toList_ofList, hstripped]
    rfl
  have hkept : (stripped.map lowerChar).filter (· ≠ '-') = stripped.map lowerChar := by
    rw [List.filter_eq_self]
    intro c hc
    obtain ⟨d, hd, rfl⟩ := List.mem_map.mp hc
    exact decide_eq_true (hlower d hd).2.1
  have hbytes : byteLength (stripped.map lowerChar) = byteLength stripped := by
    rw [byteLength, byteLength, List.map_map]
    refine congrArg List.sum (List.map_congr_left fun c hc => ?_)
    rw [Function.comp, (hlower c hc).2.2.1, (hlower c hc).2.2.2.1]
  constructor
  · simp only [isValidClientId, hnormal, hkept, hbytes, hlength, Bool.and_eq_true,
      decide_eq_true_eq, List.all_eq_true, true_and]
    intro c hc
    obtain ⟨d, hd, rfl⟩ := List.mem_map.mp hc
    exact (hlower d hd).1
  · have htwice : (stripped.map lowerChar).map lowerChar = stripped.map lowerChar := by
      rw [List.map_map]
      exact List.map_congr_left fun c hc => (hlower c hc).2.2.2.2
    rw [← String.toList_inj, hnormal, ← htwice]
    rw [normaliseClientId, asciiLower, String.toList_ofList, String.toList_ofList, hnormal, hkept]
    rfl

end Normalisation

end ConfigKeys
