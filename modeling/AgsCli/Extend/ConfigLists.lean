import AgsCli.Extend.CsmApi
import AgsCli.Protocol.JsonText
import AgsCli.Support.Decimals

/-! # Secrets and variables of an app

`list_secrets_paged` and `list_variables_paged`: the pages of a list are read until the wanted key
is on one, a page is short, or the cap is reached. -/
namespace ConfigLists

open Json Http Strings PathTemplate CsmApi

structure ConfigRecord where
  configId : String
  configName : String
  applyMask : Bool
  description : Option String
  deriving DecidableEq, Repr

def bool? : Value → Option Bool
  | .bool b => some b
  | _ => none

def readRecord (item : Value) : Option ConfigRecord := do
  let configId ← (item.get? "configId").bind Value.asStr?
  let configName ← (item.get? "configName").bind Value.asStr?
  let applyMask ← match item.get? "applyMask" with
    | none => some false
    | some v => bool? v
  let description ← optionField item "description" Value.asStr?
  return ⟨configId, configName, applyMask, description⟩

/-- `ListSecretsResponse` and `ListVariablesResponse`, and their records, as objects; an array, which
serde reads field by field, is refused. -/
def readList (body : Value) : Option (List ConfigRecord) :=
  match body with
  | .object members =>
    match Value.get? (.object members) "data" with
    | none => some []
    | some (.array items) => items.mapM readRecord
    | some _ => none
  | _ => none

structure ListKind where
  noun : String
  plural : String
  operation : String

def secretKind : ListKind := ⟨"secret", "secrets", "GetListOfSecretsV5"⟩
def variableKind : ListKind := ⟨"variable", "variables", "GetListOfVariablesV5"⟩

section Listing

variable (client : CsmClient) (kind : ListKind) (baseUrl accessToken namespace_ app : String)

def listUrl : Except CliError String :=
  match encodeUrlPathSegment namespace_ "namespace" with
  | .error e => .error (.ofRuntime e)
  | .ok encodedNs =>
    match encodeUrlPathSegment app "app" with
    | .error e => .error (.ofRuntime e)
    | .ok encodedApp => .ok <|
      trimEndMatches '/' baseUrl ++
        s!"/csm/v5/admin/namespaces/{encodedNs}/apps/{encodedApp}/{kind.plural}"

def pageQuery (pageLimit offset : Nat) : List (String × String) :=
  [("limit", toString pageLimit), ("offset", toString offset)]

def fetchPage (url : String) (pageLimit offset : Nat) : Except CliError (List ConfigRecord) :=
  match client.send (getRequest url accessToken (pageQuery pageLimit offset)) with
  | .error e => .error (.network s!"failed to list CSM {kind.plural}: {e}"
      (some (.withSuggestion "Check your network connection and base URL")))
  | .ok reply =>
    if isSuccess reply.status then
      match (reply.body.bind client.readJson).bind readList with
      | none => .error (.api
          s!"failed to parse CSM {kind.plural} list response: {client.decodeError}" none .upstream)
      | some data => .ok data
    else .error (.api (s!"CSM {kind.operation} returned HTTP {client.statusText reply.status} " ++
        s!"for namespace '{namespace_}' app '{app}'" ++
        extractCsmErrorDetail client (reply.body.getD ""))
      (some (.withSuggestion "Check the namespace, app name, and your permissions")) .upstream)

variable (targetKey : String) (pageLimit : Nat)

def capError (offset : Nat) : CliError :=
  .api (s!"{kind.noun} '{targetKey}' was not found within the first {offset} records " ++
      s!"in namespace '{namespace_}' app '{app}'")
    (some (.withSuggestion (s!"The app may contain more {kind.plural} than were searched. " ++
      s!"Check the {kind.noun} name or contact your administrator."))) .upstream

def pageLoop (url : String) :
    Nat → Nat → List ConfigRecord → Except CliError (List ConfigRecord)
  | 0, offset, _ => .error (capError kind namespace_ app targetKey offset)
  | pages + 1, offset, records =>
    match fetchPage client kind accessToken namespace_ app url pageLimit offset with
    | .error e => .error e
    | .ok data =>
      if data.any (·.configName = targetKey) then .ok (records ++ data)
      else if data.length < pageLimit then .ok (records ++ data)
      else pageLoop url pages (offset + data.length) (records ++ data)

def listPaged (maxPages : Nat) : Except CliError (List ConfigRecord) :=
  match listUrl kind baseUrl namespace_ app with
  | .error e => .error e
  | .ok url => pageLoop client kind accessToken namespace_ app targetKey pageLimit url maxPages 0 []

def listSecretsPaged (maxPages : Nat) : Except CliError (List ConfigRecord) :=
  listPaged client secretKind baseUrl accessToken namespace_ app targetKey pageLimit maxPages

def listVariablesPaged (maxPages : Nat) : Except CliError (List ConfigRecord) :=
  listPaged client variableKind baseUrl accessToken namespace_ app targetKey pageLimit maxPages

def pageSize : Nat := 100

def pageCap : Nat := 50

def listSecrets : Except CliError (List ConfigRecord) :=
  listSecretsPaged client baseUrl accessToken namespace_ app targetKey pageSize pageCap

def listVariables : Except CliError (List ConfigRecord) :=
  listVariablesPaged client baseUrl accessToken namespace_ app targetKey pageSize pageCap

end Listing

def firstOccurrence (targetKey : String) (stored : List ConfigRecord) : Option Nat :=
  stored.findIdx? (·.configName = targetKey)

def page (stored : List ConfigRecord) (limit offset : Nat) : List ConfigRecord :=
  (stored.drop offset).take limit

/-- The server answers a limit and an offset with that page of the stored list. -/
def Serves (client : CsmClient) (kind : ListKind) (baseUrl accessToken namespace_ app : String)
    (stored : List ConfigRecord) : Prop :=
  ∃ url, listUrl kind baseUrl namespace_ app = .ok url ∧ ∀ limit offset, ∃ reply,
    client.send (getRequest url accessToken (pageQuery limit offset)) = .ok reply ∧
    isSuccess reply.status = true ∧
    (reply.body.bind client.readJson).bind readList = some (page stored limit offset)

/-- What a walk over the pages is to find. -/
def pagedOutcome (stored : List ConfigRecord) (targetKey : String) (pageLimit maxPages : Nat) :
    Option (List ConfigRecord) :=
  match firstOccurrence targetKey stored with
  | some i =>
    if i < maxPages * pageLimit then some (stored.take ((i / pageLimit + 1) * pageLimit)) else none
  | none => if stored.length < maxPages * pageLimit then some stored else none

section Outcome

variable {client : CsmClient} {kind : ListKind} {baseUrl accessToken namespace_ app url : String}
  {targetKey : String} {stored : List ConfigRecord} {pageLimit maxPages : Nat}

theorem fetchPage_reply {reply : CsmReply} {offset : Nat} {data : List ConfigRecord}
    (hsend : client.send (getRequest url accessToken (pageQuery pageLimit offset)) = .ok reply)
    (hstatus : isSuccess reply.status = true)
    (hbody : (reply.body.bind client.readJson).bind readList = some data) :
    fetchPage client kind accessToken namespace_ app url pageLimit offset = .ok data := by
  simp only [fetchPage, hsend, hstatus, hbody, if_true]

theorem firstOccurrence_append {front back : List ConfigRecord}
    (habsent : ¬ front.any (·.configName = targetKey) = true) :
    firstOccurrence targetKey (front ++ back) =
      (firstOccurrence targetKey back).map (· + front.length) := by
  have hfront : front.findIdx? (·.configName = targetKey) = none := by
    rw [List.findIdx?_eq_none_iff]
    intro record hrecord
    by_contra hname
    exact habsent (List.any_eq_true.mpr ⟨record, hrecord, by simpa using hname⟩)
  rw [firstOccurrence, List.findIdx?_append, hfront, Option.none_or]
  rfl

theorem pagedOutcome_found
    (hfound : (stored.take pageLimit).any (·.configName = targetKey) = true) :
    pagedOutcome stored targetKey pageLimit (maxPages + 1) = some (stored.take pageLimit) := by
  obtain ⟨i, hi⟩ : ∃ i, (stored.take pageLimit).findIdx? (·.configName = targetKey) = some i := by
    rw [← Option.isSome_iff_exists, List.findIdx?_isSome]
    exact hfound
  have hbound := (List.findIdx?_eq_some_iff_getElem.mp hi).1
  have hlimit : i < pageLimit := Nat.lt_of_lt_of_le hbound (List.length_take_le _ _)
  have hall : firstOccurrence targetKey stored = some i := by
    rw [firstOccurrence, ← List.take_append_drop pageLimit stored, List.findIdx?_append, hi,
      Option.some_or]
  have hcap : i < (maxPages + 1) * pageLimit := by
    rw [Nat.add_mul, Nat.one_mul]
    omega
  simp only [pagedOutcome, hall, if_pos hcap, Nat.div_eq_of_lt hlimit, Nat.zero_add, Nat.one_mul]

theorem pagedOutcome_short
    (habsent : ¬ (stored.take pageLimit).any (·.configName = targetKey) = true)
    (hshort : (stored.take pageLimit).length < pageLimit) :
    pagedOutcome stored targetKey pageLimit (maxPages + 1) = some (stored.take pageLimit) := by
  have hlength : stored.length < pageLimit := by
    rw [List.length_take] at hshort
    omega
  rw [List.take_of_length_le hlength.le] at habsent ⊢
  have hnone : firstOccurrence targetKey stored = none := by
    rw [← List.append_nil stored, firstOccurrence_append habsent]
    rfl
  have hcap : stored.length < (maxPages + 1) * pageLimit := by
    rw [Nat.add_mul, Nat.one_mul]
    omega
  simp only [pagedOutcome, hnone, if_pos hcap]

/-- A full first page without the key: the walk goes on behind it. -/
theorem pagedOutcome_full (hpos : 0 < pageLimit)
    (habsent : ¬ (stored.take pageLimit).any (·.configName = targetKey) = true)
    (hfull : pageLimit ≤ stored.length) :
    pagedOutcome stored targetKey pageLimit (maxPages + 1) =
      (pagedOutcome (stored.drop pageLimit) targetKey pageLimit maxPages).map
        (stored.take pageLimit ++ ·) := by
  have hlength : (stored.take pageLimit).length = pageLimit := List.length_take_of_le hfull
  have hsplit : firstOccurrence targetKey stored =
      (firstOccurrence targetKey (stored.drop pageLimit)).map (· + pageLimit) := by
    conv_lhs => rw [← List.take_append_drop pageLimit stored]
    rw [firstOccurrence_append habsent, hlength]
  have hpages : (maxPages + 1) * pageLimit = maxPages * pageLimit + pageLimit := by
    rw [Nat.add_mul, Nat.one_mul]
  cases hrest : firstOccurrence targetKey (stored.drop pageLimit) with
  | none =>
    rw [hrest, Option.map_none] at hsplit
    simp only [pagedOutcome, hsplit, hrest, List.length_drop]
    by_cases hcap : stored.length - pageLimit < maxPages * pageLimit
    · rw [if_pos hcap, if_pos (by omega), Option.map_some, List.take_append_drop]
    · rw [if_neg hcap, if_neg (by omega), Option.map_none]
  | some i =>
    rw [hrest, Option.map_some] at hsplit
    simp only [pagedOutcome, hsplit, hrest]
    by_cases hcap : i < maxPages * pageLimit
    · have hpage : ((i + pageLimit) / pageLimit + 1) * pageLimit =
          pageLimit + (i / pageLimit + 1) * pageLimit := by
        rw [Nat.add_div_right _ hpos, Nat.add_mul, Nat.one_mul, Nat.add_comm]
      rw [if_pos hcap, if_pos (by omega), hpage, List.take_add, Option.map_some]
    · rw [if_neg hcap, if_neg (by omega), Option.map_none]

theorem pageLoop_outcome (hpos : 0 < pageLimit)
    (hserves : ∀ offset, fetchPage client kind accessToken namespace_ app url pageLimit offset =
      .ok (page stored pageLimit offset))
    (pages offset : Nat) (records : List ConfigRecord) :
    (pageLoop client kind accessToken namespace_ app targetKey pageLimit url pages offset
      records).toOption =
      (pagedOutcome (stored.drop offset) targetKey pageLimit pages).map (records ++ ·) := by
  induction pages generalizing offset records with
  | zero =>
    have hnone : pagedOutcome (stored.drop offset) targetKey pageLimit 0 = none := by
      unfold pagedOutcome
      cases firstOccurrence targetKey (stored.drop offset) <;> simp
    rw [pageLoop, hnone]
    rfl
  | succ pages ih =>
    have hfetch : fetchPage client kind accessToken namespace_ app url pageLimit offset =
        .ok ((stored.drop offset).take pageLimit) := hserves offset
    rw [pageLoop, hfetch]
    simp only
    by_cases hfound : ((stored.drop offset).take pageLimit).any (·.configName = targetKey) = true
    · rw [if_pos hfound, pagedOutcome_found hfound]
      rfl
    · rw [if_neg hfound]
      by_cases hshort : ((stored.drop offset).take pageLimit).length < pageLimit
      · rw [if_pos hshort, pagedOutcome_short hfound hshort]
        rfl
      · have hfull : pageLimit ≤ (stored.drop offset).length := by
          rw [List.length_take] at hshort
          omega
        rw [if_neg hshort, List.length_take_of_le hfull, ih, pagedOutcome_full hpos hfound hfull,
          Option.map_map, List.drop_drop]
        simp only [Function.comp_def, List.append_assoc]

theorem listPaged_outcome (hpos : 0 < pageLimit)
    (hserves : Serves client kind baseUrl accessToken namespace_ app stored) (maxPages : Nat) :
    (listPaged client kind baseUrl accessToken namespace_ app targetKey pageLimit
      maxPages).toOption = pagedOutcome stored targetKey pageLimit maxPages := by
  obtain ⟨url, hurl, hreplies⟩ := hserves
  have hpages : ∀ offset, fetchPage client kind accessToken namespace_ app url pageLimit offset =
      .ok (page stored pageLimit offset) := by
    intro offset
    obtain ⟨reply, hsend, hstatus, hbody⟩ := hreplies pageLimit offset
    exact fetchPage_reply hsend hstatus hbody
  simp only [listPaged, hurl, pageLoop_outcome hpos hpages, List.drop_zero, List.nil_append,
    Option.map_id']

def HasKey (targetKey : String) (records : List ConfigRecord) : Prop :=
  ∃ record ∈ records, record.configName = targetKey

/-- What a caller may conclude: the key is found within the cap, or is nowhere. -/
structure AbsentMeansAbsent (stored : List ConfigRecord) (targetKey : String)
    (pageLimit maxPages : Nat) (result : Except CliError (List ConfigRecord)) : Prop where
  isPrefix : ∀ records, result = .ok records → records <+: stored
  found : (∃ records, result = .ok records ∧ HasKey targetKey records) ↔
    ∃ i, firstOccurrence targetKey stored = some i ∧ i < maxPages * pageLimit
  absent : (∃ records, result = .ok records ∧ ¬ HasKey targetKey records) ↔
    ¬ HasKey targetKey stored ∧ stored.length < maxPages * pageLimit

theorem firstOccurrence_none :
    firstOccurrence targetKey stored = none ↔ ¬ HasKey targetKey stored := by
  simp [firstOccurrence, HasKey, List.findIdx?_eq_none_iff]

theorem hasKey_pages {i : Nat} (hpos : 0 < pageLimit)
    (hfirst : firstOccurrence targetKey stored = some i) :
    HasKey targetKey (stored.take ((i / pageLimit + 1) * pageLimit)) := by
  obtain ⟨hi, hname, -⟩ := List.findIdx?_eq_some_iff_getElem.mp hfirst
  have hpage : i < (i / pageLimit + 1) * pageLimit := by
    have hrest := Nat.div_add_mod i pageLimit
    have hmod := Nat.mod_lt i hpos
    rw [Nat.add_mul, Nat.one_mul, Nat.mul_comm (i / pageLimit)]
    omega
  refine ⟨stored[i], ?_, by simpa using hname⟩
  rw [List.mem_take_iff_getElem]
  exact ⟨i, by omega, rfl⟩

theorem absentMeansAbsent_of_outcome {result : Except CliError (List ConfigRecord)}
    (hpos : 0 < pageLimit)
    (hresult : result.toOption = pagedOutcome stored targetKey pageLimit maxPages) :
    AbsentMeansAbsent stored targetKey pageLimit maxPages result := by
  have hok : ∀ records, result = .ok records ↔
      pagedOutcome stored targetKey pageLimit maxPages = some records := by
    intro records
    rw [← hresult]
    cases result with
    | error e => simp [Except.toOption]
    | ok found => simp [Except.toOption]
  simp only [pagedOutcome] at hok
  cases hfirst : firstOccurrence targetKey stored with
  | none =>
    have hnone := firstOccurrence_none.mp hfirst
    simp only [hfirst, Option.ite_none_right_eq_some, Option.some.injEq] at hok
    refine ⟨?_, ?_, ?_⟩
    · intro records hrecords
      rw [← ((hok records).mp hrecords).2]
    · constructor
      · rintro ⟨records, hrecords, hkey⟩
        exact absurd (((hok records).mp hrecords).2 ▸ hkey) hnone
      · rintro ⟨i, hi, -⟩
        rw [hfirst] at hi
        cases hi
    · constructor
      · rintro ⟨records, hrecords, -⟩
        exact ⟨hnone, ((hok records).mp hrecords).1⟩
      · rintro ⟨-, hcap⟩
        exact ⟨stored, (hok stored).mpr ⟨hcap, rfl⟩, hnone⟩
  | some i =>
    have hkey := hasKey_pages hpos hfirst
    simp only [hfirst, Option.ite_none_right_eq_some, Option.some.injEq] at hok
    refine ⟨?_, ?_, ?_⟩
    · intro records hrecords
      rw [← ((hok records).mp hrecords).2]
      exact List.take_prefix _ _
    · constructor
      · rintro ⟨records, hrecords, -⟩
        exact ⟨i, hfirst, ((hok records).mp hrecords).1⟩
      · rintro ⟨j, hj, hcap⟩
        rw [hfirst] at hj
        cases hj
        exact ⟨_, (hok _).mpr ⟨hcap, rfl⟩, hkey⟩
    · constructor
      · rintro ⟨records, hrecords, hmissing⟩
        exact absurd (((hok records).mp hrecords).2 ▸ hkey) hmissing
      · rintro ⟨hmissing, -⟩
        rw [firstOccurrence_none.mpr hmissing] at hfirst
        cases hfirst

/-- Both lists decide alike whether the key is there, is nowhere, or was not reached. -/
theorem lists_absentMeansAbsent (hpos : 1 ≤ pageLimit)
    (hsecrets : Serves client secretKind baseUrl accessToken namespace_ app stored)
    (hvariables : Serves client variableKind baseUrl accessToken namespace_ app stored) :
    AbsentMeansAbsent stored targetKey pageLimit maxPages (listSecretsPaged client baseUrl
      accessToken namespace_ app targetKey pageLimit maxPages) ∧
    AbsentMeansAbsent stored targetKey pageLimit maxPages (listVariablesPaged client baseUrl
      accessToken namespace_ app targetKey pageLimit maxPages) ∧
    (listSecretsPaged client baseUrl accessToken namespace_ app targetKey pageLimit
      maxPages).toOption =
    (listVariablesPaged client baseUrl accessToken namespace_ app targetKey pageLimit
      maxPages).toOption := by
  refine ⟨?_, ?_, ?_⟩
  · exact absentMeansAbsent_of_outcome hpos (listPaged_outcome hpos hsecrets maxPages)
  · exact absentMeansAbsent_of_outcome hpos (listPaged_outcome hpos hvariables maxPages)
  · exact (listPaged_outcome hpos hsecrets maxPages).trans
      (listPaged_outcome hpos hvariables maxPages).symm

end Outcome

section Serving

def recordJson (record : ConfigRecord) : Value :=
  .object [("configId", .string record.configId), ("configName", .string record.configName),
    ("applyMask", .bool record.applyMask),
    ("description", (record.description.map Value.string).getD .null)]

def listJson (records : List ConfigRecord) : Value :=
  .object [("data", .array (records.map recordJson))]

theorem readRecord_recordJson (record : ConfigRecord) :
    readRecord (recordJson record) = some record := by
  obtain ⟨configId, configName, applyMask, description⟩ := record
  cases description <;> rfl

theorem readList_listJson (records : List ConfigRecord) :
    readList (listJson records) = some records := by
  have hitems : (records.map recordJson).mapM readRecord = some records := by
    induction records with
    | nil => rfl
    | cons record rest ih =>
      rw [List.map_cons, List.mapM_cons, readRecord_recordJson, ih]
      rfl
  exact hitems

theorem flat_recordJson (records : List ConfigRecord) :
    sizedItems (records.map recordJson) = true ∧ nestingItems (records.map recordJson) ≤ 1 ∧
      floatsItems (records.map recordJson) = [] := by
  induction records with
  | nil => exact ⟨rfl, Nat.zero_le 1, rfl⟩
  | cons record rest ih =>
    have hrecord : (recordJson record).isSized = true ∧ (recordJson record).nesting = 1 ∧
        (recordJson record).floats = [] := by
      obtain ⟨configId, configName, applyMask, description⟩ := record
      cases description <;> exact ⟨rfl, rfl, rfl⟩
    rw [List.map_cons, sizedItems, nestingItems, floatsItems, hrecord.1, hrecord.2.1, hrecord.2.2,
      ih.1, ih.2.2]
    exact ⟨rfl, max_le le_rfl ih.2.1, rfl⟩

theorem read_listJson (reader : Reader) (records : List ConfigRecord) :
    (reader.read (listJson records).render).bind readList = some records := by
  obtain ⟨hsized, hnesting, hfloats⟩ := flat_recordJson records
  have hread := reader.read_render (listJson records)
    (by simp only [listJson, Value.isSized, sizedMembers, hsized, Bool.and_true])
    (by
      simp only [listJson, Value.nesting, nestingMembers, recursionLimit]
      omega)
    (by simp [listJson, Value.floats, floatsMembers, hfloats])
  rw [hread]
  exact readList_listJson records

def listServer (stored : List ConfigRecord) : CsmClient where
  send request :=
    match request.query.map fun entry => decimal? entry.2.toList with
    | [some limit, some offset] => .ok ⟨200, some (listJson (page stored limit offset)).render⟩
    | _ => .ok ⟨400, none⟩
  readJson := textReader.read
  statusText status := toString status
  decodeError := "error decoding response body"

theorem listServer_serves {kind : ListKind} {baseUrl namespace_ app url : String}
    (hurl : listUrl kind baseUrl namespace_ app = .ok url) (accessToken : String)
    (stored : List ConfigRecord) :
    Serves (listServer stored) kind baseUrl accessToken namespace_ app stored := by
  refine ⟨url, hurl, fun limit offset => ?_⟩
  have hdecimal : ∀ n : Nat, decimal? (toString n).toList = some n := by
    intro n
    have hdigits : (toString n).toList = Nat.toDigits 10 n := String.toList_ofList
    rw [hdigits, Decimals.decimal_toDigits]
  refine ⟨⟨200, some (listJson (page stored limit offset)).render⟩, ?_, rfl, ?_⟩
  · simp only [listServer, getRequest, pageQuery, List.map_cons, List.map_nil, hdecimal]
  · exact read_listJson textReader (page stored limit offset)

/-- Two secrets behind one another, two pages of one record. -/
theorem lists_absentMeansAbsent_pair :
    AbsentMeansAbsent [⟨"1", "A", true, none⟩, ⟨"2", "B", false, some "second"⟩] "B" 1 2
      (listSecretsPaged (listServer [⟨"1", "A", true, none⟩, ⟨"2", "B", false, some "second"⟩])
        "https://csm/" "t" "ns" "app" "B" 1 2) :=
  (lists_absentMeansAbsent (Nat.le_refl 1) (listServer_serves rfl "t" _)
    (listServer_serves rfl "t" _)).1

end Serving

end ConfigLists
