import AgsCli.Auth.Errors
import AgsCli.Auth.Session
import AgsCli.Library.Checks
import AgsCli.Library.Runs

/-! # Refreshing a session again and again

The answers of the token endpoint, what a successful refresh stores of them, and runs of refreshes
against a server that may or may not issue a new refresh token with each. -/
namespace RefreshChain

open OrderedMap Json ProtocolError AuthErrors ConfigStore AuthToken AuthSession

section Answers

def defaultExpiresIn : UInt64 := 3600

def responseFields : Fields :=
  [("access_token", .string), ("expires_in", .u64), ("token_type", .string),
   ("refresh_token", .string), ("refresh_expires_in", .u64)]

structure TokenResponse where
  accessToken : String
  expiresIn : UInt64
  tokenType : String
  refreshToken : Option String
  refreshExpiresIn : Option UInt64
  deriving DecidableEq, Repr

/-- A field with `#[serde(default)]`: it may be missing, not null. -/
def defaulted (fieldType : FieldType) (fallback : FieldValue) : Option Value → Option FieldValue
  | none => some fallback
  | some v => decodeValue fieldType v

def TokenResponse.ofMembers (members : List (String × Value)) : Option TokenResponse := do
  let accessToken ← (Entries.lookup "access_token" members).bind (decodeValue .string)
  let expiresIn ← defaulted .u64 (.u64 0) (Entries.lookup "expires_in" members)
  let tokenType ← defaulted .string (.string "") (Entries.lookup "token_type" members)
  let refreshToken ← decodeField .string (Entries.lookup "refresh_token" members)
  let refreshExpiresIn ← decodeField .u64 (Entries.lookup "refresh_expires_in" members)
  some
    { accessToken := ← TokenData.text accessToken
      expiresIn := ← TokenData.number expiresIn
      tokenType := ← TokenData.text tokenType
      refreshToken := refreshToken.bind TokenData.text
      refreshExpiresIn := refreshExpiresIn.bind TokenData.number }

/-- `serde_json::from_str` on an object; an array, which serde reads field by field, is refused. -/
def TokenResponse.parse (r : Reader) (body : String) : Option TokenResponse :=
  ((r.read body).bind (membersOf responseFields)).bind ofMembers

/-- The lifetime, and the warning where the server gave none. -/
def normalizeExpiresIn (expiresIn : UInt64) : UInt64 × Option String :=
  if expiresIn = 0 then
    (defaultExpiresIn, some s!"Server did not return an expiry — assuming {defaultExpiresIn}s")
  else (expiresIn, none)

def tokenParseFailed (source : String) : RuntimeError :=
  { kind := .notAuthenticated, message := s!"Failed to parse token response: {source}"
    details := none, hint := none }

def parseTokenResult (r : Reader) (body : String) : Except RuntimeError TokenResult :=
  match TokenResponse.parse r body with
  | none => .error (tokenParseFailed "invalid token response")
  | some response => .ok
    { accessToken := response.accessToken
      expiresIn := (normalizeExpiresIn response.expiresIn).1
      refreshToken := response.refreshToken
      refreshExpiresIn := response.refreshExpiresIn }

end Answers

section Runs

/-- The stored token text, and the refresh token the server issued last. -/
structure Session where
  text : String
  issued : Option String

structure Refresh where
  mode : RefreshMode
  expected : Option String
  now : UInt64
  clientId : String
  body : String

variable (r : Reader)

def stored (s : Session) : Option TokenData := TokenData.parse r s.text

def issues (e : Refresh) : Option String :=
  match parseTokenResult r e.body with
  | .ok result => result.refreshToken
  | .error _ => none

/-- A refresh that succeeds; `none` where nothing is refreshed. -/
def next (s : Session) (e : Refresh) : Option Session :=
  match assess e.mode e.expected (stored r s) e.now.toNat with
  | .settle _ => none
  | .refresh _ =>
    match stored r s, parseTokenResult r e.body with
    | some tokenData, .ok result =>
      let newTokenData := tokenResultToTokenData result
        (tokenData.grantType.getD .authorizationCode) e.now.toNat e.clientId
      some ⟨newTokenData.json, (issues r e).or s.issued⟩
    | _, _ => none

/-- The stored refresh token is the one issued last. -/
def Held (s : Session) : Prop := (stored r s).map (·.refreshToken) = some s.issued

structure After (now secs time : UInt64) : Prop where
  notEarlier : now ≤ time
  unwrapped : time.toNat = now.toNat + secs.toNat ∨ time.toNat = 2 ^ 64 - 1

structure Faithful (s : Session) (e : Refresh) (t : Session) : Prop where
  issued : Held r t
  grantType : ∀ d d', stored r s = some d → stored r t = some d' →
    ∀ grantType, d.grantType = some grantType → d'.grantType = some grantType
  expires : ∀ result d', parseTokenResult r e.body = .ok result → stored r t = some d' →
    After e.now result.expiresIn d'.expiresAt
  refreshExpires : ∀ result d' secs time, parseTokenResult r e.body = .ok result →
    stored r t = some d' → result.refreshExpiresIn = some secs → d'.refreshExpiresAt = some time →
      After e.now secs time

/-- Every refresh of a run keeps the session refreshable. -/
def AlwaysFaithful (s : Session) (refreshes : List Refresh) : Prop :=
  ∀ before e after u t, refreshes = before ++ e :: after →
    Runs.follow (next r) before s = some u → next r u e = some t → Faithful r u e t

end Runs

section Steps

variable {r : Reader} {s t : Session} {e : Refresh}

theorem toNat_saturatingAdd (now secs : UInt64) :
    (saturatingAdd now.toNat secs).toNat = min (now.toNat + secs.toNat) (2 ^ 64 - 1) := by
  rw [saturatingAdd, UInt64.toNat_ofNat']
  omega

theorem after_saturatingAdd (now secs : UInt64) :
    After now secs (saturatingAdd now.toNat secs) := by
  have hnow := now.toNat_lt
  have hsum := toNat_saturatingAdd now secs
  refine ⟨?_, ?_⟩
  · rw [UInt64.le_iff_toNat_le]
    omega
  · omega

theorem next_ok (h : next r s e = some t) :
    ∃ d result token, stored r s = some d ∧ d.refreshToken = some token ∧
      parseTokenResult r e.body = .ok result ∧ t.issued = result.refreshToken.or s.issued ∧
      stored r t = some (tokenResultToTokenData result (d.grantType.getD .authorizationCode)
        e.now.toNat e.clientId) := by
  unfold next at h
  split at h
  · cases h
  · next token hassess =>
    obtain ⟨d, hstored, -, htoken, -⟩ := assess_refresh hassess
    rw [hstored] at h
    cases hresult : parseTokenResult r e.body with
    | error error =>
      rw [hresult] at h
      cases h
    | ok result =>
      rw [hresult] at h
      cases h
      refine ⟨d, result, token, hstored, htoken, rfl, ?_, TokenData.parse_json r _⟩
      rw [issues, hresult]

theorem faithful_iff (h : next r s e = some t) : Faithful r s e t ↔ Held r t := by
  refine ⟨fun hfaithful => hfaithful.issued, fun hheld => ?_⟩
  obtain ⟨d, result, token, hstored, -, hresult, -, hstored'⟩ := next_ok h
  refine ⟨hheld, ?_, ?_, ?_⟩
  · intro d₁ d' hd hd' grantType hgrant
    cases hstored.symm.trans hd
    cases hstored'.symm.trans hd'
    exact congrArg (fun g => some (Option.getD g .authorizationCode)) hgrant
  · intro result₁ d' hresult' hd'
    cases hresult.symm.trans hresult'
    cases hstored'.symm.trans hd'
    exact after_saturatingAdd e.now result.expiresIn
  · intro result₁ d' secs time hresult' hd' hsecs htime
    cases hresult.symm.trans hresult'
    cases hstored'.symm.trans hd'
    have hmap : (some secs).map (saturatingAdd e.now.toNat) = some time := hsecs ▸ htime
    cases hmap
    exact after_saturatingAdd e.now secs

/-- From a session that holds its token, a refresh leaves one exactly when it is given a new one. -/
theorem held_iff (hs : Held r s) (h : next r s e = some t) :
    Held r t ↔ (issues r e).isSome = true := by
  obtain ⟨d, result, token, hstored, htoken, hresult, hissued, hstored'⟩ := next_ok h
  have hissues : issues r e = result.refreshToken := by rw [issues, hresult]
  have hlast : s.issued = some token := by
    rw [Held, hstored, Option.map_some, htoken] at hs
    exact (Option.some.inj hs).symm
  rw [Held, hstored', hissued, hlast, hissues]
  cases hnew : result.refreshToken with
  | none => simp [tokenResultToTokenData, hnew]
  | some new => simp [tokenResultToTokenData, hnew]

end Steps

section Results

variable {r : Reader} {s t : Session} {e : Refresh} {refreshes : List Refresh}

theorem alwaysFaithful_cons (h : next r s e = some t) :
    AlwaysFaithful r s (e :: refreshes) ↔ Faithful r s e t ∧ AlwaysFaithful r t refreshes := by
  constructor
  · intro hall
    refine ⟨hall [] e refreshes s t rfl rfl h, fun before e' after u t' heq hfollow hnext => ?_⟩
    refine hall (e :: before) e' after u t' (congrArg (e :: ·) heq) ?_ hnext
    rw [Runs.follow, h]
    exact hfollow
  · rintro ⟨hfirst, hrest⟩ before e' after u t' heq hfollow hnext
    cases before with
    | nil =>
      cases heq
      cases hfollow
      cases h.symm.trans hnext
      exact hfirst
    | cons e₀ before =>
      cases heq
      rw [Runs.follow, h] at hfollow
      exact hrest before e' after u t' rfl hfollow hnext

/-- Over a run of refreshes a session holds the refresh token issued last, its grant type and
expiry times that are right, exactly when every answer brings a new refresh token. -/
theorem refreshes_faithful_iff (r : Reader) {s t : Session} {refreshes : List Refresh}
    (hs : Held r s) (hrun : Runs.follow (next r) refreshes s = some t) :
    AlwaysFaithful r s refreshes ↔ ∀ e ∈ refreshes, (issues r e).isSome = true := by
  induction refreshes generalizing s with
  | nil =>
    constructor
    · intro _ e he
      cases he
    · intro _ before e after u t' heq
      exact absurd heq.symm (List.append_ne_nil_of_right_ne_nil before (List.cons_ne_nil e after))
  | cons e rest ih =>
    obtain ⟨u, hnext, hrest⟩ := Option.bind_eq_some_iff.mp hrun
    rw [alwaysFaithful_cons hnext, faithful_iff hnext, List.forall_mem_cons, held_iff hs hnext]
    refine and_congr_right fun hissued => ?_
    exact ih ((held_iff hs hnext).mpr hissued) hrest

end Results

section Servers

def answer (refreshToken : Option String) : Value :=
  .object ([("access_token", .string "b"), ("expires_in", .number (.int 60))] ++
    (refreshToken.map fun token => ("refresh_token", Value.string token)).toList)

theorem parse_answer (r : Reader) (refreshToken : Option String) :
    parseTokenResult r (answer refreshToken).render = .ok ⟨"b", 60, refreshToken, none⟩ := by
  have hread : r.read (answer refreshToken).render = some (answer refreshToken) := by
    refine r.read_render _ ?_ ?_ ?_ <;> cases refreshToken
    · decide
    · exact Bool.eq_true_of_not_eq_false (by rintro ⟨⟩)
    · decide
    · exact Nat.le_of_ble_eq_true rfl
    · intro t ht
      cases ht
    · intro t ht
      cases ht
  rw [parseTokenResult, TokenResponse.parse, hread]
  cases refreshToken <;> rfl

/-- A session of the authorization-code grant, stale when it is refreshed at 5. -/
def loggedIn : TokenData :=
  { accessToken := "a", expiresAt := 10, refreshToken := some "r1", refreshExpiresAt := none
    grantType := some .authorizationCode, clientId := some "id" }

def start : Session := ⟨loggedIn.json, some "r1"⟩

def refreshAt (now : UInt64) (refreshToken : Option String) : Refresh :=
  { mode := .force, expected := some "id", now, clientId := "id"
    body := (answer refreshToken).render }

theorem held_start : Held textReader start := by
  rw [Held, stored, start, TokenData.parse_json]
  rfl

theorem next_refreshAt {s : Session} {d : TokenData} {token : String} (now : UInt64)
    (refreshToken : Option String) (hstored : stored textReader s = some d)
    (hassess : assess .force (some "id") (some d) now.toNat = .refresh token) :
    next textReader s (refreshAt now refreshToken) =
      some ⟨(tokenResultToTokenData ⟨"b", 60, refreshToken, none⟩
        (d.grantType.getD .authorizationCode) now.toNat "id").json, refreshToken.or s.issued⟩ := by
  rw [next, issues]
  simp only [refreshAt, hstored, hassess, parse_answer]

theorem stored_start : stored textReader start = some loggedIn := TokenData.parse_json ..

/-- What the server's answer leaves of the session. -/
def refreshed (refreshToken : Option String) : TokenData :=
  tokenResultToTokenData ⟨"b", 60, refreshToken, none⟩
    (loggedIn.grantType.getD .authorizationCode) (UInt64.toNat 5) "id"

theorem assess_start : assess .force (some "id") (some loggedIn) 5 = .refresh "r1" := by rfl

theorem next_start (refreshToken : Option String) :
    next textReader start (refreshAt 5 refreshToken) =
      some ⟨(refreshed refreshToken).json, refreshToken.or (some "r1")⟩ :=
  next_refreshAt 5 refreshToken stored_start assess_start

/-- A server that rotates: each of its answers brings the refresh token of the next refresh. -/
def rotations : List Refresh := [refreshAt 5 (some "r2"), refreshAt 70 (some "r3")]

theorem refreshes_faithful_rotating : AlwaysFaithful textReader start rotations ↔
    ∀ e ∈ rotations, (issues textReader e).isSome = true := by
  have hstored : stored textReader ⟨(refreshed (some "r2")).json, some "r2"⟩ =
      some (refreshed (some "r2")) := TokenData.parse_json ..
  have hsecond := next_refreshAt 70 (some "r3") hstored rfl
  have hrun : Runs.follow (next textReader) rotations start =
      some ⟨(tokenResultToTokenData ⟨"b", 60, some "r3", none⟩ .authorizationCode
        (UInt64.toNat 70) "id").json, some "r3"⟩ := by
    rw [rotations, Runs.follow, next_start, Option.bind_some, Option.some_or, Runs.follow, hsecond]
    rfl
  exact refreshes_faithful_iff textReader held_start hrun

/-- The server lets the refresh token stay: the refresh succeeds and drops it, and the session
cannot be refreshed again. -/
theorem refresh_token_dropped : ∃ t, next textReader start (refreshAt 5 none) = some t ∧
    t.issued = some "r1" ∧ stored textReader t = some (refreshed none) ∧
      assess .force (some "id") (some (refreshed none)) 6 =
        .settle (.unavailable .noRefreshToken) ∧
      ¬AlwaysFaithful textReader start [refreshAt 5 none] := by
  have hnext := next_start none
  have hstored : stored textReader ⟨(refreshed none).json, some "r1"⟩ = some (refreshed none) :=
    TokenData.parse_json ..
  refine ⟨_, hnext, rfl, hstored, rfl, fun hall => ?_⟩
  have hheld := (hall [] _ [] start _ rfl rfl hnext).issued
  have hdropped : Held textReader ⟨(refreshed none).json, some "r1"⟩ := hheld
  rw [Held, hstored] at hdropped
  cases hdropped

end Servers

end RefreshChain
