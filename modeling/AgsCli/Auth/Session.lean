import AgsCli.Auth.TokenData
import AgsCli.Config.Keys

/-! # Stored sessions

What the session lifecycle decides about the token data it has read: whether it may be used, whether
it must be refreshed and with which refresh token. -/
namespace AuthSession

open AuthToken ConfigStore ConfigKeys

/-- Seconds before expiry at which a stored token is stale. -/
def tokenExpiryBufferSecs : Nat := 60

inductive TokenSource
  | stored
  | refreshed
  deriving DecidableEq, Repr

inductive UnavailableReason
  | noStoredToken
  | noRefreshToken
  | refreshTokenExpired
  | clientMismatch (storedClientId : String)
  deriving DecidableEq, Repr

inductive RefreshOutcome
  | refreshed (token : String) (source : TokenSource) (expiresInSecs : Nat)
  | unavailable (reason : UnavailableReason)
  | rejected (message : String)
  deriving DecidableEq, Repr

inductive RefreshMode
  | probe
  | force
  deriving DecidableEq, Repr

structure TokenResult where
  accessToken : String
  expiresIn : UInt64
  refreshToken : Option String
  refreshExpiresIn : Option UInt64
  deriving DecidableEq, Repr

/-- The stored client id where it is another than the expected one. -/
def clientMatches (expected : Option String) (token : TokenData) : Except String Unit :=
  match expected, token.clientId with
  | some exp, some stored => if clientIdsMatch exp stored then .ok () else .error stored
  | _, _ => .ok ()

def refreshTokenAvailability (tokenData : TokenData) (now : Nat) :
    Except UnavailableReason String :=
  match tokenData.refreshToken with
  | none => .error .noRefreshToken
  | some token =>
    if tokenData.refreshExpiresAt.all fun exp => now < exp.toNat then .ok token
    else .error .refreshTokenExpired

/-- Comfortably within its expiry window. -/
def isFresh (tokenData : TokenData) (now : Nat) : Bool :=
  now + tokenExpiryBufferSecs < tokenData.expiresAt.toNat

def refreshedFromFreshStored (tokenData : TokenData) (now : Nat) : Option RefreshOutcome :=
  if isFresh tokenData now then
    some (.refreshed tokenData.accessToken .stored (tokenData.expiresAt.toNat - now))
  else none

/-- `saturating_add` of a time and seconds. -/
def saturatingAdd (now : Nat) (secs : UInt64) : UInt64 :=
  UInt64.ofNat (min (now + secs.toNat) (2 ^ 64 - 1))

def tokenResultToTokenData (result : TokenResult) (grantType : GrantType) (now : Nat)
    (clientId : String) : TokenData :=
  { accessToken := result.accessToken
    expiresAt := saturatingAdd now result.expiresIn
    refreshToken := result.refreshToken
    refreshExpiresAt := result.refreshExpiresIn.map (saturatingAdd now)
    grantType := some grantType
    clientId := some clientId }

inductive Decision
  | settle (outcome : RefreshOutcome)
  | refresh (refreshToken : String)
  deriving DecidableEq, Repr

/-- What `try_refresh_stored_session` makes of a read, before and after the locks. -/
def assess (mode : RefreshMode) (expected : Option String) (stored : Option TokenData)
    (now : Nat) : Decision :=
  match stored with
  | none => .settle (.unavailable .noStoredToken)
  | some tokenData =>
    match clientMatches expected tokenData with
    | .error storedClientId => .settle (.unavailable (.clientMismatch storedClientId))
    | .ok () =>
      match (if mode = .probe then refreshedFromFreshStored tokenData now else none) with
      | some outcome => .settle outcome
      | none =>
        match refreshTokenAvailability tokenData now with
        | .ok token => .refresh token
        | .error reason => .settle (.unavailable reason)

def isAuthorizationCode (stored : Option TokenData) : Bool :=
  (stored.bind TokenData.grantType) ≠ some .clientCredentials

def existingAccessTokenStillValid (expectedClientId : String) (stored : Option TokenData)
    (now : Nat) : Bool :=
  stored.any fun tokenData =>
    (clientMatches (some expectedClientId) tokenData).isOk && isFresh tokenData now

/-- Whether `resolve_access_token` goes on to the client-credentials grant. -/
def remints (isAuthorizationCode canRemint : Bool) : RefreshOutcome → Bool
  | .refreshed .. => false
  | .rejected _ => !isAuthorizationCode
  | .unavailable (.clientMismatch _) => canRemint
  | .unavailable .noStoredToken => true
  | .unavailable .noRefreshToken | .unavailable .refreshTokenExpired => !isAuthorizationCode

section Decisions

variable {mode : RefreshMode} {expected : Option String} {stored : Option TokenData} {now : Nat}

/-- A refresh is of a stored token of the client, stale for a probe, with its own refresh token. -/
theorem assess_refresh {token : String} (h : assess mode expected stored now = .refresh token) :
    ∃ d, stored = some d ∧ clientMatches expected d = .ok () ∧ d.refreshToken = some token ∧
      (mode = .probe → isFresh d now = false) := by
  unfold assess at h
  cases stored with
  | none => cases h
  | some d =>
    simp only at h
    cases hclient : clientMatches expected d with
    | error id => simp [hclient] at h
    | ok u =>
      simp only [hclient] at h
      split at h
      · cases h
      · rename_i hstale
        cases havailable : refreshTokenAvailability d now with
        | error reason => simp [havailable] at h
        | ok token' =>
          simp only [havailable, Decision.refresh.injEq] at h
          subst h
          refine ⟨d, rfl, hclient, ?_, fun hmode => ?_⟩
          · unfold refreshTokenAvailability at havailable
            split at havailable
            · cases havailable
            · rename_i token hd
              split_ifs at havailable
              cases havailable
              exact hd
          · rw [if_pos hmode, refreshedFromFreshStored] at hstale
            split_ifs at hstale with hfresh
            exact Bool.not_eq_true _ ▸ hfresh

/-- A token that is reused is the stored one, fresh and of the client. -/
theorem assess_reused {token : String} {source : TokenSource} {secs : Nat}
    (h : assess mode expected stored now = .settle (.refreshed token source secs)) :
    ∃ d, stored = some d ∧ clientMatches expected d = .ok () ∧ token = d.accessToken := by
  unfold assess at h
  cases stored with
  | none => cases h
  | some d =>
    simp only at h
    cases hclient : clientMatches expected d with
    | error id => simp [hclient] at h
    | ok u =>
      simp only [hclient] at h
      split at h
      · rename_i outcome hreused
        cases h
        split_ifs at hreused
        unfold refreshedFromFreshStored at hreused
        split_ifs at hreused
        cases hreused
        exact ⟨d, rfl, hclient, rfl⟩
      · cases havailable : refreshTokenAvailability d now <;> simp [havailable] at h

end Decisions

end AuthSession
