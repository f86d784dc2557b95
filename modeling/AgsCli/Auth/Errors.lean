import AgsCli.Protocol.Error

/-! # Auth errors

The errors of the credential store and of the session, with their texts. -/
namespace AuthErrors

open ProtocolError

inductive AuthResource
  | clientSecret
  | token
  deriving DecidableEq, Repr

inductive StorageOperation
  | read
  | write
  | delete
  deriving DecidableEq, Repr

def keychainOperationMessage : AuthResource → StorageOperation → String
  | .clientSecret, .write => "Failed to store client secret in OS keychain"
  | .clientSecret, .read => "Failed to read client secret from OS keychain"
  | .clientSecret, .delete => "Failed to delete client secret from OS keychain"
  | .token, .write => "Failed to store tokens in OS keychain"
  | .token, .read => "Failed to read tokens from OS keychain"
  | .token, .delete => "Failed to delete tokens from OS keychain"

def fileOperationMessage : AuthResource → StorageOperation → String
  | .clientSecret, .write => "Failed to write secret file"
  | .clientSecret, .read => "Failed to read secret file"
  | .clientSecret, .delete => "Failed to delete secret file"
  | .token, .write => "Failed to write token file"
  | .token, .read => "Failed to read token file"
  | .token, .delete => "Failed to delete token file"

def keychainRuntimeSuggestion : StorageOperation → String
  | .read | .write => "Check OS keychain access or set AGS_NO_KEYCHAIN=1 to use file storage."
  | .delete => "Check OS keychain access and retry 'ags auth logout'."

inductive AuthError
  | baseUrlMissing
  | clientIdMissing
  | clientSecretMissing
  | sessionExpiredRefreshFailed (reason : String)
  | sessionExpiredRefreshTokenExpired
  | sessionExpiredNoRefreshToken
  | storedSessionClientMismatch (profile storedClientId currentClientId : String)
  | keychainOperationFailed (resource : AuthResource) (operation : StorageOperation)
      (source : String)
  | keychainTokenParseFailed (source : String)
  | fileOperationFailed (resource : AuthResource) (operation : StorageOperation)
      (source : String)
  | tokenFileParseFailed (source : String)
  deriving DecidableEq, Repr

namespace AuthError

def message : AuthError → String
  | .baseUrlMissing | .clientIdMissing | .clientSecretMissing => "Not authenticated"
  | .sessionExpiredRefreshFailed _ => "Session expired and token refresh failed"
  | .sessionExpiredRefreshTokenExpired => "Session expired — refresh token expired"
  | .sessionExpiredNoRefreshToken => "Session expired — no refresh token"
  | .storedSessionClientMismatch profile _ _ =>
    s!"Stored session for profile '{profile}' was created with a different client"
  | .keychainOperationFailed resource operation source =>
    s!"{keychainOperationMessage resource operation}: {source}"
  | .keychainTokenParseFailed _ => "Stored credentials in the OS keychain are corrupted"
  | .fileOperationFailed resource operation source =>
    s!"{fileOperationMessage resource operation}: {source}"
  | .tokenFileParseFailed source => s!"Failed to parse token file: {source}"

def reason : AuthError → Option String
  | .baseUrlMissing => some "No base_url configured."
  | .clientIdMissing => some "No client_id configured."
  | .clientSecretMissing => some "No client_secret configured."
  | .sessionExpiredRefreshFailed reason => some reason
  | .storedSessionClientMismatch _ storedClientId currentClientId =>
    some (s!"The cached token belongs to client '{storedClientId}', but " ++
      s!"'{currentClientId}' is configured now.")
  | .keychainTokenParseFailed source => some s!"Token data could not be parsed: {source}"
  | _ => none

def suggestion : AuthError → Option String
  | .baseUrlMissing => some "Run 'ags auth login' or set AGS_BASE_URL."
  | .clientIdMissing => some "Run 'ags auth login' or set AGS_CLIENT_ID."
  | .clientSecretMissing => some "Run 'ags auth login' or set AGS_CLIENT_SECRET."
  | .sessionExpiredRefreshFailed _ | .sessionExpiredRefreshTokenExpired
  | .sessionExpiredNoRefreshToken => some "Run 'ags auth login' to re-authenticate."
  | .storedSessionClientMismatch _ _ _ =>
    some ("Run 'ags auth login' for this client, or select the matching profile with " ++
      "--profile/AGS_PROFILE.")
  | .keychainOperationFailed _ operation _ => some (keychainRuntimeSuggestion operation)
  | .keychainTokenParseFailed _ =>
    some "Run 'ags auth logout' and 'ags auth login' to restore valid credentials."
  | .fileOperationFailed _ _ _ | .tokenFileParseFailed _ => none

/-- `build_auth_runtime_error`. -/
def toRuntime (e : AuthError) : RuntimeError :=
  { kind := .notAuthenticated
    message := e.message
    details := e.reason.map fun reason => { code := none, reason := some reason, detail := none }
    hint := e.suggestion }

end AuthError

end AuthErrors
