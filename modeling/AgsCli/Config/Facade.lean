import AgsCli.Config.Store

/-! # Config facade

`config_get`, `config_set` and `config_unset` over the files of a home directory. -/
namespace ConfigFacade

open Json ProtocolError Strings ConfigKeys ConfigStore

inductive ConfigSource
  | global
  | profile (name : String)
  | keychain
  | environment
  | notSet
  deriving DecidableEq, Repr

inductive ConfigView
  | getOne (key : String) (value : Option String) (source : ConfigSource) (readOnly : Bool)
  | set (key value : String)
  | unset (key : String)
  deriving DecidableEq, Repr

structure Home where
  global : Option (FileText globalFields)
  profiles : String → Option (Option (FileText profileFields))

namespace Home

def profileFile (home : Home) (profile : String) : Option (FileText profileFields) :=
  (home.profiles profile).join

def setGlobal (home : Home) (file : FileText globalFields) : Home := { home with global := some file }

def setProfile (home : Home) (profile : String) (file : FileText profileFields) : Home :=
  { home with profiles := Function.update home.profiles profile (some (some file)) }

end Home

def globalLabel : String := "global config"

def profileLabel (profile : String) : String := s!"profile config for '{profile}'"

def loadGlobal (home : Home) : Except RuntimeError Typed := loadStruct home.global globalLabel

def loadProfile (home : Home) (profile : String) : Except RuntimeError Typed :=
  loadStruct (home.profileFile profile) (profileLabel profile)

def ensureProfileExists (home : Home) (profile : String) : Home :=
  match home.profiles profile with
  | some _ => home
  | none => home.setProfile profile (written profileFields (.object []))

section Validation

def timeoutMinSecs : Nat := 1
def timeoutMaxSecs : Nat := 3600
def pageLimitMax : Nat := 100

def validationError (message : String) (hint : Option String) : RuntimeError :=
  { kind := .validation, message, details := none, hint }

def validateBaseUrl (url : UrlParser) (value : String) : Except RuntimeError (Option String) :=
  if isValidBaseUrl url value then
    let normalised := trimEndMatches '/' value
    .ok (if normalised ≠ value then some normalised else none)
  else .error (validationError s!"Invalid URL: {value}"
    (some "base-url must be a valid URL (e.g. https://demo.accelbyte.io)"))

def validateClientId (value : String) : Except RuntimeError (Option String) :=
  if isValidClientId value then
    let normalised := normaliseClientId value
    .ok (if normalised ≠ value then some normalised else none)
  else .error (validationError s!"Invalid client-id: {value}"
    (some "client-id must be a 32-character hex string (e.g. d39a8bb104e545a7a4b1ef6ec3d55a3c)"))

def validateNamespace (value : String) : Except RuntimeError (Option String) :=
  if isValidNamespace value then .ok none
  else .error (validationError s!"Invalid namespace: {value}"
    (some ("namespace must be lowercase alphanumeric or hyphens, max 48 chars " ++
      "(e.g. my-game-name)")))

def validateFormat (value : String) : Except RuntimeError (Option String) :=
  if value = "json" then .ok none
  else .error (validationError s!"Invalid format '{value}'" (some "Valid formats: json"))

def validateBoolean (value key : String) : Except RuntimeError (Option String) :=
  if value = "true" ∨ value = "false" then .ok none
  else .error (validationError s!"Invalid value '{value}' for {key}" (some "Use 'true' or 'false'"))

def validateFirstRunHintSeen (value : String) : Except RuntimeError (Option String) :=
  validateBoolean value "first-run-hint-seen"

def validateTimeout (value : String) : Except RuntimeError (Option String) :=
  match parseUsize value.toList with
  | some n =>
    if n < timeoutMinSecs then
      .error (validationError s!"Timeout must be at least {timeoutMinSecs} second (minimum)" none)
    else if timeoutMaxSecs < n then
      .error (validationError s!"Timeout must not exceed {timeoutMaxSecs} seconds (maximum)" none)
    else .ok none
  | none => .error (validationError s!"Invalid timeout '{value}'"
      (some s!"Provide a number of seconds ({timeoutMinSecs}-{timeoutMaxSecs})"))

def validatePageLimit (value : String) : Except RuntimeError (Option String) :=
  let refused := validationError s!"Invalid page limit '{value}'"
    (some s!"Use a value between 1 and {pageLimitMax}")
  match parseUsize value.toList with
  | some n => if 1 ≤ n ∧ n ≤ pageLimitMax then .ok none else .error refused
  | none => .error refused

def validateGrantType (value : String) : Except RuntimeError (Option String) :=
  if value = "authorization-code" ∨ value = "client-credentials" then .ok none
  else .error (validationError s!"Invalid grant type '{value}'"
    (some "Valid grant types: authorization-code, client-credentials"))

def validateActiveProfile (home : Home) (value : String) : Except RuntimeError (Option String) :=
  if (home.profiles value).isSome then .ok none
  else .error (validationError s!"Profile '{value}' does not exist"
    (some ("Run 'ags profile list' to see available profiles, or 'ags profile create' to " ++
      "create one")))

/-- The replacement to save, if the value is accepted but not in normal form. -/
def validateConfigValue (url : UrlParser) (home : Home) (keyDef : ConfigKeyDef) (value : String) :
    Except RuntimeError (Option String) :=
  match keyDef.cliName with
  | "base-url" => validateBaseUrl url value
  | "client-id" => validateClientId value
  | "namespace" => validateNamespace value
  | "format" => validateFormat value
  | "no-color" => validateBoolean value "no-color"
  | "first-run-hint-seen" => validateFirstRunHintSeen value
  | "timeout" => validateTimeout value
  | "page-limit" => validatePageLimit value
  | "grant-type" => validateGrantType value
  | "active-profile" => validateActiveProfile home value
  | "update-check" => validateBoolean value "update-check"
  | _ => .ok none

end Validation

section Commands

def unknownKeyError (cliName : String) : RuntimeError :=
  validationError s!"Unknown config key '{cliName}'."
    (some ("Valid keys: " ++ join ", " (knownKeys.map (·.cliName)) ++ "."))

def secretManagedError : RuntimeError :=
  validationError ("client-secret is stored in your OS keychain, not the config file, so it " ++
      "cannot be managed with 'ags config'")
    (some ("Set it with 'ags auth login --client-secret <value>' or the AGS_CLIENT_SECRET " ++
      "environment variable; 'ags config get' shows whether it is set"))

def getValue (home : Home) (profile : String) (keyDef : ConfigKeyDef) :
    Except RuntimeError (Option String) :=
  match keyDef.scope with
  | .global => loadJsonValue home.global globalLabel keyDef.jsonName
  | .profile => loadJsonValue (home.profileFile profile) (profileLabel profile) keyDef.jsonName

def sourceOf (profile : String) (scope : ConfigScope) (value : Option String) : ConfigSource :=
  match value, scope with
  | none, _ => .notSet
  | some _, .global => .global
  | some _, .profile => .profile profile

/-- `config_get` of one key, given where the client secret comes from. -/
def configGet (secretSource : ConfigSource) (home : Home) (profile key : String) :
    Except RuntimeError ConfigView :=
  if isClientSecretKey key then .ok (.getOne "client-secret" none secretSource true)
  else match findKey key with
    | none => .error (unknownKeyError key)
    | some keyDef => (getValue home profile keyDef).map fun value =>
        .getOne key value (sourceOf profile keyDef.scope value) false

/-- The home with one field of a known key's file updated; `none` when the update panics. -/
def updateValue (home : Home) (profile : String) (keyDef : ConfigKeyDef) (value : Option String) :
    Option Home :=
  match keyDef.scope with
  | .global => (updateJsonFileField home.global keyDef.jsonName value).map home.setGlobal
  | .profile => (updateJsonFileField (home.profileFile profile) keyDef.jsonName value).map
      (home.setProfile profile)

/-- A profile's key needs its directory. -/
def ensureScope (home : Home) (profile : String) : ConfigScope → Home
  | .global => home
  | .profile => ensureProfileExists home profile

def configSet (url : UrlParser) (home : Home) (profile key value : String) :
    Option (Except RuntimeError (ConfigView × Home)) :=
  if isClientSecretKey key then some (.error secretManagedError)
  else match findKey key with
    | none => some (.error (unknownKeyError key))
    | some keyDef =>
      match validateConfigValue url home keyDef value with
      | .error e => some (.error e)
      | .ok normalised =>
        let saveValue := normalised.getD value
        let home := ensureScope home profile keyDef.scope
        (updateValue home profile keyDef (some saveValue)).map fun home =>
          .ok (.set key saveValue, home)

end Commands

end ConfigFacade
