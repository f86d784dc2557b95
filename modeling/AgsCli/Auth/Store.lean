import AgsCli.Auth.Errors
import AgsCli.Auth.TokenData

/-! # Credential storage

Client secrets and tokens in the OS keychain, with a file of the profile directory to fall back
on. What the keychain and the file system do is given by the surroundings of each operation. -/
namespace AuthStore

open ProtocolError AuthErrors AuthToken Json

section Keychain

def keyringUser : String := "client-secret"
def keyringTokenUser : String := "token-data"

def keyringService (profile : String) : String := "ags:accelbyte.io:" ++ profile

inductive Fault
  | noStorageAccess (text : String)
  | platformFailure (text : String)
  | other (text : String)
  deriving DecidableEq, Repr

inductive KeyringError
  | noEntry
  | fault (f : Fault)
  deriving DecidableEq, Repr

def KeyringError.text : KeyringError → String
  | .noEntry => "No matching entry found in secure storage"
  | .fault (.noStorageAccess text) | .fault (.platformFailure text) | .fault (.other text) => text

def isKeychainUnavailable : KeyringError → Bool
  | .fault (.noStorageAccess _) => true
  | _ => false

def isKeychainInitUnavailable : KeyringError → Bool
  | .fault (.noStorageAccess _) | .fault (.platformFailure _) => true
  | _ => false

abbrev KeychainEntry := String × String

/-- What stands in the way of creating an entry, and of the call on it. -/
structure KeychainUse where
  init : Option Fault
  call : Option Fault
  deriving DecidableEq, Repr

def KeychainUse.fine : KeychainUse := ⟨none, none⟩

/-- What stands in the way of finding, creating, writing, reading and removing a file; a `hidden`
one is there while `Path::exists` says no. -/
structure Disk where
  path : Option RuntimeError
  hidden : Bool
  createDir : Option String
  write : Option String
  read : Option String
  remove : Option String
  deriving DecidableEq, Repr

def Disk.fine : Disk := ⟨none, false, none, none, none, none⟩

/-- What a check for existence sees of a file. -/
def Disk.seen (disk : Disk) (file : Option String) : Option String :=
  if disk.hidden then none else file

/-- The surroundings of one operation: `AGS_NO_KEYCHAIN`, the platform, the token lock, the entry
it creates, the one it clears, and the disk. -/
structure Surroundings where
  keychainDisabled : Bool
  windows : Bool
  lock : Option RuntimeError
  entry : KeychainUse
  clearing : KeychainUse
  disk : Disk
  deriving DecidableEq, Repr

structure Home where
  keychain : KeychainEntry → Option String
  dirs : String → Bool
  files : String × String → Option String

def keychainEntryOpt (profile user : String) (init : Option Fault) :
    Except RuntimeError (Option KeychainEntry) :=
  match init with
  | none => .ok (some (keyringService profile, user))
  | some f =>
    if isKeychainInitUnavailable (.fault f) then .ok none
    else .error (.internal (s!"Failed to initialize OS keychain entry for '{user}' " ++
      s!"(profile '{profile}'): {(KeyringError.fault f).text}"))

def setPassword (call : Option Fault) (entry : KeychainEntry) (text : String) (home : Home) :
    Except KeyringError Home :=
  match call with
  | some f => .error (.fault f)
  | none => .ok { home with keychain := Function.update home.keychain entry (some text) }

def getPassword (call : Option Fault) (entry : KeychainEntry) (home : Home) :
    Except KeyringError String :=
  match call with
  | some f => .error (.fault f)
  | none =>
    match home.keychain entry with
    | some text => .ok text
    | none => .error .noEntry

def deleteCredential (call : Option Fault) (entry : KeychainEntry) (home : Home) :
    Except KeyringError Home :=
  match call with
  | some f => .error (.fault f)
  | none =>
    match home.keychain entry with
    | some _ => .ok { home with keychain := Function.update home.keychain entry none }
    | none => .error .noEntry

end Keychain

section Credentials

def user : AuthResource → String
  | .clientSecret => keyringUser
  | .token => keyringTokenUser

def fileName : AuthResource → String
  | .clientSecret => "credentials.json"
  | .token => "token.json"

def writeFile (resource : AuthResource) (disk : Disk) (profile text : String) (home : Home) :
    Except RuntimeError Unit × Home :=
  match disk.path, disk.createDir with
  | some e, _ => (.error e, home)
  | none, some source =>
    (.error (AuthError.fileOperationFailed resource .write source).toRuntime, home)
  | none, none =>
    let home := { home with dirs := Function.update home.dirs profile true }
    match disk.write with
    | some source =>
      (.error (AuthError.fileOperationFailed resource .write source).toRuntime, home)
    | none =>
      (.ok (), { home with
        files := Function.update home.files (profile, fileName resource) (some text) })

inductive Attempt
  | stored (home : Home)
  | failed (e : RuntimeError)
  | fallBack (warning : Option String)

def secretAttempt (env : Surroundings) (profile secret : String) (home : Home) : Attempt :=
  if env.keychainDisabled then .fallBack none
  else
    match keychainEntryOpt profile keyringUser env.entry.init with
    | .error e => .failed e
    | .ok none => .fallBack none
    | .ok (some entry) =>
      match setPassword env.entry.call entry secret home with
      | .ok home' => .stored home'
      | .error error =>
        if isKeychainUnavailable error then .fallBack none
        else .failed
          (AuthError.keychainOperationFailed .clientSecret .write error.text).toRuntime

def storeSecret (env : Surroundings) (profile secret : String) (home : Home) :
    Except RuntimeError Unit × Home :=
  match secretAttempt env profile secret home with
  | .stored home' => (.ok (), home')
  | .failed e => (.error e, home)
  | .fallBack _ => writeFile .clientSecret env.disk profile secret home

def windowsCredmanPasswordLimitBytes : Nat := 2560

/-- `encode_utf16().count() * 2`. -/
def credmanBlobBytes (s : String) : Nat :=
  ((s.toList.map fun c => if c.toNat < 0x10000 then 1 else 2).sum) * 2

def exceedsWindowsCredmanLimit (windows : Bool) (json : String) : Bool :=
  windows && credmanBlobBytes json > windowsCredmanPasswordLimitBytes

def clearKeychainTokenEntry (env : Surroundings) (profile : String) (home : Home) : Home :=
  if env.keychainDisabled then home
  else
    match keychainEntryOpt profile keyringTokenUser env.clearing.init with
    | .ok (some entry) =>
      match deleteCredential env.clearing.call entry home with
      | .ok home' => home'
      | .error _ => home
    | _ => home

def suppressHint : String := "\nSet AGS_NO_KEYCHAIN=1 to skip keychain and suppress this warning."

def tokenAttempt (env : Surroundings) (profile json : String) (home : Home) : Attempt :=
  if exceedsWindowsCredmanLimit env.windows json then
    .fallBack (some (s!"Token exceeds the Windows Credential Manager limit " ++
      s!"({windowsCredmanPasswordLimitBytes} bytes); storing in file fallback." ++ suppressHint))
  else if env.keychainDisabled then .fallBack none
  else
    match keychainEntryOpt profile keyringTokenUser env.entry.init with
    | .error e => .failed e
    | .ok none => .fallBack
        (some ("OS keychain unavailable, storing token in file fallback." ++ suppressHint))
    | .ok (some entry) =>
      match setPassword env.entry.call entry json home with
      | .ok home' => .stored home'
      | .error error =>
        if isKeychainUnavailable error then .fallBack none
        else .fallBack (some (s!"OS keychain write failed, falling back to file storage: " ++
          s!"{error.text}" ++ suppressHint))

abbrev StoreOutcome := Option String

def storeTokenDataUnlocked (env : Surroundings) (profile : String) (tokenData : TokenData)
    (home : Home) : Except RuntimeError StoreOutcome × Home :=
  match tokenAttempt env profile tokenData.json home with
  | .stored home' => (.ok none, home')
  | .failed e => (.error e, home)
  | .fallBack warning =>
    match writeFile .token env.disk profile tokenData.json
      (clearKeychainTokenEntry env profile home) with
    | (.ok (), home') => (.ok warning, home')
    | (.error e, home') => (.error e, home')

/-- `with_token_lock`, for an operation that may change the home. -/
def withTokenLock {α : Type} (env : Surroundings) (home : Home)
    (f : Except RuntimeError α × Home) : Except RuntimeError α × Home :=
  match env.lock with
  | some e => (.error e, home)
  | none => f

def storeTokenData (env : Surroundings) (profile : String) (tokenData : TokenData) (home : Home) :
    Except RuntimeError StoreOutcome × Home :=
  withTokenLock env home (storeTokenDataUnlocked env profile tokenData home)

def readFile {α : Type} (resource : AuthResource) (parse : String → Except RuntimeError α)
    (disk : Disk) (profile : String) (home : Home) : Except RuntimeError (Option α) :=
  match disk.path with
  | some e => .error e
  | none =>
    match disk.seen (home.files (profile, fileName resource)) with
    | none => .ok none
    | some text =>
      match disk.read with
      | some source => .error (AuthError.fileOperationFailed resource .read source).toRuntime
      | none => (parse text).map some

/-- A read of the keychain, then of the file, each with its own parser. -/
def getData {α : Type} (resource : AuthResource)
    (parseKeychain parseFile : String → Except RuntimeError α) (env : Surroundings)
    (profile : String) (home : Home) : Except RuntimeError (Option α) :=
  if env.keychainDisabled then readFile resource parseFile env.disk profile home
  else
    match keychainEntryOpt profile (user resource) env.entry.init with
    | .error e => .error e
    | .ok none => readFile resource parseFile env.disk profile home
    | .ok (some entry) =>
      match getPassword env.entry.call entry home with
      | .ok text => (parseKeychain text).map some
      | .error .noEntry => readFile resource parseFile env.disk profile home
      | .error error =>
        if isKeychainUnavailable error then readFile resource parseFile env.disk profile home
        else .error (AuthError.keychainOperationFailed resource .read error.text).toRuntime

def getSecret (env : Surroundings) (profile : String) (home : Home) :
    Except RuntimeError (Option String) :=
  getData .clientSecret .ok .ok env profile home

def parseToken (r : Reader) (failed : String → AuthError) (json : String) :
    Except RuntimeError TokenData :=
  match TokenData.parse r json with
  | some tokenData => .ok tokenData
  | none => .error (failed "invalid token data").toRuntime

def getTokenData (r : Reader) (env : Surroundings) (profile : String) (home : Home) :
    Except RuntimeError (Option TokenData) :=
  getData .token (parseToken r .keychainTokenParseFailed) (parseToken r .tokenFileParseFailed) env
    profile home

def removeFile (resource : AuthResource) (disk : Disk) (profile : String) (home : Home) :
    Except RuntimeError Unit × Home :=
  match disk.path with
  | some e => (.error e, home)
  | none =>
    match disk.seen (home.files (profile, fileName resource)), disk.remove with
    | none, _ => (.ok (), home)
    | some _, some source =>
      (.error (AuthError.fileOperationFailed resource .delete source).toRuntime, home)
    | some _, none =>
      (.ok (), { home with
        files := Function.update home.files (profile, fileName resource) none })

/-- A removal from the keychain, then of the file. -/
def deleteData (resource : AuthResource) (env : Surroundings) (profile : String) (home : Home) :
    Except RuntimeError Unit × Home :=
  if env.keychainDisabled then removeFile resource env.disk profile home
  else
    match keychainEntryOpt profile (user resource) env.entry.init with
    | .error e => (.error e, home)
    | .ok none => removeFile resource env.disk profile home
    | .ok (some entry) =>
      match deleteCredential env.entry.call entry home with
      | .ok home' => removeFile resource env.disk profile home'
      | .error .noEntry => removeFile resource env.disk profile home
      | .error error =>
        if isKeychainUnavailable error then removeFile resource env.disk profile home
        else (.error (AuthError.keychainOperationFailed resource .delete error.text).toRuntime, home)

def deleteSecret (env : Surroundings) (profile : String) (home : Home) :
    Except RuntimeError Unit × Home := deleteData .clientSecret env profile home

def deleteTokenDataUnlocked (env : Surroundings) (profile : String) (home : Home) :
    Except RuntimeError Unit × Home := deleteData .token env profile home

def deleteTokenData (env : Surroundings) (profile : String) (home : Home) :
    Except RuntimeError Unit × Home :=
  withTokenLock env home (deleteTokenDataUnlocked env profile home)

end Credentials

end AuthStore
