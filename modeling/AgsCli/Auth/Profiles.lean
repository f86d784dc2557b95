import AgsCli.Auth.Store
import AgsCli.Support.Strings

/-! # Profile commands

Creating, renaming and deleting a profile, logging in and out: what each does to the profile
directories, the keychain and the active profile, with each of its steps free to fail. -/
namespace Profiles

open ProtocolError AuthErrors AuthToken AuthStore Json Strings

section Names

/-- Lower case as far as names can hold it: outside ASCII only the Kelvin sign has an ASCII lower
case, and a name with any other such character is refused. -/
def toLowercase (name : String) : String :=
  String.ofList (name.toList.map fun c =>
    if isAsciiUpper c then c.toLower else if c.toNat = 0x212A then 'k' else c)

def refusedName (message hint : String) : RuntimeError :=
  { kind := .validation, message, details := none, hint := some hint }

def validateProfileName (name : String) : Except RuntimeError String :=
  let normalised := toLowercase name
  if normalised.isEmpty then
    .error (refusedName "Profile name cannot be empty"
      "Use a name like 'default', 'staging', or 'prod-us'.")
  else if (normalised.toList.all fun c => isAsciiLower c || isAsciiDigit c || c = '-') &&
      (normalised.toList.head?.any fun c => isAsciiLower c || isAsciiDigit c) then
    .ok normalised
  else
    .error (refusedName s!"Invalid profile name '{name}'."
      ("Profile names must start with a letter or digit and contain only lowercase letters, " ++
        "digits, and hyphens."))

end Names

section Views

structure OperationWarning where
  message : String
  reason : Option String
  fix : String
  deriving DecidableEq, Repr

inductive ProfileView
  | created (name : String)
  | deleted (name : String) (warnings : List OperationWarning) (tips : List String)
  | renamed (old new : String) (warnings : List OperationWarning)
  deriving DecidableEq, Repr

structure Installation where
  home : Home
  active : Option String

def configName : String := "config.json"

def defaultProfile : String := "default"

/-- Result and installation after a command. -/
abbrev Outcome (α : Type) := Except RuntimeError α × Installation

def makeDir (profile : String) (home : Home) : Home :=
  { home with dirs := Function.update home.dirs profile true }

def writeConfig (profile text : String) (home : Home) : Home :=
  { home with files := Function.update home.files (profile, configName) (some text) }

def notFound (name : String) (hint : Option String) : RuntimeError :=
  { kind := .validation, message := s!"Profile '{name}' does not exist.", details := none, hint }

def alreadyExists (name : String) (hint : Option String) : RuntimeError :=
  { kind := .validation, message := s!"Profile '{name}' already exists.", details := none, hint }

end Views

section Create

/-- What stands in the way of finding the config directory, of creating the profile directory and
of saving the default config. -/
structure CreateSteps where
  configDir : Option RuntimeError
  createDir : Option RuntimeError
  save : Option RuntimeError

def ensureProfileExists (steps : CreateSteps) (name : String) (i : Installation) : Outcome Unit :=
  if i.home.dirs name then (.ok (), i)
  else
    match steps.createDir with
    | some e => (.error e, i)
    | none =>
      match steps.save with
      | some e => (.error e, { i with home := makeDir name i.home })
      | none => (.ok (), { i with home := writeConfig name "\x7b\x7d" (makeDir name i.home) })

def profileCreate (steps : CreateSteps) (name : String) (i : Installation) :
    Outcome ProfileView :=
  match validateProfileName name, steps.configDir with
  | .error e, _ => (.error e, i)
  | .ok _, some e => (.error e, i)
  | .ok name, none =>
    if i.home.dirs name then
      (.error (alreadyExists name (some (s!"Use 'ags profile show {name}' to inspect it or " ++
        "choose a different name."))), i)
    else
      match ensureProfileExists steps name i with
      | (.ok (), i') => (.ok (.created name), i')
      | (.error e, i') => (.error e, i')

end Create

section Delete

/-- The surroundings of the two removals, the removal of the directory, which may stop after
some files, and the update of the global config. -/
structure DeleteSteps where
  configDir : Option RuntimeError
  secret : Surroundings
  token : Surroundings
  removeDir : Option (String × (String → Bool))
  updateGlobal : Option RuntimeError

def warnOf (result : Except RuntimeError Unit) (message fix : String) : List OperationWarning :=
  match result with
  | .ok () => []
  | .error e => [⟨message, some e.message, fix⟩]

def harmless : String := "The orphaned keychain entry is harmless and can be ignored."

def dropFiles (name : String) (kept : String → Bool) (home : Home) : Home :=
  { home with files := fun key =>
      if key.1 = name ∧ kept key.2 = false then none else home.files key }

def removeDirAll (name : String) (home : Home) : Home :=
  { dropFiles name (fun _ => false) home with dirs := Function.update home.dirs name false }

def profileDelete (steps : DeleteSteps) (name : String) (i : Installation) :
    Outcome ProfileView :=
  match validateProfileName name, steps.configDir with
  | .error e, _ => (.error e, i)
  | .ok _, some e => (.error e, i)
  | .ok name, none =>
    if i.home.dirs name then
      let secret := deleteSecret steps.secret name i.home
      let token := deleteTokenData steps.token name secret.2
      match steps.removeDir with
      | some (error, kept) =>
        (.error (.internal s!"Failed to delete profile directory: {error}"),
          { i with home := dropFiles name kept token.2 })
      | none =>
        let home := removeDirAll name token.2
        let wasActive : Bool := i.active = some name
        let active := if steps.updateGlobal.isNone && wasActive then none else i.active
        let warnings :=
          warnOf secret.1 "Could not remove stored secret from keychain" harmless ++
            warnOf token.1 "Could not remove stored tokens from keychain" harmless ++
            (match steps.updateGlobal with
            | some e => [⟨"Could not clear active profile reference", some e.message,
                "Run 'ags profile use <name>' to set a new active profile."⟩]
            | none => if wasActive then [⟨s!"'{name}' was the active profile", none,
                "Run 'ags profile use <name>' to set a new active profile."⟩] else [])
        let tips := if name = defaultProfile then
            ["The default profile will not be recreated automatically. " ++
              "Run 'ags profile create default' if needed."] else []
        (.ok (.deleted name warnings tips), ⟨home, active⟩)
    else (.error (notFound name none), i)

end Delete

section Rename

structure RenameSteps where
  configDir : Option RuntimeError
  renameDir : Option String
  getSecret : Surroundings
  storeSecret : Surroundings
  deleteSecret : Surroundings
  getToken : Surroundings
  locks : Option RuntimeError
  storeToken : Surroundings
  deleteToken : Surroundings
  updateGlobal : Option RuntimeError

def moveDir (old new : String) (home : Home) : Home :=
  { home with
    dirs := Function.update (Function.update home.dirs old false) new true
    files := fun key =>
      if key.1 = new then home.files (old, key.2)
      else if key.1 = old then none else home.files key }

def loginAgain (new : String) : String :=
  s!"Run 'ags auth login --profile {new}' to re-authenticate."

/-- The secret that is read under the old name is stored under the new one and removed. -/
def migrateSecret (steps : RenameSteps) (old new : String) (home : Home) :
    List OperationWarning × Home :=
  match getSecret steps.getSecret old home with
  | .ok (some secret) =>
    match storeSecret steps.storeSecret new secret home with
    | (.error e, home') =>
      ([⟨"Could not migrate stored secret to new profile", some e.message, loginAgain new⟩], home')
    | (.ok (), home') =>
      match deleteSecret steps.deleteSecret old home' with
      | (.error e, home'') =>
        ([⟨"Could not remove old keychain entry for secret", some e.message,
          "The orphaned entry is harmless and can be ignored."⟩], home'')
      | (.ok (), home'') => ([], home'')
  | _ => ([], home)

def moveToken (steps : RenameSteps) (old new : String) (tokenData : TokenData) (home : Home) :
    Except RuntimeError Unit × Home :=
  match steps.locks with
  | some e => (.error e, home)
  | none =>
    match storeTokenDataUnlocked steps.storeToken new tokenData home with
    | (.error e, home') => (.error e, home')
    | (.ok _, home') => deleteTokenDataUnlocked steps.deleteToken old home'

def migrateToken (r : Reader) (steps : RenameSteps) (old new : String) (home : Home) :
    List OperationWarning × Home :=
  match getTokenData r steps.getToken old home with
  | .ok (some tokenData) =>
    match moveToken steps old new tokenData home with
    | (.error e, home') =>
      ([⟨"Could not migrate stored tokens to new profile", some e.message, loginAgain new⟩], home')
    | (.ok (), home') => ([], home')
  | _ => ([], home)

def afterMove (r : Reader) (steps : RenameSteps) (old new : String) (i : Installation) :
    List OperationWarning × Installation :=
  let secret := migrateSecret steps old new i.home
  let token := migrateToken r steps old new secret.2
  match steps.updateGlobal with
  | some e =>
    (secret.1 ++ token.1 ++ [⟨"Could not update active profile reference", some e.message,
      s!"Run 'ags profile use {new}'."⟩], { i with home := token.2 })
  | none =>
    (secret.1 ++ token.1, ⟨token.2, if i.active = some old then some new else i.active⟩)

def profileRename (r : Reader) (steps : RenameSteps) (old new : String) (i : Installation) :
    Outcome ProfileView :=
  match validateProfileName old, validateProfileName new, steps.configDir with
  | .error e, _, _ => (.error e, i)
  | .ok _, .error e, _ => (.error e, i)
  | .ok _, .ok _, some e => (.error e, i)
  | .ok old, .ok new, none =>
    if i.home.dirs old = false then (.error (notFound old none), i)
    else if i.home.dirs new then (.error (alreadyExists new none), i)
    else
      match steps.renameDir with
      | some error => (.error (.internal s!"Failed to rename profile directory: {error}"), i)
      | none =>
        let moved := afterMove r steps old new { i with home := moveDir old new i.home }
        (.ok (.renamed old new moved.1), moved.2)

end Rename

section Sessions

/-- An update of the profile config: the creation of its directory, and the new text of the file
from the old one. -/
structure ConfigUpdate where
  createDir : Option RuntimeError
  update : Option String → Except RuntimeError String

def updateConfig (config : ConfigUpdate) (profile : String) (home : Home) :
    Except RuntimeError Unit × Home :=
  match config.createDir with
  | some e => (.error e, home)
  | none =>
    let home := makeDir profile home
    match config.update (home.files (profile, configName)) with
    | .error e => (.error e, home)
    | .ok text => (.ok (), writeConfig profile text home)

structure LoginSteps where
  storeToken : Surroundings
  config : ConfigUpdate
  storeSecret : Surroundings

def persistLogin (steps : LoginSteps) (profile : String) (tokenData : TokenData)
    (clientSecret : Option String) (home : Home) : Except RuntimeError Unit × Home :=
  match storeTokenData steps.storeToken profile tokenData home with
  | (.error e, home') => (.error e, home')
  | (.ok _, home') =>
    match updateConfig steps.config profile home' with
    | (.error e, home'') => (.error e, home'')
    | (.ok (), home'') =>
      match clientSecret with
      | none => (.ok (), home'')
      | some secret => storeSecret steps.storeSecret profile secret home''

structure LogoutSteps where
  deleteSecret : Surroundings
  deleteToken : Surroundings
  config : ConfigUpdate

def logoutProfile (steps : LogoutSteps) (profile : String) (home : Home) :
    Except RuntimeError Unit × Home :=
  let secret := deleteSecret steps.deleteSecret profile home
  let token := deleteTokenData steps.deleteToken profile secret.2
  updateConfig steps.config profile token.2

end Sessions

end Profiles
