import AgsCli.Auth.Store
import AgsCli.Library.Events
import AgsCli.Library.Tiers

/-! # Coherence of the two credential tiers

Runs of stores, reads and removals, each in its own surroundings. What an operation does to the two
places of its credential is a change of a two-tier store; reads return the latest value exactly as
long as every change leaves nothing else behind. -/
namespace CredentialCoherence

open ProtocolError AuthErrors AuthToken AuthStore Json TwoTiers

section Operations

inductive Operation
  | storeToken (profile : String) (tokenData : TokenData)
  | getToken (profile : String)
  | deleteToken (profile : String)
  | storeSecret (profile secret : String)
  | getSecret (profile : String)
  | deleteSecret (profile : String)

/-- The home, and for each profile the token and secret last stored and not removed since. -/
structure World where
  home : Home
  tokens : String → Option TokenData
  secrets : String → Option String

def start : World :=
  ⟨⟨fun _ => none, fun _ => false, fun _ => none⟩, fun _ => none, fun _ => none⟩

/-- A successful result updates what is held. -/
def settle {α β : Type} (result : Except RuntimeError α) (held : String → Option β)
    (profile : String) (value : Option β) : String → Option β :=
  match result with
  | .ok _ => Function.update held profile value
  | .error _ => held

abbrev Event := Surroundings × Operation

def next (w : World) : Event → World
  | (env, .storeToken profile tokenData) =>
    let r := storeTokenData env profile tokenData w.home
    { w with home := r.2, tokens := settle r.1 w.tokens profile (some tokenData) }
  | (env, .deleteToken profile) =>
    let r := deleteTokenData env profile w.home
    { w with home := r.2, tokens := settle r.1 w.tokens profile none }
  | (env, .storeSecret profile secret) =>
    let r := storeSecret env profile secret w.home
    { w with home := r.2, secrets := settle r.1 w.secrets profile (some secret) }
  | (env, .deleteSecret profile) =>
    let r := deleteSecret env profile w.home
    { w with home := r.2, secrets := settle r.1 w.secrets profile none }
  | (_, .getToken _) | (_, .getSecret _) => w

def system : Events.System World Event := ⟨fun _ _ => True, next⟩

def GetsLatest (r : Reader) (w : World) : Prop :=
  (∀ env profile tokenData, getTokenData r env profile w.home = .ok (some tokenData) →
    w.tokens profile = some tokenData) ∧
  ∀ env profile secret, getSecret env profile w.home = .ok (some secret) →
    w.secrets profile = some secret

end Operations

section Changes

/-- An entry can be made and the call on it goes through. -/
def KeychainUse.works (use : KeychainUse) : Bool := use.init.isNone && use.call.isNone

/-- The keychain is skipped, or missing from the start. -/
def noKeychain (env : Surroundings) : Bool :=
  env.keychainDisabled || env.entry.init.any fun f => isKeychainInitUnavailable (.fault f)

def becameUnavailable (env : Surroundings) : Bool :=
  env.entry.call.any fun f => isKeychainUnavailable (.fault f)

def Disk.writes (disk : Disk) : Bool :=
  disk.path.isNone && disk.createDir.isNone && disk.write.isNone

def clears (env : Surroundings) : Bool :=
  !env.keychainDisabled && KeychainUse.works env.clearing

def fallBackChange (env : Surroundings) (text : String) (cleared : Bool) : Change String :=
  if Disk.writes env.disk then .fallBack text cleared else .fail cleared

/-- `storeSecret` leaves the keychain entry when it falls back. -/
def secretChange (env : Surroundings) (secret : String) : Change String :=
  if noKeychain env then fallBackChange env secret false
  else if KeychainUse.works env.entry then .put secret
  else if env.entry.init.isNone && becameUnavailable env then fallBackChange env secret false
  else .fail false

def tokenChangeUnlocked (env : Surroundings) (json : String) : Change String :=
  if exceedsWindowsCredmanLimit env.windows json || noKeychain env then
    fallBackChange env json (clears env)
  else if KeychainUse.works env.entry then .put json
  else if env.entry.init.isNone then fallBackChange env json (clears env)
  else .fail false

def tokenChange (env : Surroundings) (json : String) : Change String :=
  if env.lock.isSome then .fail false else tokenChangeUnlocked env json

def removeChange (env : Surroundings) (file : Option String) (reached : Bool) : Change String :=
  if env.disk.path.isNone && ((env.disk.seen file).isNone || env.disk.remove.isNone) then
    .remove reached (!env.disk.hidden)
  else .fail reached

def deleteChange (env : Surroundings) (file : Option String) : Change String :=
  if noKeychain env then removeChange env file false
  else if KeychainUse.works env.entry then removeChange env file true
  else if env.entry.init.isNone && becameUnavailable env then removeChange env file false
  else .fail false

def tiers (home : Home) (resource : AuthResource) (profile : String) : Tiers String :=
  ⟨home.keychain (keyringService profile, user resource),
    home.files (profile, fileName resource)⟩

/-- What an operation does to the places of which credential. -/
def change (w : World) : Event → Option (AuthResource × String × Change String)
  | (env, .storeToken profile tokenData) =>
    some (.token, profile, tokenChange env tokenData.json)
  | (env, .deleteToken profile) =>
    some (.token, profile, if env.lock.isSome then .fail false
      else deleteChange env (tiers w.home .token profile).secondary)
  | (env, .storeSecret profile secret) =>
    some (.clientSecret, profile, secretChange env secret)
  | (env, .deleteSecret profile) =>
    some (.clientSecret, profile,
      deleteChange env (tiers w.home .clientSecret profile).secondary)
  | (_, .getToken _) | (_, .getSecret _) => none

/-- An operation leaves no value but the latest in either place: a store in the keychain finds no
other value in the file, a store in the file empties the keychain entry or finds no other value
there, a removal reaches the keychain or finds no entry there, and sees the file or finds none. -/
def LeavesNoOther (w : World) (e : Event) : Prop :=
  ∀ resource profile c, change w e = some (resource, profile, c) →
    c.Clean (tiers w.home resource profile)

end Changes

section Keys

theorem toList_keyringService (profile : String) :
    (keyringService profile).toList = "ags:accelbyte.io:".toList ++ profile.toList :=
  String.toList_append ..

theorem keyringService_inj {a b : String} (h : keyringService a = keyringService b) : a = b := by
  have hlist := congrArg String.toList h
  rw [toList_keyringService, toList_keyringService] at hlist
  exact String.toList_inj.mp (List.append_cancel_left hlist)

theorem keychainKey_inj {r r' : AuthResource} {p p' : String}
    (h : (keyringService p, user r) = (keyringService p', user r')) : r = r' ∧ p = p' := by
  obtain ⟨hservice, huser⟩ := Prod.mk.inj h
  refine ⟨?_, keyringService_inj hservice⟩
  cases r with
  | clientSecret =>
    cases r' with
    | clientSecret => rfl
    | token => exact absurd huser (by decide)
  | token =>
    cases r' with
    | clientSecret => exact absurd huser (by decide)
    | token => rfl

theorem fileKey_inj {r r' : AuthResource} {p p' : String}
    (h : (p, fileName r) = (p', fileName r')) : r = r' ∧ p = p' := by
  obtain ⟨hprofile, hfile⟩ := Prod.mk.inj h
  refine ⟨?_, hprofile⟩
  cases r with
  | clientSecret =>
    cases r' with
    | clientSecret => rfl
    | token => exact absurd hfile (by decide)
  | token =>
    cases r' with
    | clientSecret => exact absurd hfile (by decide)
    | token => rfl

/-- The home changes in the places of one credential. -/
structure Changes (home home' : Home) (resource : AuthResource) (profile : String)
    (c : Change String) : Prop where
  own : tiers home' resource profile = c.tiers (tiers home resource profile)
  other : ∀ r p, ¬ (r = resource ∧ p = profile) → tiers home' r p = tiers home r p

variable {home : Home} {resource : AuthResource} {profile : String}

theorem tiers_keychain (value : Option String) (r : AuthResource) (p : String) :
    tiers { home with keychain :=
        Function.update home.keychain (keyringService profile, user resource) value } r p =
      if r = resource ∧ p = profile then ⟨value, (tiers home r p).secondary⟩
      else tiers home r p := by
  by_cases h : r = resource ∧ p = profile
  · obtain ⟨rfl, rfl⟩ := h
    rw [if_pos ⟨rfl, rfl⟩]
    exact congrArg₂ Tiers.mk (Function.update_self ..) rfl
  · have hne : (keyringService p, user r) ≠ (keyringService profile, user resource) :=
      fun heq => h (keychainKey_inj heq)
    rw [if_neg h]
    exact congrArg₂ Tiers.mk (Function.update_of_ne hne ..) rfl

theorem tiers_file (value : Option String) (r : AuthResource) (p : String) :
    tiers { home with files := Function.update home.files (profile, fileName resource) value } r p =
      if r = resource ∧ p = profile then ⟨(tiers home r p).primary, value⟩
      else tiers home r p := by
  by_cases h : r = resource ∧ p = profile
  · obtain ⟨rfl, rfl⟩ := h
    rw [if_pos ⟨rfl, rfl⟩]
    exact congrArg₂ Tiers.mk rfl (Function.update_self ..)
  · have hne : (p, fileName r) ≠ (profile, fileName resource) := fun heq => h (fileKey_inj heq)
    rw [if_neg h]
    exact congrArg₂ Tiers.mk rfl (Function.update_of_ne hne ..)

end Keys

section Steps

variable {home home' : Home} {resource : AuthResource} {profile text : String}

theorem changes_none : Changes home home resource profile (.fail false) := ⟨rfl, fun _ _ _ => rfl⟩

theorem changes_put : Changes home
    { home with
      keychain := Function.update home.keychain (keyringService profile, user resource) (some text) }
    resource profile (.put text) where
  own := (tiers_keychain ..).trans (if_pos ⟨rfl, rfl⟩)
  other _ _ h := (tiers_keychain ..).trans (if_neg h)

theorem changes_cleared : Changes home
    { home with
      keychain := Function.update home.keychain (keyringService profile, user resource) none }
    resource profile (.fail true) where
  own := (tiers_keychain ..).trans (if_pos ⟨rfl, rfl⟩)
  other _ _ h := (tiers_keychain ..).trans (if_neg h)

/-- An entry that is missing need not be cleared. -/
theorem changes_absent (h : home.keychain (keyringService profile, user resource) = none) :
    Changes home home resource profile (.fail true) where
  own := congrArg₂ Tiers.mk h rfl
  other _ _ _ := rfl

theorem writeFile_changes {cleared : Bool} (disk : Disk)
    (h : Changes home home' resource profile (.fail cleared)) :
    Changes home (writeFile resource disk profile text home').2 resource profile
        (if Disk.writes disk then .fallBack text cleared else .fail cleared) ∧
      (writeFile resource disk profile text home').1.isOk = Disk.writes disk := by
  obtain ⟨path, hidden, createDir, write, read, remove⟩ := disk
  cases path with
  | some e => exact ⟨h, rfl⟩
  | none =>
    cases createDir with
    | some source => exact ⟨h, rfl⟩
    | none =>
      cases write with
      | some source => exact ⟨⟨h.own, h.other⟩, rfl⟩
      | none =>
        refine ⟨⟨?_, fun r p hne => ?_⟩, rfl⟩
        · refine (tiers_file ..).trans ((if_pos ⟨rfl, rfl⟩).trans ?_)
          exact congrArg₂ Tiers.mk (congrArg Tiers.primary h.own) rfl
        · exact (tiers_file ..).trans ((if_neg hne).trans (h.other r p hne))

theorem removeFile_changes {reached : Bool} {env : Surroundings}
    (h : Changes home home' resource profile (.fail reached)) :
    Changes home (removeFile resource env.disk profile home').2 resource profile
        (removeChange env (tiers home resource profile).secondary reached) ∧
      (removeFile resource env.disk profile home').1.isOk =
        (removeChange env (tiers home resource profile).secondary reached).succeeds := by
  have hfile : home'.files (profile, fileName resource) =
      (tiers home resource profile).secondary := congrArg Tiers.secondary h.own
  rw [removeFile, removeChange, Disk.seen, Disk.seen]
  cases env.disk.path with
  | some e => exact ⟨h, rfl⟩
  | none =>
    rw [hfile]
    cases env.disk.hidden with
    | true => exact ⟨⟨h.own, h.other⟩, rfl⟩
    | false =>
      cases hsecondary : (tiers home resource profile).secondary with
      | none =>
        refine ⟨⟨?_, h.other⟩, rfl⟩
        refine h.own.trans ?_
        exact congrArg₂ Tiers.mk rfl hsecondary
      | some text =>
        cases env.disk.remove with
        | some source => exact ⟨h, rfl⟩
        | none =>
          refine ⟨⟨?_, fun r p hne => ?_⟩, rfl⟩
          · refine (tiers_file ..).trans ((if_pos ⟨rfl, rfl⟩).trans ?_)
            exact congrArg₂ Tiers.mk (congrArg Tiers.primary h.own) rfl
          · exact (tiers_file ..).trans ((if_neg hne).trans (h.other r p hne))

inductive Reached (use : KeychainUse) : Prop
  | missing (f : Fault) (init : use.init = some f)
      (unavailable : isKeychainInitUnavailable (.fault f) = true)
  | malformed (f : Fault) (init : use.init = some f)
      (unavailable : isKeychainInitUnavailable (.fault f) = false)
  | works (init : use.init = none) (call : use.call = none)
  | lost (f : Fault) (init : use.init = none) (call : use.call = some f)
      (unavailable : isKeychainUnavailable (.fault f) = true)
  | failed (f : Fault) (init : use.init = none) (call : use.call = some f)
      (unavailable : isKeychainUnavailable (.fault f) = false)

theorem reached (use : KeychainUse) : Reached use := by
  cases hinit : use.init with
  | some f =>
    cases hf : isKeychainInitUnavailable (.fault f) with
    | true => exact .missing f hinit hf
    | false => exact .malformed f hinit hf
  | none =>
    cases hcall : use.call with
    | none => exact .works hinit hcall
    | some f =>
      cases hf : isKeychainUnavailable (.fault f) with
      | true => exact .lost f hinit hcall hf
      | false => exact .failed f hinit hcall hf

variable {env : Surroundings}

theorem clear_changes (home : Home) (profile : String) :
    Changes home (clearKeychainTokenEntry env profile home) .token profile
      (.fail (clears env)) := by
  rw [clearKeychainTokenEntry, clears]
  cases env.keychainDisabled with
  | true => exact changes_none
  | false =>
    rcases reached env.clearing with ⟨f, hinit, hf⟩ | ⟨f, hinit, hf⟩ | ⟨hinit, hcall⟩ |
      ⟨f, hinit, hcall, hf⟩ | ⟨f, hinit, hcall, hf⟩
    · simp only [keychainEntryOpt, hinit, hf, KeychainUse.works]
      exact changes_none
    · simp only [keychainEntryOpt, hinit, hf, KeychainUse.works]
      exact changes_none
    · simp only [keychainEntryOpt, hinit, hcall, KeychainUse.works, deleteCredential]
      cases hentry : home.keychain (keyringService profile, keyringTokenUser) with
      | none => exact changes_absent hentry
      | some text => exact @changes_cleared home .token profile
    · simp only [keychainEntryOpt, hinit, hcall, KeychainUse.works, deleteCredential]
      exact changes_none
    · simp only [keychainEntryOpt, hinit, hcall, KeychainUse.works, deleteCredential]
      exact changes_none

/-- An operation changes the places of its credential, and succeeds, as the change does. -/
def Does {α : Type} (home : Home) (result : Except RuntimeError α × Home)
    (resource : AuthResource) (profile : String) (c : Change String) : Prop :=
  Changes home result.2 resource profile c ∧ result.1.isOk = c.succeeds

theorem does_writeFile {cleared : Bool}
    (h : Changes home home' resource profile (.fail cleared)) :
    Does home (writeFile resource env.disk profile text home') resource profile
      (fallBackChange env text cleared) := by
  obtain ⟨hchanges, hok⟩ := @writeFile_changes _ _ _ _ text _ env.disk h
  rw [fallBackChange]
  refine ⟨hchanges, hok.trans ?_⟩
  cases Disk.writes env.disk with
  | true => rfl
  | false => rfl

theorem does_failed {α : Type} (e : RuntimeError) :
    Does home ((Except.error e : Except RuntimeError α), home) resource profile (.fail false) :=
  ⟨changes_none, rfl⟩

theorem storeSecret_does (secret : String) :
    Does home (storeSecret env profile secret home) .clientSecret profile
      (secretChange env secret) := by
  rw [storeSecret, secretAttempt, secretChange, noKeychain]
  cases env.keychainDisabled with
  | true => exact does_writeFile changes_none
  | false =>
    rcases reached env.entry with ⟨f, hinit, hf⟩ | ⟨f, hinit, hf⟩ | ⟨hinit, hcall⟩ |
      ⟨f, hinit, hcall, hf⟩ | ⟨f, hinit, hcall, hf⟩
    · simp only [keychainEntryOpt, hinit, hf, Option.any_some]
      exact does_writeFile changes_none
    · simp only [keychainEntryOpt, hinit, hf, Option.any_some, KeychainUse.works]
      exact does_failed _
    · simp only [keychainEntryOpt, hinit, hcall, setPassword, KeychainUse.works]
      exact ⟨@changes_put home .clientSecret profile secret, rfl⟩
    · simp only [keychainEntryOpt, hinit, hcall, setPassword, hf, KeychainUse.works,
        becameUnavailable, Option.any_some]
      exact does_writeFile changes_none
    · simp only [keychainEntryOpt, hinit, hcall, setPassword, hf, KeychainUse.works,
        becameUnavailable, Option.any_some]
      exact does_failed _

theorem does_tokenFile (warning : Option String) (json : String) :
    Does home (match writeFile .token env.disk profile json
        (clearKeychainTokenEntry env profile home) with
      | (.ok (), home') => (Except.ok warning, home')
      | (.error e, home') => (.error e, home')) .token profile
      (fallBackChange env json (clears env)) := by
  obtain ⟨hchanges, hok⟩ := @does_writeFile _ _ _ _ json env _ (clear_changes home profile)
  cases hwrite : writeFile .token env.disk profile json
      (clearKeychainTokenEntry env profile home) with
  | mk result written =>
    rw [hwrite] at hchanges hok
    cases result with
    | ok u => exact ⟨hchanges, hok⟩
    | error e => exact ⟨hchanges, hok⟩

theorem storeTokenDataUnlocked_does (tokenData : TokenData) :
    Does home (storeTokenDataUnlocked env profile tokenData home) .token profile
      (tokenChangeUnlocked env tokenData.json) := by
  rw [storeTokenDataUnlocked, tokenAttempt, tokenChangeUnlocked, noKeychain]
  cases exceedsWindowsCredmanLimit env.windows tokenData.json with
  | true => exact does_tokenFile _ _
  | false =>
    cases env.keychainDisabled with
    | true => exact does_tokenFile _ _
    | false =>
      rcases reached env.entry with ⟨f, hinit, hf⟩ | ⟨f, hinit, hf⟩ | ⟨hinit, hcall⟩ |
        ⟨f, hinit, hcall, hf⟩ | ⟨f, hinit, hcall, hf⟩
      · simp only [keychainEntryOpt, hinit, hf, Option.any_some]
        exact does_tokenFile _ _
      · simp only [keychainEntryOpt, hinit, hf, Option.any_some, KeychainUse.works]
        exact does_failed _
      · simp only [keychainEntryOpt, hinit, hcall, setPassword, KeychainUse.works]
        exact ⟨@changes_put home .token profile tokenData.json, rfl⟩
      · simp only [keychainEntryOpt, hinit, hcall, setPassword, hf, KeychainUse.works]
        exact does_tokenFile _ _
      · simp only [keychainEntryOpt, hinit, hcall, setPassword, hf, KeychainUse.works]
        exact does_tokenFile _ _

theorem deleteData_does :
    Does home (deleteData resource env profile home) resource profile
      (deleteChange env (tiers home resource profile).secondary) := by
  rw [deleteData, deleteChange, noKeychain]
  cases env.keychainDisabled with
  | true => exact removeFile_changes changes_none
  | false =>
    rcases reached env.entry with ⟨f, hinit, hf⟩ | ⟨f, hinit, hf⟩ | ⟨hinit, hcall⟩ |
      ⟨f, hinit, hcall, hf⟩ | ⟨f, hinit, hcall, hf⟩
    · simp only [keychainEntryOpt, hinit, hf, Option.any_some]
      exact removeFile_changes changes_none
    · simp only [keychainEntryOpt, hinit, hf, Option.any_some, KeychainUse.works]
      exact does_failed _
    · simp only [keychainEntryOpt, hinit, hcall, deleteCredential, KeychainUse.works]
      cases hentry : home.keychain (keyringService profile, user resource) with
      | none => exact removeFile_changes (changes_absent hentry)
      | some text => exact removeFile_changes changes_cleared
    · simp only [keychainEntryOpt, hinit, hcall, deleteCredential, hf, KeychainUse.works,
        becameUnavailable, Option.any_some]
      exact removeFile_changes changes_none
    · simp only [keychainEntryOpt, hinit, hcall, deleteCredential, hf, KeychainUse.works,
        becameUnavailable, Option.any_some]
      exact does_failed _

theorem withTokenLock_does {α : Type} {result : Except RuntimeError α × Home} {c : Change String}
    (h : Does home result .token profile c) :
    Does home (withTokenLock env home result) .token profile
      (if env.lock.isSome then .fail false else c) := by
  rw [withTokenLock]
  cases env.lock with
  | some e => exact does_failed e
  | none => exact h

end Steps

section Worlds

def latestText (w : World) (profile : String) : AuthResource → Option String
  | .token => (w.tokens profile).map TokenData.json
  | .clientSecret => w.secrets profile

def CoherentWorld (w : World) : Prop :=
  ∀ resource profile, Coherent (latestText w profile resource) (tiers w.home resource profile)

/-- Token texts are texts of tokens. -/
def Written (w : World) : Prop := ∀ profile text,
  (tiers w.home .token profile).primary = some text ∨
    (tiers w.home .token profile).secondary = some text → ∃ tokenData : TokenData,
      text = tokenData.json

/-- A successful change makes this the latest text. -/
def Settles (c : Change String) (value : Option String) : Prop :=
  ∀ l, c.lastAfter l = if c.succeeds then value else l

variable {w w' : World} {env : Surroundings} {profile : String}

theorem settles_fallBack (text : String) (cleared : Bool) :
    Settles (fallBackChange env text cleared) (some text) := by
  rw [fallBackChange]
  cases Disk.writes env.disk with
  | true => exact fun l => rfl
  | false => exact fun l => rfl

theorem settles_fail (cleared : Bool) (value : Option String) : Settles (.fail cleared) value :=
  fun _ => rfl

theorem settles_secretChange (secret : String) :
    Settles (secretChange env secret) (some secret) := by
  rw [secretChange]
  split_ifs
  · exact settles_fallBack secret false
  · exact fun l => rfl
  · exact settles_fallBack secret false
  · exact settles_fail false _

theorem settles_tokenChange (json : String) : Settles (tokenChange env json) (some json) := by
  rw [tokenChange, tokenChangeUnlocked]
  split_ifs
  · exact settles_fail false _
  · exact settles_fallBack json _
  · exact fun l => rfl
  · exact settles_fallBack json _
  · exact settles_fail false _

theorem settles_removeChange (file : Option String) (reached : Bool) :
    Settles (removeChange env file reached) none := by
  rw [removeChange]
  split_ifs
  · exact fun l => rfl
  · exact settles_fail reached none

theorem settles_deleteChange (file : Option String) : Settles (deleteChange env file) none := by
  rw [deleteChange]
  split_ifs
  · exact settles_removeChange file false
  · exact settles_removeChange file true
  · exact settles_removeChange file false
  · exact settles_fail false none

/-- One credential goes through a change, the others keep what they have. -/
structure StepsTo (w w' : World) (resource : AuthResource) (profile : String)
    (c : Change String) : Prop where
  changes : Changes w.home w'.home resource profile c
  last : latestText w' profile resource = c.lastAfter (latestText w profile resource)
  lastOther : ∀ r p, ¬ (r = resource ∧ p = profile) → latestText w' p r = latestText w p r

theorem stepsTo_token {α : Type} {r : Except RuntimeError α × Home} {c : Change String}
    {value : Option TokenData} (h : Does w.home r .token profile c)
    (hsettles : Settles c (value.map TokenData.json)) :
    StepsTo w { w with home := r.2, tokens := settle r.1 w.tokens profile value } .token profile
      c := by
  obtain ⟨hchanges, hok⟩ := h
  cases hresult : r.1 with
  | ok a =>
    rw [hresult] at hok
    refine ⟨hchanges, ?_, fun resource p hne => ?_⟩
    · have hown : settle (Except.ok a : Except RuntimeError α) w.tokens profile value profile =
          value := Function.update_self ..
      rw [hsettles, ← hok]
      exact congrArg (Option.map TokenData.json) hown
    · cases resource with
      | clientSecret => rfl
      | token =>
        have hp : p ≠ profile := fun heq => hne ⟨rfl, heq⟩
        have hkept : settle (Except.ok a : Except RuntimeError α) w.tokens profile value p =
          w.tokens p := Function.update_of_ne hp ..
        exact congrArg (Option.map TokenData.json) hkept
  | error e =>
    rw [hresult] at hok
    refine ⟨hchanges, ?_, fun resource p _ => ?_⟩
    · rw [hsettles, ← hok]
      rfl
    · cases resource with
      | clientSecret | token => rfl

theorem stepsTo_secret {α : Type} {r : Except RuntimeError α × Home} {c : Change String}
    {value : Option String} (h : Does w.home r .clientSecret profile c)
    (hsettles : Settles c value) :
    StepsTo w { w with home := r.2, secrets := settle r.1 w.secrets profile value } .clientSecret
      profile c := by
  obtain ⟨hchanges, hok⟩ := h
  cases hresult : r.1 with
  | ok a =>
    rw [hresult] at hok
    refine ⟨hchanges, ?_, fun resource p hne => ?_⟩
    · rw [hsettles, ← hok]
      exact Function.update_self ..
    · cases resource with
      | token => rfl
      | clientSecret =>
        have hp : p ≠ profile := fun heq => hne ⟨rfl, heq⟩
        exact Function.update_of_ne hp ..
  | error e =>
    rw [hresult] at hok
    refine ⟨hchanges, ?_, fun resource p _ => ?_⟩
    · rw [hsettles, ← hok]
      rfl
    · cases resource with
      | clientSecret | token => rfl

/-- What one operation does to the world. -/
theorem next_change (w : World) (e : Event) :
    (change w e = none ∧ next w e = w) ∨
      ∃ resource profile c, change w e = some (resource, profile, c) ∧
        StepsTo w (next w e) resource profile c ∧
        ∀ text, resource = .token → c.lastAfter none = some text →
          ∃ tokenData : TokenData, text = tokenData.json := by
  obtain ⟨env, op⟩ := e
  cases op with
  | getToken profile | getSecret profile => exact Or.inl ⟨rfl, rfl⟩
  | storeToken profile tokenData =>
    refine Or.inr ⟨_, _, _, rfl, stepsTo_token
      (withTokenLock_does (storeTokenDataUnlocked_does tokenData))
      (settles_tokenChange tokenData.json), fun text _ htext => ?_⟩
    rw [settles_tokenChange] at htext
    split_ifs at htext
    exact ⟨tokenData, (Option.some.inj htext).symm⟩
  | deleteToken profile =>
    have hsettles : ∀ file, Settles (if env.lock.isSome then .fail false
        else deleteChange env file) none := by
      intro file
      split_ifs
      · exact settles_fail false none
      · exact settles_deleteChange file
    refine Or.inr ⟨_, _, _, rfl, stepsTo_token (withTokenLock_does deleteData_does)
      (hsettles _), fun text _ htext => ?_⟩
    rw [hsettles] at htext
    split_ifs at htext
  | storeSecret profile secret =>
    exact Or.inr ⟨_, _, _, rfl, stepsTo_secret (storeSecret_does secret)
      (settles_secretChange secret), nofun⟩
  | deleteSecret profile =>
    exact Or.inr ⟨_, _, _, rfl, stepsTo_secret deleteData_does (settles_deleteChange _), nofun⟩

/-- A coherent world stays so exactly when the operation leaves no other value. -/
theorem coherent_next_iff (h : CoherentWorld w) (e : Event) :
    CoherentWorld (next w e) ↔ LeavesNoOther w e := by
  rcases next_change w e with ⟨hnone, hsame⟩ | ⟨resource, profile, c, hchange, hsteps, -⟩
  · rw [hsame]
    exact ⟨fun _ _ _ _ h => (nomatch hnone.symm.trans h), fun _ => h⟩
  · have hown := Change.coherent_iff (h resource profile) c
    rw [← hsteps.changes.own, ← hsteps.last] at hown
    constructor
    · intro hcoherent r p c' hc'
      obtain ⟨rfl, hrest⟩ := Prod.mk.inj (Option.some.inj (hchange.symm.trans hc'))
      obtain ⟨rfl, rfl⟩ := Prod.mk.inj hrest
      exact hown.mp (hcoherent resource profile)
    · intro hclean r p
      by_cases hsame : r = resource ∧ p = profile
      · obtain ⟨rfl, rfl⟩ := hsame
        exact hown.mpr (hclean r p c hchange)
      · rw [hsteps.lastOther r p hsame, hsteps.changes.other r p hsame]
        exact h r p

theorem written_next (h : Written w) (e : Event) : Written (next w e) := by
  rcases next_change w e with ⟨-, hsame⟩ | ⟨resource, profile, c, -, hsteps, htoken⟩
  · rw [hsame]
    exact h
  · intro p text htext
    by_cases hsame : AuthResource.token = resource ∧ p = profile
    · obtain ⟨rfl, rfl⟩ := hsame
      rw [hsteps.changes.own] at htext
      rcases Change.held_or_written htext with hheld | hwritten
      · exact h p text hheld
      · exact htoken text rfl hwritten
    · rw [hsteps.changes.other _ p hsame] at htext
      exact h p text htext

end Worlds

section Reads

variable {w : World} {profile : String} {env : Surroundings} {home : Home}
  {resource : AuthResource}

theorem of_seen {disk : Disk} {file : Option String} {text : String}
    (h : disk.seen file = some text) : file = some text := by
  unfold Disk.seen at h
  split_ifs at h
  exact h

/-- What a read returns was parsed from one of the two places. -/
theorem readFile_ok {α : Type} {parse : String → Except RuntimeError α} {disk : Disk} {x : α}
    (h : readFile resource parse disk profile home = .ok (some x)) :
    ∃ text, (tiers home resource profile).secondary = some text ∧ parse text = .ok x := by
  rw [readFile] at h
  cases hpath : disk.path with
  | some e =>
    rw [hpath] at h
    cases h
  | none =>
    rw [hpath] at h
    cases hseen : disk.seen (home.files (profile, fileName resource)) with
    | none =>
      simp only [hseen] at h
      cases h
    | some text =>
      simp only [hseen] at h
      have hfile : home.files (profile, fileName resource) = some text := of_seen hseen
      cases hread : disk.read with
      | some source =>
        rw [hread] at h
        cases h
      | none =>
        rw [hread] at h
        refine ⟨text, hfile, ?_⟩
        cases hparse : parse text with
        | error e =>
          rw [hparse] at h
          cases h
        | ok y =>
          rw [hparse] at h
          cases h
          rfl

theorem getData_ok {α : Type} {parseKeychain parseFile : String → Except RuntimeError α} {x : α}
    (h : getData resource parseKeychain parseFile env profile home = .ok (some x)) :
    (∃ text, (tiers home resource profile).primary = some text ∧ parseKeychain text = .ok x) ∨
      ∃ text, (tiers home resource profile).secondary = some text ∧ parseFile text = .ok x := by
  rw [getData] at h
  cases hdisabled : env.keychainDisabled with
  | true =>
    rw [hdisabled] at h
    exact Or.inr (readFile_ok h)
  | false =>
    rw [hdisabled] at h
    rcases reached env.entry with ⟨f, hinit, hf⟩ | ⟨f, hinit, hf⟩ | ⟨hinit, hcall⟩ |
      ⟨f, hinit, hcall, hf⟩ | ⟨f, hinit, hcall, hf⟩
    · simp only [keychainEntryOpt, hinit, hf] at h
      exact Or.inr (readFile_ok h)
    · simp only [keychainEntryOpt, hinit, hf] at h
      cases h
    · simp only [keychainEntryOpt, hinit, hcall, getPassword] at h
      cases hentry : home.keychain (keyringService profile, user resource) with
      | none =>
        simp only [hentry] at h
        exact Or.inr (readFile_ok h)
      | some text =>
        simp only [hentry] at h
        refine Or.inl ⟨text, hentry, ?_⟩
        cases hparse : parseKeychain text with
        | error e =>
          rw [hparse] at h
          cases h
        | ok y =>
          rw [hparse] at h
          cases h
          rfl
    · simp only [keychainEntryOpt, hinit, hcall, getPassword, hf] at h
      cases f with
      | noStorageAccess text => exact Or.inr (readFile_ok h)
      | platformFailure text | other text => cases hf
    · simp only [keychainEntryOpt, hinit, hcall, getPassword, hf] at h
      cases h

def fine : Surroundings := ⟨false, false, none, .fine, .fine, .fine⟩

def withoutKeychain : Surroundings := { fine with keychainDisabled := true }

/-- The keychain is used, and the call on it goes through. -/
def reaches (env : Surroundings) : Bool := !env.keychainDisabled && KeychainUse.works env.entry

theorem of_reaches (h : reaches env = true) :
    env.keychainDisabled = false ∧ env.entry.init = none ∧ env.entry.call = none := by
  rw [reaches, KeychainUse.works, Bool.and_eq_true, Bool.and_eq_true, Bool.not_eq_true',
    Option.isNone_iff_eq_none, Option.isNone_iff_eq_none] at h
  exact h

theorem getData_reached {α : Type} {parseKeychain parseFile : String → Except RuntimeError α}
    {text : String} (hreached : reaches env = true)
    (h : (tiers home resource profile).primary = some text) :
    getData resource parseKeychain parseFile env profile home = (parseKeychain text).map some := by
  have hentry : home.keychain (keyringService profile, user resource) = some text := h
  obtain ⟨hdisabled, hinit, hcall⟩ := of_reaches hreached
  simp only [getData, hdisabled, keychainEntryOpt, hinit, hcall, getPassword, hentry]
  rfl

theorem getData_withoutKeychain {α : Type}
    {parseKeychain parseFile : String → Except RuntimeError α}
    {text : String} (h : (tiers home resource profile).secondary = some text) :
    getData resource parseKeychain parseFile withoutKeychain profile home =
      (parseFile text).map some := by
  have hfile : home.files (profile, fileName resource) = some text := h
  simp only [getData, withoutKeychain, fine, readFile, Disk.fine, hfile]
  rfl

theorem parseToken_json (r : Reader) (failed : String → AuthError) (tokenData : TokenData) :
    parseToken r failed tokenData.json = .ok tokenData := by
  rw [parseToken, TokenData.parse_json]

/-- Reads return the latest values exactly when the world is coherent. -/
theorem getsLatest_iff (r : Reader) (hwritten : Written w) :
    GetsLatest r w ↔ CoherentWorld w := by
  constructor
  · rintro ⟨htokens, hsecrets⟩ resource profile
    cases resource with
    | token =>
      constructor
      · intro text htext
        obtain ⟨tokenData, rfl⟩ := hwritten profile text (Or.inl htext)
        have hget : getTokenData r fine profile w.home = .ok (some tokenData) := by
          rw [getTokenData, getData_reached rfl htext, parseToken_json]
          rfl
        exact congrArg (Option.map TokenData.json) (htokens fine profile tokenData hget)
      · intro text htext
        obtain ⟨tokenData, rfl⟩ := hwritten profile text (Or.inr htext)
        have hget : getTokenData r withoutKeychain profile w.home = .ok (some tokenData) := by
          rw [getTokenData, getData_withoutKeychain htext, parseToken_json]
          rfl
        exact congrArg (Option.map TokenData.json) (htokens withoutKeychain profile tokenData hget)
    | clientSecret =>
      constructor
      · intro text htext
        exact hsecrets fine profile text (getData_reached rfl htext)
      · intro text htext
        exact hsecrets withoutKeychain profile text (getData_withoutKeychain htext)
  · intro hcoherent
    constructor
    · intro env profile tokenData hget
      have hparsed : ∀ failed text, latestText w profile .token = some text →
          parseToken r failed text = .ok tokenData → w.tokens profile = some tokenData := by
        intro failed text htext hparse
        obtain ⟨t, ht, rfl⟩ := Option.map_eq_some_iff.mp htext
        rw [parseToken_json] at hparse
        cases hparse
        exact ht
      rcases getData_ok hget with ⟨text, htext, hparse⟩ | ⟨text, htext, hparse⟩
      · exact hparsed _ text ((hcoherent .token profile).primary text htext) hparse
      · exact hparsed _ text ((hcoherent .token profile).secondary text htext) hparse
    · intro env profile secret hget
      rcases getData_ok hget with ⟨text, htext, hparse⟩ | ⟨text, htext, hparse⟩
      · rw [← Except.ok.inj hparse]
        exact (hcoherent .clientSecret profile).primary text htext
      · rw [← Except.ok.inj hparse]
        exact (hcoherent .clientSecret profile).secondary text htext

end Reads

section Runs

variable {w : World}

theorem coherent_start : CoherentWorld start ∧ Written start := by
  constructor
  · intro resource profile
    exact coherent_empty
  · rintro profile text (h | h)
    · cases h
    · cases h

theorem run_coherent (h : system.Reaches LeavesNoOther start w) :
    CoherentWorld w ∧ Written w := by
  refine system.invariant (fun w => CoherentWorld w ∧ Written w) ?_ h coherent_start
  intro u e hu hallowed _
  exact ⟨(coherent_next_iff hu.1 e).mpr hallowed, written_next hu.2 e⟩

/-- As long as every operation leaves no other value behind, reads return the latest values; after
one more operation they still do exactly when it leaves none either. -/
theorem gets_latest (r : Reader) (h : system.Reaches LeavesNoOther start w) :
    GetsLatest r w ∧ ∀ e, GetsLatest r (next w e) ↔ LeavesNoOther w e := by
  obtain ⟨hcoherent, hwritten⟩ := run_coherent h
  refine ⟨(getsLatest_iff r hwritten).mpr hcoherent, fun e => ?_⟩
  rw [getsLatest_iff r (written_next hwritten e)]
  exact coherent_next_iff hcoherent e

def session (accessToken : String) : TokenData := ⟨accessToken, 9999999999, none, none, none, none⟩

def fileThenKeychain : List Event :=
  [(withoutKeychain, .storeToken "dev" (session "first")),
   (fine, .storeToken "dev" (session "second"))]

theorem gets_latest_session : GetsLatest textReader (system.follow start
      [(fine, .storeToken "dev" (session "first")), (fine, .storeSecret "dev" "s3cret"),
       (fine, .storeToken "dev" (session "second"))]) := by
  refine (gets_latest textReader (Events.System.reaches_follow ?_)).1
  refine ⟨?_, trivial, ?_, trivial, ?_, trivial, trivial⟩
  · rintro resource profile c ⟨⟩
    exact Or.inl rfl
  · rintro resource profile c ⟨⟩
    exact Or.inl rfl
  · rintro resource profile c ⟨⟩
    exact Or.inl rfl

/-- With the keychain out of reach, the token left in the file comes back. -/
theorem older_token_returned : ¬ ∀ (r : Reader) (w : World),
    system.Reaches Events.System.free start w → GetsLatest r w := by
  intro h
  have hadmits : system.Admits Events.System.free start fileThenKeychain :=
    ⟨trivial, trivial, trivial, trivial, trivial⟩
  have hgets := (h textReader _ (Events.System.reaches_follow hadmits)).1
  have hread : getTokenData textReader withoutKeychain "dev"
      (system.follow start fileThenKeychain).home = .ok (some (session "first")) := by
    have htext : (tiers (system.follow start fileThenKeychain).home .token "dev").secondary =
        some (session "first").json := rfl
    rw [getTokenData, getData_withoutKeychain htext, parseToken_json]
    rfl
  have hlatest := hgets withoutKeychain "dev" (session "first") hread
  have hsecond : (system.follow start fileThenKeychain).tokens "dev" =
      some (session "second") := rfl
  rw [hsecond] at hlatest
  have hne : session "second" ≠ session "first" := by decide
  exact hne (Option.some.inj hlatest)

end Runs

end CredentialCoherence
