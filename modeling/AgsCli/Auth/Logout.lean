import AgsCli.Auth.Coherence
import AgsCli.Auth.Profiles
import AgsCli.Config.FieldWrites
import AgsCli.Config.RawUpdate

/-! # Logging out

`logout_profile` and `logout_all_profiles` over three stores: secret, token and config. The
removals from the first two may fail unseen. -/
namespace Logout

open OrderedMap Json ProtocolError AuthErrors AuthToken AuthStore ConfigStore FieldWrites
  CredentialCoherence TwoTiers

section Model

structure ConfigText where
  text : FileText profileFields
  wellTyped : ∀ config, text.typed = .ok config → ∀ e ∈ profileFields, ∀ v,
    config.field e.1 = some v → HasType e.2 v

structure Stored where
  home : Home
  configs : String → Option ConfigText

def Stored.config (s : Stored) (profile : String) : Option (FileText profileFields) :=
  (s.configs profile).map (·.text)

def configLabel (profile : String) : String := s!"profile config for '{profile}'"

/-- What stands in the way of locking, reading and writing a config, and its path. -/
structure ConfigSteps where
  path : String
  lock : Option RuntimeError
  disk : RawUpdate.Disk

def clearClientId (config : Typed) : Typed :=
  config.map fun e => if e.1 = "client_id" then (e.1, none) else e

theorem field_clearClientId (config : Typed) (name : String) :
    (clearClientId config).field name = if name = "client_id" then none else config.field name := by
  rw [Typed.field, Typed.field, clearClientId]
  induction config with
  | nil => simp
  | cons e rest ih =>
    obtain ⟨other, v⟩ := e
    rw [List.map_cons]
    by_cases hother : other = "client_id"
    · subst hother
      rw [if_pos rfl, Entries.lookup_cons, Entries.lookup_cons]
      by_cases hname : name = "client_id"
      · simp [hname]
      · rw [if_neg hname, if_neg hname, if_neg hname, ih, if_neg hname]
    · rw [if_neg hother, Entries.lookup_cons, Entries.lookup_cons]
      by_cases hname : name = other
      · subst hname
        rw [if_pos rfl, if_pos rfl, if_neg hother]
      · rw [if_neg hname, if_neg hname, ih]

theorem nodup_profileFields : (profileFields.map Prod.fst).Nodup := by decide

theorem hasType_of_typedOf {document : Value} {loaded : Typed}
    (h : typedOf profileFields document = some loaded) {e : String × FieldType}
    (he : e ∈ profileFields) {v : FieldValue} (hv : loaded.field e.1 = some v) :
    HasType e.2 v := by
  obtain ⟨members, -, hdecoded⟩ := Option.bind_eq_some_iff.mp h
  have hfield := ConfigRoundTrip.field_of_decodeFields nodup_profileFields hdecoded he
  rw [hv] at hfield
  exact hasType_of_decodeField hfield

def saved (config : Typed) : ConfigText where
  text := written profileFields (encode profileFields config)
  wellTyped loaded hloaded _ he _ hv :=
    hasType_of_typedOf ((written profileFields _).coherent _ loaded rfl hloaded) he hv

theorem load_saved {config : Typed} (label : String)
    (htyped : ∀ e ∈ profileFields, ∀ v, config.field e.1 = some v → HasType e.2 v) :
    ∃ loaded, loadStruct (some (saved config).text) label = .ok loaded ∧
      ∀ e ∈ profileFields, loaded.field e.1 = config.field e.1 := by
  have hlookup : ∀ e ∈ profileFields, Entries.lookup e.1
      (profileFields.foldl (insertField config) []) = (config.field e.1).map encodeValue := by
    intro e he
    rw [lookup_foldl_insertField config [] nodup_profileFields,
      if_pos (List.mem_map_of_mem (f := Prod.fst) he)]
    cases config.field e.1 with
    | none => rfl
    | some v => rfl
  have hdecode : ∀ e ∈ profileFields, decodeField e.2 (Entries.lookup e.1
      (profileFields.foldl (insertField config) [])) = some (config.field e.1) := by
    intro e he
    rw [hlookup e he]
    cases hfield : config.field e.1 with
    | none => rfl
    | some v => exact decode_encodeValue (htyped e he v hfield)
  obtain ⟨loaded, hloaded⟩ := ConfigRoundTrip.decodeFields_of_fields fun e he =>
    ⟨_, hdecode e he⟩
  refine ⟨loaded, ConfigRoundTrip.loadStruct_written.mpr hloaded, fun e he => ?_⟩
  have hfield := ConfigRoundTrip.field_of_decodeFields nodup_profileFields hloaded he
  exact Option.some.inj (hfield.symm.trans (hdecode e he))

/-- `ProfileConfig::update` with the closure that clears `client_id`. -/
def updateConfig (steps : ConfigSteps) (profile : String) (s : Stored) :
    Except RuntimeError Unit × Stored :=
  match steps.lock with
  | some e => (.error e, s)
  | none =>
    let s := { s with home := Profiles.makeDir profile s.home }
    match RawUpdate.loadFile steps.disk (s.config profile) (configLabel profile) with
    | .error e => (.error e, s)
    | .ok config =>
      match steps.disk.write with
      | some e => (.error (.internal s!"Failed to write '{steps.path}': {e}"), s)
      | none =>
        (.ok (), { s with
          configs := Function.update s.configs profile (some (saved (clearClientId config))) })

structure LogoutSteps where
  readConfig : RawUpdate.Disk
  readSecret : Surroundings
  readToken : Surroundings
  deleteSecret : Surroundings
  deleteToken : Surroundings
  config : ConfigSteps

structure LogoutOutcome where
  hadClientId : Bool
  hadClientSecret : Bool
  hadAccessToken : Bool
  hadRefreshToken : Bool
  deriving DecidableEq, Repr

/-- The three removals; only the result of the last is kept. -/
def clearProfile (steps : LogoutSteps) (profile : String) (s : Stored) :
    Except RuntimeError Unit × Stored :=
  let secret := deleteSecret steps.deleteSecret profile s.home
  let token := deleteTokenData steps.deleteToken profile secret.2
  updateConfig steps.config profile { s with home := token.2 }

def logoutProfile (r : Reader) (steps : LogoutSteps) (profile : String) (s : Stored) :
    Except RuntimeError LogoutOutcome × Stored :=
  let hadClientId :=
    match RawUpdate.loadFile steps.readConfig (s.config profile) (configLabel profile) with
    | .ok config => (config.field "client_id").isSome
    | .error _ => false
  let hadClientSecret := ((getSecret steps.readSecret profile s.home).toOption.join).isSome
  let tokenData := (getTokenData r steps.readToken profile s.home).toOption.join
  let hadRefreshToken := (tokenData.bind (·.refreshToken)).isSome
  match clearProfile steps profile s with
  | (.error e, s') => (.error e, s')
  | (.ok (), s') => (.ok ⟨hadClientId, hadClientSecret, tokenData.isSome, hadRefreshToken⟩, s')

/-- What `list_profiles` answers: no directory is listed twice. -/
structure ProfileNames where
  names : List String
  nodup : names.Nodup

def logoutAllProfiles (listed : Except RuntimeError ProfileNames) (steps : String → LogoutSteps)
    (s : Stored) : Except RuntimeError (List String) × Stored :=
  match listed with
  | .error e => (.error e, s)
  | .ok profiles =>
    (.ok profiles.names,
      profiles.names.foldl (fun s name => (clearProfile (steps name) name s).2) s)

end Model

section Spec

/-- The keychain works, and what is in files can be read. -/
structure Working (env : Surroundings) : Prop where
  keychain : reaches env = true
  path : env.disk.path = none
  shown : env.disk.hidden = false
  read : env.disk.read = none

def ClientIdAbsent (s : Stored) (profile : String) : Prop :=
  ∃ config, loadStruct (s.config profile) (configLabel profile) = .ok config ∧
    config.field "client_id" = none

structure NothingLeft (r : Reader) (s : Stored) (profile : String) : Prop where
  secret : ∀ env, Working env → getSecret env profile s.home = .ok none
  token : ∀ env, Working env → getTokenData r env profile s.home = .ok none
  clientId : ClientIdAbsent s profile

/-- The keychain step of a removal ends without an error, whether it removed anything or not. -/
def passes (env : Surroundings) : Bool :=
  noKeychain env || KeychainUse.works env.entry ||
    (env.entry.init.isNone && becameUnavailable env)

structure RemovesFiles (disk : Disk) : Prop where
  path : disk.path = none
  shown : disk.hidden = false
  remove : disk.remove = none

/-- A removal empties both places of a credential: it reaches the keychain or finds no entry
there, and it gets to the file, sees it and removes it or finds none. -/
structure Clears (env : Surroundings) (t : Tiers String) : Prop where
  keychain : t.primary = none ∨ reaches env = true
  file : t.secondary = none ∨ (passes env = true ∧ RemovesFiles env.disk)

structure CredentialsCleared (steps : LogoutSteps) (s : Stored) (profile : String) : Prop where
  secret : Clears steps.deleteSecret (tiers s.home .clientSecret profile)
  token : (steps.deleteToken.lock = none ∧
    Clears steps.deleteToken (tiers s.home .token profile)) ∨
      tiers s.home .token profile = empty

structure ConfigUpdated (steps : ConfigSteps) (s : Stored) (profile : String) : Prop where
  lock : steps.lock = none
  load : ∃ config,
    RawUpdate.loadFile steps.disk (s.config profile) (configLabel profile) = .ok config
  write : steps.disk.write = none

end Spec

section Removals

variable {home : Home} {profile : String} {env : Surroundings} {t : Tiers String}

theorem clear_eq_none {cleared : Bool} {o : Option String} :
    clear cleared o = none ↔ o = none ∨ cleared = true := by
  cases cleared with
  | true => simp [clear]
  | false => simp [clear]

theorem tiers_eq_empty {t : Tiers String} : t = empty ↔ t.primary = none ∧ t.secondary = none := by
  obtain ⟨primary, secondary⟩ := t
  simp [empty]

theorem removeChange_eq_empty {reached : Bool} :
    (removeChange env t.secondary reached).tiers t = empty ↔
      (t.primary = none ∨ reached = true) ∧
        (t.secondary = none ∨ RemovesFiles env.disk) := by
  have hgate : (env.disk.path.isNone &&
      ((env.disk.seen t.secondary).isNone || env.disk.remove.isNone)) = true ↔
      env.disk.path = none ∧ (env.disk.seen t.secondary = none ∨ env.disk.remove = none) := by simp
  have hseen : env.disk.seen t.secondary = none ↔
      t.secondary = none ∨ env.disk.hidden = true := by
    rw [Disk.seen]
    cases env.disk.hidden <;> simp
  rw [removeChange, tiers_eq_empty]
  split_ifs with hremoves
  · obtain ⟨hpath, hfile⟩ := hgate.mp hremoves
    have hsecond : clear (!env.disk.hidden) t.secondary = none ↔
        t.secondary = none ∨ RemovesFiles env.disk := by
      rw [clear_eq_none, Bool.not_eq_true']
      refine or_congr_right' fun hsome => ⟨fun hshown => ⟨hpath, hshown, ?_⟩, fun h => h.shown⟩
      refine hfile.resolve_left fun hnone => ?_
      rcases hseen.mp hnone with hempty | hhidden
      · exact hsome hempty
      · exact Bool.false_ne_true (hshown.symm.trans hhidden)
    exact and_congr clear_eq_none hsecond
  · have hsecond : t.secondary = none ∨ RemovesFiles env.disk ↔ t.secondary = none := by
      refine ⟨fun h => ?_, .inl⟩
      rcases h with hnone | hfiles
      · exact hnone
      · exact absurd (hgate.mpr ⟨hfiles.path, .inr hfiles.remove⟩) hremoves
    rw [hsecond]
    exact and_congr_left' clear_eq_none

/-- What a removal leaves is empty exactly when it clears. -/
theorem deleteChange_eq_empty :
    (deleteChange env t.secondary).tiers t = empty ↔ Clears env t := by
  have hclears : Clears env t ↔ (t.primary = none ∨ reaches env = true) ∧
      (t.secondary = none ∨
        (passes env = true ∧ RemovesFiles env.disk)) :=
    ⟨fun h => ⟨h.keychain, h.file⟩, fun h => ⟨h.1, h.2⟩⟩
  rw [hclears, deleteChange, passes, reaches]
  cases hmissing : noKeychain env with
  | true =>
    have hunreached : (!env.keychainDisabled && KeychainUse.works env.entry) = false := by
      by_contra hreaches
      have hreached : reaches env = true := eq_true_of_ne_false hreaches
      obtain ⟨henabled, hinit, -⟩ := of_reaches hreached
      rw [noKeychain, henabled, hinit] at hmissing
      cases hmissing
    rw [if_pos rfl, removeChange_eq_empty, hunreached]
    simp
  | false =>
    have henabled : env.keychainDisabled = false := by
      rw [noKeychain, Bool.or_eq_false_iff] at hmissing
      exact hmissing.1
    rw [if_neg (by simp), henabled]
    cases hworks : KeychainUse.works env.entry with
    | true =>
      rw [if_pos rfl, removeChange_eq_empty]
      simp
    | false =>
      rw [if_neg (by simp)]
      cases hgone : env.entry.init.isNone && becameUnavailable env with
      | true =>
        rw [if_pos rfl, removeChange_eq_empty]
        simp
      | false =>
        rw [if_neg (by simp), tiers_eq_empty]
        simp [Change.tiers, clear]

theorem working_fine : Working fine := ⟨rfl, rfl, rfl, rfl⟩

theorem getData_file {α : Type} {resource : AuthResource}
    {parseKeychain parseFile : String → Except RuntimeError α} {text : String}
    (hprimary : (tiers home resource profile).primary = none)
    (hsecondary : (tiers home resource profile).secondary = some text) :
    getData resource parseKeychain parseFile fine profile home = (parseFile text).map some := by
  have hentry : home.keychain (keyringService profile, user resource) = none := hprimary
  have hfile : home.files (profile, fileName resource) = some text := hsecondary
  simp only [getData, fine, KeychainUse.fine, keychainEntryOpt, getPassword, hentry, readFile,
    Disk.fine, hfile]
  rfl

/-- Working reads find nothing exactly when both places are empty. -/
theorem getData_none_iff {α : Type} {resource : AuthResource}
    {parseKeychain parseFile : String → Except RuntimeError α} :
    (∀ env, Working env → getData resource parseKeychain parseFile env profile home = .ok none) ↔
      tiers home resource profile = empty := by
  constructor
  · intro h
    have hfine := h fine working_fine
    rw [tiers_eq_empty]
    cases hprimary : (tiers home resource profile).primary with
    | some text =>
      rw [getData_reached rfl hprimary] at hfine
      cases hparse : parseKeychain text with
      | error e => rw [hparse] at hfine; cases hfine
      | ok x => rw [hparse] at hfine; cases hfine
    | none =>
      cases hsecondary : (tiers home resource profile).secondary with
      | none => exact ⟨rfl, rfl⟩
      | some text =>
        rw [getData_file hprimary hsecondary] at hfine
        cases hparse : parseFile text with
        | error e => rw [hparse] at hfine; cases hfine
        | ok x => rw [hparse] at hfine; cases hfine
  · intro h env hworking
    obtain ⟨hprimary, hsecondary⟩ := tiers_eq_empty.mp h
    have hentry : home.keychain (keyringService profile, user resource) = none := hprimary
    have hfile : home.files (profile, fileName resource) = none := hsecondary
    obtain ⟨henabled, hinit, hcall⟩ := of_reaches hworking.keychain
    simp only [getData, henabled, keychainEntryOpt, hinit, hcall, getPassword, hentry, readFile,
      hworking.path, Disk.seen, hworking.shown, hfile]
    rfl

end Removals

section Steps

variable {steps : LogoutSteps} {profile p : String} {s : Stored} {r : Reader}

theorem tiers_updateConfig (config : ConfigSteps) (profile : String) (s : Stored)
    (resource : AuthResource) (p : String) :
    tiers (updateConfig config profile s).2.home resource p = tiers s.home resource p := by
  unfold updateConfig
  split
  · rfl
  · dsimp only
    split
    · rfl
    · split
      · rfl
      · rfl

theorem configs_updateConfig_of_ne (config : ConfigSteps) {profile p : String} (h : p ≠ profile)
    (s : Stored) : (updateConfig config profile s).2.configs p = s.configs p := by
  unfold updateConfig
  split
  · rfl
  · dsimp only
    split
    · rfl
    · split
      · rfl
      · exact Function.update_of_ne h ..

theorem hasType_of_load {disk : RawUpdate.Disk} {label : String} {config : Typed}
    (h : RawUpdate.loadFile disk (s.config profile) label = .ok config) {e : String × FieldType}
    (he : e ∈ profileFields) {v : FieldValue} (hv : config.field e.1 = some v) :
    HasType e.2 v := by
  unfold RawUpdate.loadFile Stored.config at h
  cases hconfig : s.configs profile with
  | none =>
    rw [hconfig] at h
    cases h
    rw [field_defaultTyped] at hv
    cases hv
  | some stored =>
    rw [hconfig, Option.map_some] at h
    split at h
    · cases h
    · unfold loadStruct at h
      cases htyped : stored.text.typed with
      | error e =>
        simp only [htyped] at h
        cases h
      | ok loaded =>
        simp only [htyped] at h
        cases h
        exact stored.wellTyped config htyped e he v hv

/-- Clearing `client_id` leaves it unset in what is saved. -/
theorem clientIdAbsent_saved {config : Typed}
    (htyped : ∀ e ∈ profileFields, ∀ v, config.field e.1 = some v → HasType e.2 v)
    (h : s.configs profile = some (saved (clearClientId config))) : ClientIdAbsent s profile := by
  have hcleared : ∀ e ∈ profileFields, ∀ v, (clearClientId config).field e.1 = some v →
      HasType e.2 v := by
    intro e he v hv
    rw [field_clearClientId] at hv
    split_ifs at hv
    exact htyped e he v hv
  obtain ⟨loaded, hloaded, hfields⟩ := load_saved (configLabel profile) hcleared
  refine ⟨loaded, ?_, ?_⟩
  · rw [Stored.config, h]
    exact hloaded
  · have hmem : ("client_id", FieldType.string) ∈ profileFields := by decide
    rw [hfields _ hmem, field_clearClientId, if_pos rfl]

theorem updateConfig_cases (config : ConfigSteps) (profile : String) (s : Stored) :
    (ConfigUpdated config s profile ∧ (updateConfig config profile s).1 = .ok () ∧
      ClientIdAbsent (updateConfig config profile s).2 profile) ∨
    (¬ConfigUpdated config s profile ∧ (∃ e, (updateConfig config profile s).1 = .error e) ∧
      (updateConfig config profile s).2.configs = s.configs) := by
  unfold updateConfig
  cases hlock : config.lock with
  | some e =>
    refine .inr ⟨fun h => ?_, ⟨e, rfl⟩, rfl⟩
    cases hlock.symm.trans h.lock
  | none =>
    dsimp only
    have hsame : (Stored.config { s with home := Profiles.makeDir profile s.home } profile) =
        s.config profile := rfl
    rw [hsame]
    cases hload : RawUpdate.loadFile config.disk (s.config profile) (configLabel profile) with
    | error e =>
      refine .inr ⟨fun h => ?_, ⟨e, rfl⟩, rfl⟩
      obtain ⟨loaded, hloaded⟩ := h.load
      cases hload.symm.trans hloaded
    | ok loaded =>
      dsimp only
      cases hwrite : config.disk.write with
      | some e =>
        refine .inr ⟨fun h => ?_, ⟨_, rfl⟩, rfl⟩
        cases hwrite.symm.trans h.write
      | none =>
        refine .inl ⟨⟨hlock, ⟨loaded, hload⟩, hwrite⟩, rfl, ?_⟩
        exact clientIdAbsent_saved (fun e he v hv => hasType_of_load hload he hv)
          (Function.update_self ..)

theorem changes_secret (steps : LogoutSteps) (profile : String) (home : Home) :
    Changes home (deleteSecret steps.deleteSecret profile home).2 .clientSecret profile
      (deleteChange steps.deleteSecret (tiers home .clientSecret profile).secondary) :=
  deleteData_does.1

theorem changes_token (steps : LogoutSteps) (profile : String) (home : Home) :
    Changes home (deleteTokenData steps.deleteToken profile home).2 .token profile
      (if steps.deleteToken.lock.isSome then .fail false
        else deleteChange steps.deleteToken (tiers home .token profile).secondary) :=
  (withTokenLock_does deleteData_does).1

theorem tiers_secret_clearProfile (steps : LogoutSteps) (profile : String) (s : Stored) :
    tiers (clearProfile steps profile s).2.home .clientSecret profile =
      (deleteChange steps.deleteSecret (tiers s.home .clientSecret profile).secondary).tiers
        (tiers s.home .clientSecret profile) := by
  rw [clearProfile, tiers_updateConfig]
  exact ((changes_token steps profile _).other .clientSecret profile fun h => nomatch h.1).trans
    (changes_secret steps profile s.home).own

theorem tiers_token_clearProfile (steps : LogoutSteps) (profile : String) (s : Stored) :
    tiers (clearProfile steps profile s).2.home .token profile =
      (if steps.deleteToken.lock.isSome then Change.fail false
        else deleteChange steps.deleteToken (tiers s.home .token profile).secondary).tiers
          (tiers s.home .token profile) := by
  have hsecret : tiers (deleteSecret steps.deleteSecret profile s.home).2 .token profile =
      tiers s.home .token profile :=
    (changes_secret steps profile s.home).other .token profile fun h => nomatch h.1
  rw [clearProfile, tiers_updateConfig]
  rw [(changes_token steps profile _).own, hsecret]

theorem tiers_clearProfile_of_ne (steps : LogoutSteps) {profile p : String} (h : p ≠ profile)
    (s : Stored) (resource : AuthResource) :
    tiers (clearProfile steps profile s).2.home resource p = tiers s.home resource p := by
  rw [clearProfile, tiers_updateConfig]
  exact ((changes_token steps profile _).other resource p fun hsame => h hsame.2).trans
    ((changes_secret steps profile s.home).other resource p fun hsame => h hsame.2)

theorem config_clearProfile_of_ne (steps : LogoutSteps) {profile p : String} (h : p ≠ profile)
    (s : Stored) : (clearProfile steps profile s).2.configs p = s.configs p := by
  rw [clearProfile]
  exact configs_updateConfig_of_ne steps.config h _

/-- The credentials of a profile are gone exactly when the two removals empty their places. -/
theorem cleared_clearProfile (steps : LogoutSteps) (profile : String) (s : Stored) :
    (tiers (clearProfile steps profile s).2.home .clientSecret profile = empty ∧
      tiers (clearProfile steps profile s).2.home .token profile = empty) ↔
        CredentialsCleared steps s profile := by
  rw [tiers_secret_clearProfile, tiers_token_clearProfile, deleteChange_eq_empty]
  cases hlock : steps.deleteToken.lock with
  | none =>
    have hnone : ∀ t : Tiers String, t = empty → Clears steps.deleteToken t := by
      rintro t rfl
      exact ⟨.inl rfl, .inl rfl⟩
    rw [Option.isSome_none, if_neg (by simp), deleteChange_eq_empty]
    constructor
    · rintro ⟨hsecret, htoken⟩
      exact ⟨hsecret, .inl ⟨hlock, htoken⟩⟩
    · rintro ⟨hsecret, ⟨-, htoken⟩ | hempty⟩
      · exact ⟨hsecret, htoken⟩
      · exact ⟨hsecret, hnone _ hempty⟩
  | some e =>
    rw [Option.isSome_some, if_pos rfl]
    constructor
    · rintro ⟨hsecret, htoken⟩
      exact ⟨hsecret, .inr htoken⟩
    · rintro ⟨hsecret, ⟨hopen, -⟩ | hempty⟩
      · cases hlock.symm.trans hopen
      · exact ⟨hsecret, hempty⟩

theorem nothingLeft_iff : NothingLeft r s profile ↔
    (tiers s.home .clientSecret profile = empty ∧ tiers s.home .token profile = empty) ∧
      ClientIdAbsent s profile := by
  constructor
  · intro h
    exact ⟨⟨getData_none_iff.mp h.secret, getData_none_iff.mp h.token⟩, h.clientId⟩
  · rintro ⟨⟨hsecret, htoken⟩, hclient⟩
    exact ⟨getData_none_iff.mpr hsecret, getData_none_iff.mpr htoken, hclient⟩

theorem clientIdAbsent_congr {s' : Stored} (h : s'.configs profile = s.configs profile) :
    ClientIdAbsent s' profile ↔ ClientIdAbsent s profile := by
  rw [ClientIdAbsent, ClientIdAbsent, Stored.config, Stored.config, h]

theorem configUpdated_congr {config : ConfigSteps} {s' : Stored}
    (h : s'.configs profile = s.configs profile) :
    ConfigUpdated config s' profile ↔ ConfigUpdated config s profile := by
  have hconfig : s'.config profile = s.config profile := by
    rw [Stored.config, Stored.config, h]
  constructor
  · intro hupdated
    exact ⟨hupdated.lock, hconfig ▸ hupdated.load, hupdated.write⟩
  · intro hupdated
    exact ⟨hupdated.lock, hconfig.symm ▸ hupdated.load, hupdated.write⟩

theorem clientIdAbsent_clearProfile (steps : LogoutSteps) (profile : String) (s : Stored) :
    ClientIdAbsent (clearProfile steps profile s).2 profile ↔
      ConfigUpdated steps.config s profile ∨ ClientIdAbsent s profile := by
  let token := deleteTokenData steps.deleteToken profile
    (deleteSecret steps.deleteSecret profile s.home).2
  have hsame : ConfigUpdated steps.config { s with home := token.2 } profile ↔
      ConfigUpdated steps.config s profile := configUpdated_congr rfl
  have hcleared : clearProfile steps profile s =
      updateConfig steps.config profile { s with home := token.2 } := rfl
  rw [hcleared]
  rcases updateConfig_cases steps.config profile { s with home := token.2 } with
    ⟨hupdated, -, habsent⟩ | ⟨hkept, -, hconfigs⟩
  · exact ⟨fun _ => .inl (hsame.mp hupdated), fun _ => habsent⟩
  · rw [clientIdAbsent_congr (s := s) (congrFun hconfigs profile)]
    exact ⟨.inr, fun h => h.resolve_left fun hupdated => hkept (hsame.mpr hupdated)⟩

theorem nothingLeft_clearProfile (steps : LogoutSteps) (profile : String) (s : Stored) :
    NothingLeft r (clearProfile steps profile s).2 profile ↔
      CredentialsCleared steps s profile ∧
        (ConfigUpdated steps.config s profile ∨ ClientIdAbsent s profile) := by
  rw [nothingLeft_iff, cleared_clearProfile, clientIdAbsent_clearProfile]

theorem configUpdated_of_ok {s' : Stored} (h : clearProfile steps profile s = (.ok (), s')) :
    ConfigUpdated steps.config s profile := by
  let token := deleteTokenData steps.deleteToken profile
    (deleteSecret steps.deleteSecret profile s.home).2
  have hsame : ConfigUpdated steps.config { s with home := token.2 } profile ↔
      ConfigUpdated steps.config s profile := configUpdated_congr rfl
  have hcleared : updateConfig steps.config profile { s with home := token.2 } = (.ok (), s') := h
  rcases updateConfig_cases steps.config profile { s with home := token.2 } with
    ⟨hupdated, -, -⟩ | ⟨-, ⟨e, herror⟩, -⟩
  · exact hsame.mp hupdated
  · rw [hcleared] at herror
    cases herror

end Steps

section Runs

variable {steps : String → LogoutSteps} {profile : String} {s s' : Stored} {r : Reader}

structure Same (profile : String) (s s' : Stored) : Prop where
  tiers : ∀ resource, tiers s'.home resource profile = tiers s.home resource profile
  configs : s'.configs profile = s.configs profile

theorem Same.credentialsCleared (h : Same profile s s') {steps : LogoutSteps} :
    CredentialsCleared steps s' profile ↔ CredentialsCleared steps s profile := by
  have hsecret := h.tiers .clientSecret
  have htoken := h.tiers .token
  constructor
  · intro hcleared
    exact ⟨hsecret ▸ hcleared.secret, htoken ▸ hcleared.token⟩
  · intro hcleared
    exact ⟨hsecret.symm ▸ hcleared.secret, htoken.symm ▸ hcleared.token⟩

theorem Same.nothingLeft (h : Same profile s s') :
    NothingLeft r s' profile ↔ NothingLeft r s profile := by
  rw [nothingLeft_iff, nothingLeft_iff, h.tiers, h.tiers, clientIdAbsent_congr h.configs]

/-- Clearing other profiles leaves what is stored for one. -/
theorem same_foldl {names : List String} (h : profile ∉ names) (s : Stored) :
    Same profile s (names.foldl (fun s name => (clearProfile (steps name) name s).2) s) := by
  induction names generalizing s with
  | nil => exact ⟨fun _ => rfl, rfl⟩
  | cons name rest ih =>
    have hne : profile ≠ name := fun heq => h (heq ▸ List.mem_cons_self)
    have hrest := ih (fun hmem => h (List.mem_cons_of_mem name hmem))
      (clearProfile (steps name) name s).2
    refine ⟨fun resource => ?_, ?_⟩
    · exact (hrest.tiers resource).trans (tiers_clearProfile_of_ne (steps name) hne s resource)
    · exact hrest.configs.trans (config_clearProfile_of_ne (steps name) hne s)

theorem nothingLeft_foldl {names : List String} (hnodup : names.Nodup) (hmem : profile ∈ names)
    (s : Stored) :
    NothingLeft r (names.foldl (fun s name => (clearProfile (steps name) name s).2) s) profile ↔
      CredentialsCleared (steps profile) s profile ∧
        (ConfigUpdated (steps profile).config s profile ∨ ClientIdAbsent s profile) := by
  obtain ⟨before, after, rfl⟩ := List.append_of_mem hmem
  have hbefore : profile ∉ before := fun h =>
    (List.nodup_append.mp hnodup).2.2 _ h _ List.mem_cons_self rfl
  have hafter : profile ∉ after :=
    (List.nodup_cons.mp (List.nodup_append.mp hnodup).2.1).1
  have hturn : Same profile s
      (before.foldl (fun s name => (clearProfile (steps name) name s).2) s) :=
    same_foldl hbefore s
  rw [List.foldl_append, List.foldl_cons, (same_foldl hafter _).nothingLeft,
    nothingLeft_clearProfile, hturn.credentialsCleared, configUpdated_congr hturn.configs,
    clientIdAbsent_congr hturn.configs]

theorem logoutProfile_ok {steps : LogoutSteps} (h : (clearProfile steps profile s).1 = .ok ()) :
    ∃ report, logoutProfile r steps profile s =
      (.ok report, (clearProfile steps profile s).2) := by
  unfold logoutProfile
  cases hclear : clearProfile steps profile s with
  | mk result after =>
    rw [hclear] at h
    cases h
    exact ⟨_, rfl⟩

/-- A logout that succeeds leaves nothing behind exactly when the two credential removals, whose
results it drops, emptied their places; the logout of all profiles drops the config's too. -/
theorem logout_leaves_nothing_iff (r : Reader) :
    (∀ steps profile s report s', logoutProfile r steps profile s = (.ok report, s') →
      (NothingLeft r s' profile ↔ CredentialsCleared steps s profile)) ∧
    (∀ listed steps s cleared s', logoutAllProfiles listed steps s = (.ok cleared, s') →
      ∀ profile ∈ cleared, (NothingLeft r s' profile ↔
        CredentialsCleared (steps profile) s profile ∧
          (ConfigUpdated (steps profile).config s profile ∨ ClientIdAbsent s profile))) := by
  constructor
  · intro steps profile s report s' h
    rw [logoutProfile] at h
    cases hclear : clearProfile steps profile s with
    | mk result after =>
      rw [hclear] at h
      cases result with
      | error e => cases h
      | ok u =>
        cases h
        have hleft := nothingLeft_clearProfile (r := r) steps profile s
        rw [hclear] at hleft
        rw [hleft]
        exact and_iff_left (.inl (configUpdated_of_ok hclear))
  · intro listed steps s cleared s' h profile hprofile
    cases listed with
    | error e => cases h
    | ok profiles =>
      cases h
      exact nothingLeft_foldl profiles.nodup hprofile s

/-- A client secret in the keychain, a token in its file, and no config. -/
def withCredentials : Stored :=
  ⟨⟨Function.update (fun _ => none) (keyringService "default", keyringUser) (some "s3cret"),
    fun _ => true, Function.update (fun _ => none) ("default", fileName .token)
      (some (session "a").json)⟩, fun _ => none⟩

def workingSteps : LogoutSteps :=
  ⟨⟨none, none⟩, fine, fine, fine, fine, ⟨"config.json", none, ⟨none, none⟩⟩⟩

theorem logout_leaves_nothing_default :
    getSecret fine "default" withCredentials.home = .ok (some "s3cret") ∧
      getTokenData textReader fine "default" withCredentials.home = .ok (some (session "a")) ∧
      ∃ report s', logoutProfile textReader workingSteps "default" withCredentials =
        (.ok report, s') ∧ NothingLeft textReader s' "default" := by
  have htoken : getTokenData textReader fine "default" withCredentials.home =
      .ok (some (session "a")) := by
    rw [getTokenData, getData_file rfl rfl, parseToken_json]
    rfl
  have hfiles : RemovesFiles fine.disk := ⟨rfl, rfl, rfl⟩
  have hcleared : CredentialsCleared workingSteps withCredentials "default" :=
    ⟨⟨.inr rfl, .inr ⟨rfl, hfiles⟩⟩, .inl ⟨rfl, .inr rfl, .inr ⟨rfl, hfiles⟩⟩⟩
  obtain ⟨report, hlogout⟩ : ∃ report, logoutProfile textReader workingSteps "default"
      withCredentials = (.ok report, _) := logoutProfile_ok rfl
  exact ⟨rfl, htoken, report, _, hlogout,
    ((logout_leaves_nothing_iff textReader).1 _ _ _ report _ hlogout).mpr hcleared⟩

/-- A profile with a client secret in the keychain and no config file. -/
def withSecret : Stored :=
  ⟨⟨Function.update (fun _ => none) (keyringService "default", keyringUser) (some "s3cret"),
    fun _ => true, fun _ => none⟩, fun _ => none⟩

/-- The keychain refuses to be opened while the user logs out. -/
def lockedKeychain : Surroundings :=
  { fine with entry := ⟨none, some (.noStorageAccess "User interaction is not allowed.")⟩ }

def logoutSteps : LogoutSteps :=
  ⟨⟨none, none⟩, fine, fine, lockedKeychain, lockedKeychain, "config.json", none, ⟨none, none⟩⟩

/-- With the keychain locked the logout succeeds, and the secret is there afterwards. -/
theorem secret_left_behind : ∃ report s',
    logoutProfile textReader logoutSteps "default" withSecret = (.ok report, s') ∧
      report.hadClientSecret = true ∧ Working fine ∧
      getSecret fine "default" s'.home = .ok (some "s3cret") ∧
      ¬NothingLeft textReader s' "default" := by
  refine ⟨_, _, rfl, rfl, working_fine, rfl, fun h => ?_⟩
  have hnone := h.secret fine working_fine
  cases hnone

end Runs

end Logout
