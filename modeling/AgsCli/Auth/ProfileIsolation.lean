import AgsCli.Auth.Coherence
import AgsCli.Auth.Profiles

/-! # Isolation of profiles

No keychain entry outlives the directory of its profile as long as removals and renames reach the
keychain: then a new profile starts without credentials, and a renamed one keeps its own. -/
namespace ProfileIsolation

open ProtocolError AuthErrors AuthToken AuthStore Json TwoTiers CredentialCoherence Profiles

section Definitions

inductive Command
  | create (steps : CreateSteps) (name : String)
  | delete (steps : DeleteSteps) (name : String)
  | rename (steps : RenameSteps) (old new : String)
  | login (steps : LoginSteps) (profile : String) (tokenData : TokenData)
      (clientSecret : Option String)
  | logout (steps : LogoutSteps) (profile : String)

def next (r : Reader) (i : Installation) : Command → Installation
  | .create steps name => (profileCreate steps name i).2
  | .delete steps name => (profileDelete steps name i).2
  | .rename steps old new => (profileRename r steps old new i).2
  | .login steps profile tokenData clientSecret =>
    { i with home := (persistLogin steps profile tokenData clientSecret i.home).2 }
  | .logout steps profile => { i with home := (logoutProfile steps profile i.home).2 }

def system (r : Reader) : Events.System Installation Command := ⟨fun _ _ => True, next r⟩

def nothing : Installation := ⟨⟨fun _ => none, fun _ => false, fun _ => none⟩, none⟩

/-- No credential of the profile can be read, whatever the surroundings. -/
def Unreadable (r : Reader) (home : Home) (profile : String) : Prop :=
  ∀ env, (∀ secret, getSecret env profile home ≠ .ok (some secret)) ∧
    ∀ tokenData, getTokenData r env profile home ≠ .ok (some tokenData)

structure SameReads (r : Reader) (home : Home) (profile : String) (home' : Home)
    (profile' : String) : Prop where
  config : home'.files (profile', configName) = home.files (profile, configName)
  secret : ∀ env, (getSecret env profile' home').toOption = (getSecret env profile home).toOption
  token : ∀ env,
    (getTokenData r env profile' home').toOption = (getTokenData r env profile home).toOption

def entry (home : Home) (resource : AuthResource) (profile : String) : Option String :=
  (tiers home resource profile).primary

/-- A command leaves no keychain entry of a profile without a directory: a removal reaches the
entries it is to remove, a rename reads, stores and removes them in the keychain, and a login that
stores a token there has a directory for it. -/
def Tidy (i : Installation) : Command → Prop
  | .create _ _ | .logout _ _ => True
  | .delete steps name => ∀ n, validateProfileName name = .ok n → i.home.dirs n = true →
    steps.removeDir = none →
      (entry i.home .clientSecret n = none ∨ reaches steps.secret = true) ∧
      (entry i.home .token n = none ∨ (steps.token.lock = none ∧ reaches steps.token = true))
  | .rename steps old new => ∀ o n, validateProfileName old = .ok o →
    validateProfileName new = .ok n → i.home.dirs o = true → i.home.dirs n = false →
    steps.renameDir = none →
      (entry i.home .clientSecret o = none ∨ (reaches steps.getSecret = true ∧
        reaches steps.storeSecret = true ∧ reaches steps.deleteSecret = true)) ∧
      ∀ text, entry i.home .token o = some text → reaches steps.getToken = true ∧
        steps.locks = none ∧ reaches steps.storeToken = true ∧
        exceedsWindowsCredmanLimit steps.storeToken.windows text = false ∧
        reaches steps.deleteToken = true
  | .login steps profile tokenData _ => i.home.dirs profile = true ∨
    steps.config.createDir = none ∨ ∀ json, tokenChange steps.storeToken tokenData.json ≠ .put json

end Definitions

section Homes

variable {home home' home'' : Home} {profile : String}

/-- What a store does outside the places of its credential: it may make the directory, and puts
files only where there is one. -/
structure Grows (home home' : Home) (profile : String) : Prop where
  otherDirs : ∀ p, p ≠ profile → home'.dirs p = home.dirs p
  ownDir : home.dirs profile = true → home'.dirs profile = true
  otherFiles : ∀ key, key.1 ≠ profile → home'.files key = home.files key
  ownFiles : ∀ f, home'.files (profile, f) = home.files (profile, f) ∨ home'.dirs profile = true
  config : home'.files (profile, configName) = home.files (profile, configName)

theorem Grows.refl (home : Home) (profile : String) : Grows home home profile :=
  ⟨fun _ _ => rfl, id, fun _ _ => rfl, fun _ => Or.inl rfl, rfl⟩

theorem Grows.keychain (h : Grows home home' profile) (keychain : KeychainEntry → Option String) :
    Grows home { home' with keychain := keychain } profile :=
  ⟨h.otherDirs, h.ownDir, h.otherFiles, h.ownFiles, h.config⟩

theorem Grows.makeDir (h : Grows home home' profile) :
    Grows home (makeDir profile home') profile where
  otherDirs p hp := (Function.update_of_ne hp ..).trans (h.otherDirs p hp)
  ownDir _ := Function.update_self ..
  otherFiles := h.otherFiles
  ownFiles _ := Or.inr (Function.update_self ..)
  config := h.config

theorem configName_ne (resource : AuthResource) : configName ≠ fileName resource := by
  cases resource with
  | clientSecret => decide
  | token => decide

theorem Grows.file (h : Grows home home' profile) (hdir : home'.dirs profile = true)
    (resource : AuthResource) (text : String) :
    Grows home { home' with
      files := Function.update home'.files (profile, fileName resource) (some text) } profile where
  otherDirs := h.otherDirs
  ownDir := h.ownDir
  otherFiles key hkey :=
    (Function.update_of_ne (fun heq => hkey (congrArg Prod.fst heq)) ..).trans (h.otherFiles key hkey)
  ownFiles _ := Or.inr hdir
  config := by
    have hne : (profile, configName) ≠ (profile, fileName resource) := fun heq =>
      configName_ne resource (congrArg Prod.snd heq)
    exact (Function.update_of_ne hne ..).trans h.config

theorem Grows.writeFile (h : Grows home home' profile) (resource : AuthResource) (disk : Disk)
    (text : String) : Grows home (writeFile resource disk profile text home').2 profile := by
  rw [AuthStore.writeFile]
  split
  · exact h
  · exact h
  · cases disk.write with
    | some source => exact h.makeDir
    | none => exact h.makeDir.file (Function.update_self ..) resource text

/-- What a removal does outside the keychain: it may remove files. -/
structure Shrinks (home home' : Home) : Prop where
  dirs : home'.dirs = home.dirs
  files : ∀ key, home'.files key = home.files key ∨ home'.files key = none
  config : ∀ p, home'.files (p, configName) = home.files (p, configName)

theorem Shrinks.refl (home : Home) : Shrinks home home := ⟨rfl, fun _ => Or.inl rfl, fun _ => rfl⟩

theorem Shrinks.keychain (h : Shrinks home home') (keychain : KeychainEntry → Option String) :
    Shrinks home { home' with keychain := keychain } := ⟨h.dirs, h.files, h.config⟩

theorem Shrinks.removeFile (h : Shrinks home home') (resource : AuthResource) (disk : Disk) :
    Shrinks home (removeFile resource disk profile home').2 := by
  rw [AuthStore.removeFile]
  split
  · exact h
  · split
    · exact h
    · exact h
    · refine ⟨h.dirs, fun key => ?_, fun p => ?_⟩
      · by_cases hkey : key = (profile, fileName resource)
        · exact Or.inr (hkey ▸ Function.update_self ..)
        · exact (h.files key).imp (Function.update_of_ne hkey ..).trans
            (Function.update_of_ne hkey ..).trans
      · have hne : (p, configName) ≠ (profile, fileName resource) := fun heq =>
          configName_ne resource (congrArg Prod.snd heq)
        exact (Function.update_of_ne hne ..).trans (h.config p)

theorem deleteData_shrinks (resource : AuthResource) (env : Surroundings) (profile : String)
    (home : Home) : Shrinks home (deleteData resource env profile home).2 := by
  rw [deleteData]
  split
  · exact (Shrinks.refl home).removeFile resource _
  · split
    · exact .refl home
    · exact (Shrinks.refl home).removeFile resource _
    · next entry _ =>
      cases hdelete : deleteCredential env.entry.call entry home with
      | ok home' =>
        refine Shrinks.removeFile ?_ resource _
        rw [deleteCredential.eq_def] at hdelete
        split at hdelete
        · cases hdelete
        · split at hdelete
          · cases hdelete
            exact (Shrinks.refl home).keychain _
          · cases hdelete
      | error error =>
        cases error with
        | noEntry => exact (Shrinks.refl home).removeFile resource _
        | fault f =>
          dsimp only
          split
          · exact (Shrinks.refl home).removeFile resource _
          · exact .refl home

theorem withTokenLock_shrinks {α : Type} {env : Surroundings}
    {result : Except RuntimeError α × Home} (h : Shrinks home result.2) :
    Shrinks home (withTokenLock env home result).2 := by
  rw [withTokenLock]
  split
  · exact .refl home
  · exact h

theorem setPassword_grows {call : Option Fault} {e : KeychainEntry} {text : String}
    (h : setPassword call e text home = .ok home') : Grows home home' profile := by
  rw [setPassword.eq_def] at h
  split at h
  · cases h
  · cases h
    exact (Grows.refl home profile).keychain _

theorem storeSecret_grows (env : Surroundings) (profile secret : String) (home : Home) :
    Grows home (storeSecret env profile secret home).2 profile := by
  rw [storeSecret]
  cases hattempt : secretAttempt env profile secret home with
  | failed e => exact .refl home profile
  | fallBack warning => exact (Grows.refl home profile).writeFile .clientSecret _ _
  | stored home' =>
    rw [secretAttempt] at hattempt
    split at hattempt
    · cases hattempt
    · split at hattempt
      · cases hattempt
      · cases hattempt
      · split at hattempt
        · next hset =>
          cases hattempt
          exact setPassword_grows hset
        · split at hattempt
          · cases hattempt
          · cases hattempt

theorem clearKeychainTokenEntry_grows (env : Surroundings) (profile : String) (home : Home) :
    Grows home (clearKeychainTokenEntry env profile home) profile := by
  rw [clearKeychainTokenEntry]
  split
  · exact .refl home profile
  · split
    · next entry _ =>
      cases hdelete : deleteCredential env.clearing.call entry home with
      | error error => exact .refl home profile
      | ok home' =>
        rw [deleteCredential.eq_def] at hdelete
        split at hdelete
        · cases hdelete
        · split at hdelete
          · cases hdelete
            exact (Grows.refl home profile).keychain _
          · cases hdelete
    · exact .refl home profile

theorem storeTokenDataUnlocked_grows (env : Surroundings) (profile : String)
    (tokenData : TokenData) (home : Home) :
    Grows home (storeTokenDataUnlocked env profile tokenData home).2 profile := by
  rw [storeTokenDataUnlocked]
  cases hattempt : tokenAttempt env profile tokenData.json home with
  | failed e => exact .refl home profile
  | fallBack warning =>
    have hgrows := (clearKeychainTokenEntry_grows env profile home).writeFile .token env.disk
      tokenData.json
    dsimp only
    split
    · next hwrite =>
      rw [hwrite] at hgrows
      exact hgrows
    · next hwrite =>
      rw [hwrite] at hgrows
      exact hgrows
  | stored home' =>
    rw [tokenAttempt] at hattempt
    split at hattempt
    · cases hattempt
    · split at hattempt
      · cases hattempt
      · split at hattempt
        · cases hattempt
        · cases hattempt
        · split at hattempt
          · next hset =>
            cases hattempt
            exact setPassword_grows hset
          · split at hattempt
            · cases hattempt
            · cases hattempt

end Homes

section Soundness

variable {home home' home'' : Home} {profile : String} {resource : AuthResource}
  {c : Change String}

/-- Files and keychain entries are those of existing profiles, and token texts are texts of
tokens. -/
structure Sound (home : Home) : Prop where
  filesDir : ∀ p f, home.dirs p = false → home.files (p, f) = none
  noOrphan : ∀ p resource, home.dirs p = false → entry home resource p = none
  written : ∀ p text, (tiers home .token p).primary = some text ∨
    (tiers home .token p).secondary = some text → ∃ tokenData : TokenData, text = tokenData.json

theorem dirs_false (hgrows : Grows home home' profile) {p : String} (h : home'.dirs p = false) :
    home.dirs p = false := by
  by_cases hp : p = profile
  · subst hp
    cases hdir : home.dirs p with
    | false => rfl
    | true => exact nomatch h.symm.trans (hgrows.ownDir hdir)
  · rw [← hgrows.otherDirs p hp]
    exact h

theorem written_of_changes (hs : Sound home) (hchanges : Changes home home' resource profile c)
    (hvalue : ∀ text, resource = .token → c.lastAfter none = some text →
      ∃ tokenData : TokenData, text = tokenData.json) (p text : String)
    (h : (tiers home' .token p).primary = some text ∨
      (tiers home' .token p).secondary = some text) :
    ∃ tokenData : TokenData, text = tokenData.json := by
  by_cases hsame : AuthResource.token = resource ∧ p = profile
  · obtain ⟨rfl, rfl⟩ := hsame
    rw [hchanges.own] at h
    rcases Change.held_or_written h with hheld | hwritten
    · exact hs.written p text hheld
    · exact hvalue text rfl hwritten
  · rw [hchanges.other _ p hsame] at h
    exact hs.written p text h

theorem sound_store (hs : Sound home) (hgrows : Grows home home' profile)
    (hchanges : Changes home home' resource profile c)
    (hvalue : ∀ text, resource = .token → c.lastAfter none = some text →
      ∃ tokenData : TokenData, text = tokenData.json)
    (horphan : home'.dirs profile = false → (tiers home resource profile).primary = none →
      (c.tiers (tiers home resource profile)).primary = none) : Sound home' where
  filesDir p f hdir := by
    have hbefore := dirs_false hgrows hdir
    by_cases hp : p = profile
    · subst hp
      rcases hgrows.ownFiles f with hsame | hmade
      · rw [hsame]
        exact hs.filesDir p f hbefore
      · exact nomatch hdir.symm.trans hmade
    · rw [hgrows.otherFiles (p, f) hp]
      exact hs.filesDir p f hbefore
  noOrphan p r hdir := by
    have hbefore := hs.noOrphan p r (dirs_false hgrows hdir)
    by_cases hsame : r = resource ∧ p = profile
    · obtain ⟨rfl, rfl⟩ := hsame
      rw [entry, hchanges.own]
      exact horphan hdir hbefore
    · rw [entry, hchanges.other r p hsame]
      exact hbefore
  written := written_of_changes hs hchanges hvalue

/-- A change that puts nothing in the keychain fills no empty entry. -/
theorem primary_none {t : Tiers String} (hput : ∀ text, c ≠ .put text) (h : t.primary = none) :
    (c.tiers t).primary = none := by
  have hclear : ∀ cleared, clear cleared t.primary = none := by
    rw [h]
    rintro (_ | _)
    · rfl
    · rfl
  cases c with
  | put text => exact absurd rfl (hput text)
  | fallBack text cleared => exact hclear cleared
  | remove reached => exact hclear reached
  | fail cleared => exact hclear cleared

/-- A change that writes nothing. -/
def Removes (c : Change String) : Prop := (∀ text, c ≠ .put text) ∧ c.lastAfter none = none

theorem removes_fail (cleared : Bool) : Removes (.fail cleared) := ⟨fun _ => nofun, rfl⟩

theorem removes_removeChange {env : Surroundings} (file : Option String) (reached : Bool) :
    Removes (removeChange env file reached) := by
  rw [removeChange]
  split_ifs
  · refine ⟨fun _ hput => ?_, rfl⟩
    cases hput
  · exact removes_fail reached

theorem removes_deleteChange {env : Surroundings} (file : Option String) :
    Removes (deleteChange env file) := by
  rw [deleteChange]
  split_ifs
  · exact removes_removeChange file false
  · exact removes_removeChange file true
  · exact removes_removeChange file false
  · exact removes_fail false

theorem sound_shrink (hs : Sound home) (hshrinks : Shrinks home home')
    (hchanges : Changes home home' resource profile c) (hremoves : Removes c) : Sound home' where
  filesDir p f hdir := by
    rw [hshrinks.dirs] at hdir
    rcases hshrinks.files (p, f) with hsame | hnone
    · rw [hsame]
      exact hs.filesDir p f hdir
    · exact hnone
  noOrphan p r hdir := by
    rw [hshrinks.dirs] at hdir
    have hbefore := hs.noOrphan p r hdir
    by_cases hsame : r = resource ∧ p = profile
    · obtain ⟨rfl, rfl⟩ := hsame
      rw [entry, hchanges.own]
      exact primary_none hremoves.1 hbefore
    · rw [entry, hchanges.other r p hsame]
      exact hbefore
  written := written_of_changes hs hchanges fun _ _ h => (nomatch hremoves.2.symm.trans h)

theorem sound_deleteSecret (hs : Sound home) (env : Surroundings) (profile : String) :
    Sound (deleteSecret env profile home).2 :=
  sound_shrink hs (deleteData_shrinks ..) deleteData_does.1 (removes_deleteChange _)

theorem removes_locked {env : Surroundings} (file : Option String) :
    Removes (if env.lock.isSome then .fail false else deleteChange env file) := by
  split_ifs
  · exact removes_fail false
  · exact removes_deleteChange file

theorem sound_deleteTokenData (hs : Sound home) (env : Surroundings) (profile : String) :
    Sound (deleteTokenData env profile home).2 :=
  sound_shrink hs (withTokenLock_shrinks (deleteData_shrinks ..))
    (withTokenLock_does deleteData_does).1 (removes_locked _)

theorem tiers_writeConfig (profile text : String) (home : Home) (r : AuthResource) (p : String) :
    tiers (writeConfig profile text home) r p = tiers home r p := by
  have hne : (p, fileName r) ≠ (profile, configName) := fun heq =>
    configName_ne r (congrArg Prod.snd heq).symm
  exact congrArg₂ Tiers.mk rfl (Function.update_of_ne hne ..)

theorem sound_makeDir (hs : Sound home) (profile : String) : Sound (makeDir profile home) := by
  have hgrows := (Grows.refl home profile).makeDir
  have hsame : Changes home (makeDir profile home) .token profile (.fail false) :=
    ⟨rfl, fun _ _ _ => rfl⟩
  exact sound_store hs hgrows hsame (fun _ _ h => nomatch h) fun hdir _ =>
    nomatch hdir.symm.trans (Function.update_self ..)

theorem sound_writeConfig (hs : Sound home) (hdir : home.dirs profile = true) (text : String) :
    Sound (writeConfig profile text home) where
  filesDir p f h := by
    have hne : (p, f) ≠ (profile, configName) := by
      intro heq
      rw [(Prod.mk.inj heq).1] at h
      exact nomatch h.symm.trans hdir
    exact (Function.update_of_ne hne ..).trans (hs.filesDir p f h)
  noOrphan p r h := by
    rw [entry, tiers_writeConfig]
    exact hs.noOrphan p r h
  written p text h := by
    rw [tiers_writeConfig] at h
    exact hs.written p text h

theorem makeDir_dirs (profile : String) (home : Home) : (makeDir profile home).dirs profile = true :=
  Function.update_self ..

/-- The update of a config leaves a sound home when it starts from one, or makes the directory. -/
theorem sound_updateConfig (config : ConfigUpdate) (hmade : Sound (makeDir profile home))
    (hs : config.createDir ≠ none → Sound home) :
    Sound (updateConfig config profile home).2 ∧
      ((updateConfig config profile home).1 = .ok () →
        (updateConfig config profile home).2.dirs profile = true) := by
  rw [updateConfig]
  cases hdir : config.createDir with
  | some e => exact ⟨hs (by rw [hdir]; exact nofun), nofun⟩
  | none =>
    dsimp only
    cases config.update _ with
    | error e => exact ⟨hmade, nofun⟩
    | ok text =>
      exact ⟨sound_writeConfig hmade (makeDir_dirs ..) text, fun _ => makeDir_dirs ..⟩

end Soundness

section Commands

variable {i : Installation} {home : Home} {profile : String}

theorem sound_create (hs : Sound i.home) (steps : CreateSteps) (name : String) :
    Sound (profileCreate steps name i).2.home := by
  rw [profileCreate]
  split
  · exact hs
  · exact hs
  · next n hname hconfig =>
    split
    · exact hs
    · have hensure : Sound (ensureProfileExists steps n i).2.home := by
        rw [ensureProfileExists]
        split
        · exact hs
        · split
          · exact hs
          · split
            · exact sound_makeDir hs n
            · exact sound_writeConfig (sound_makeDir hs n) (makeDir_dirs ..) _
      split
      · next h =>
        rw [h] at hensure
        exact hensure
      · next h =>
        rw [h] at hensure
        exact hensure

theorem settled_token {env : Surroundings} (tokenData : TokenData) (text : String)
    (h : (tokenChange env tokenData.json).lastAfter none = some text) :
    ∃ tokenData : TokenData, text = tokenData.json := by
  rw [settles_tokenChange] at h
  split_ifs at h
  exact ⟨tokenData, (Option.some.inj h).symm⟩

theorem not_put_of_failed {c : Change String} (h : c.succeeds = false) (text : String) :
    c ≠ .put text := by
  rintro rfl
  cases h

theorem sound_login (hs : Sound home) (steps : LoginSteps) (tokenData : TokenData)
    (clientSecret : Option String)
    (htidy : home.dirs profile = true ∨ steps.config.createDir = none ∨
      ∀ json, tokenChange steps.storeToken tokenData.json ≠ .put json) :
    Sound (persistLogin steps profile tokenData clientSecret home).2 := by
  have hdoes : Does home (storeTokenData steps.storeToken profile tokenData home) .token profile
      (tokenChange steps.storeToken tokenData.json) :=
    withTokenLock_does (storeTokenDataUnlocked_does tokenData)
  have hgrows : Grows home (storeTokenData steps.storeToken profile tokenData home).2 profile := by
    rw [storeTokenData, withTokenLock]
    split
    · exact .refl home profile
    · exact storeTokenDataUnlocked_grows ..
  have hvalue : ∀ text, AuthResource.token = .token →
      (tokenChange steps.storeToken tokenData.json).lastAfter none = some text →
        ∃ tokenData : TokenData, text = tokenData.json := fun text _ => settled_token tokenData text
  rw [persistLogin]
  cases hstore : storeTokenData steps.storeToken profile tokenData home with
  | mk result home' =>
    rw [hstore] at hdoes hgrows
    obtain ⟨hchanges, hok⟩ := hdoes
    have hkept : (∀ text, tokenChange steps.storeToken tokenData.json ≠ .put text) →
        Sound home' := fun hput =>
      sound_store hs hgrows hchanges hvalue fun _ => primary_none hput
    cases result with
    | error e => exact hkept (not_put_of_failed hok.symm)
    | ok warning =>
      have hmade : Sound (makeDir profile home') :=
        sound_store hs hgrows.makeDir ⟨hchanges.own, hchanges.other⟩ hvalue fun hdir _ => by
          cases hdir.symm.trans (makeDir_dirs ..)
      have hwithout : steps.config.createDir ≠ none → Sound home' := by
        intro hcreate
        rcases htidy with hdir | hnone | hput
        · exact sound_store hs hgrows hchanges hvalue fun hfalse _ => by
            cases hfalse.symm.trans (hgrows.ownDir hdir)
        · exact absurd hnone hcreate
        · exact hkept hput
      obtain ⟨hsound, hdir⟩ := sound_updateConfig steps.config hmade hwithout
      dsimp only
      cases hupdate : updateConfig steps.config profile home' with
      | mk result' home'' =>
        rw [hupdate] at hsound hdir
        cases result' with
        | error e => exact hsound
        | ok u =>
          cases clientSecret with
          | none => exact hsound
          | some secret =>
            have hsecret := storeSecret_grows steps.storeSecret profile secret home''
            refine sound_store hsound hsecret (storeSecret_does secret).1 (fun _ htoken => ?_)
              fun hfalse _ => ?_
            · cases htoken
            · cases hfalse.symm.trans (hsecret.ownDir (hdir rfl))

theorem sound_logout (hs : Sound home) (steps : LogoutSteps) :
    Sound (logoutProfile steps profile home).2 := by
  have hdeleted := sound_deleteTokenData (sound_deleteSecret hs steps.deleteSecret profile)
    steps.deleteToken profile
  exact (sound_updateConfig steps.config (sound_makeDir hdeleted profile) fun _ => hdeleted).1

theorem files_dropFiles (name : String) (kept : String → Bool) (key : String × String) :
    (dropFiles name kept home).files key = home.files key ∨
      (dropFiles name kept home).files key = none := by
  by_cases hkey : key.1 = name ∧ kept key.2 = false
  · exact Or.inr (if_pos hkey)
  · exact Or.inl (if_neg hkey)

theorem sound_dropFiles (hs : Sound home) (name : String) (kept : String → Bool) :
    Sound (dropFiles name kept home) where
  filesDir p f hdir := by
    rcases @files_dropFiles home name kept (p, f) with hsame | hnone
    · rw [hsame]
      exact hs.filesDir p f hdir
    · exact hnone
  noOrphan := hs.noOrphan
  written p text h := by
    refine hs.written p text (h.imp id fun hfile => ?_)
    rcases @files_dropFiles home name kept (p, fileName .token) with hsame | hnone
    · exact hsame.symm.trans hfile
    · exact nomatch hnone.symm.trans hfile

theorem sound_removeDirAll (hs : Sound home) {name : String}
    (hempty : ∀ r, entry home r name = none) : Sound (removeDirAll name home) where
  filesDir p f hdir := by
    by_cases hp : p = name
    · exact if_pos ⟨hp, rfl⟩
    · have hkept : (removeDirAll name home).dirs p = home.dirs p := Function.update_of_ne hp ..
      have hbefore := hkept.symm.trans hdir
      exact (if_neg fun h => hp h.1).trans (hs.filesDir p f hbefore)
  noOrphan p r hdir := by
    by_cases hp : p = name
    · subst hp
      exact hempty r
    · have hkept : (removeDirAll name home).dirs p = home.dirs p := Function.update_of_ne hp ..
      have hbefore := hkept.symm.trans hdir
      exact hs.noOrphan p r hbefore
  written := (sound_dropFiles hs name fun _ => false).written

theorem deleteChange_reached {env : Surroundings} (h : reaches env = true)
    (file : Option String) : deleteChange env file = removeChange env file true := by
  obtain ⟨hdisabled, hinit, hcall⟩ := of_reaches h
  simp only [deleteChange, noKeychain, KeychainUse.works, hdisabled, hinit, hcall]
  rfl

/-- A removal that reaches the keychain, or finds no entry there, leaves none. -/
theorem entry_deleteData {resource : AuthResource} {env : Surroundings}
    (h : entry home resource profile = none ∨ reaches env = true) :
    (Change.tiers (tiers home resource profile)
      (deleteChange env (tiers home resource profile).secondary)).primary = none := by
  rcases h with hnone | hreached
  · exact primary_none (removes_deleteChange _).1 hnone
  · rw [deleteChange_reached hreached, removeChange]
    split_ifs
    · rfl
    · rfl

theorem sound_delete (hs : Sound i.home) (steps : DeleteSteps) (name : String)
    (htidy : Tidy i (.delete steps name)) : Sound (profileDelete steps name i).2.home := by
  rw [profileDelete]
  split
  · exact hs
  · exact hs
  · next n hname hconfig =>
    by_cases hdir : i.home.dirs n = true
    · rw [if_pos hdir]
      have hsecret := sound_deleteSecret hs steps.secret n
      have htoken := sound_deleteTokenData hsecret steps.token n
      dsimp only
      cases hremove : steps.removeDir with
      | some removal => exact sound_dropFiles htoken n removal.2
      | none =>
        obtain ⟨hsecretTidy, htokenTidy⟩ := htidy n hname hdir hremove
        refine sound_removeDirAll htoken fun r => ?_
        have hlocked : Changes (deleteSecret steps.secret n i.home).2
            (deleteTokenData steps.token n (deleteSecret steps.secret n i.home).2).2 .token n _ :=
          (withTokenLock_does deleteData_does).1
        cases r with
        | clientSecret =>
          have hother := hlocked.other .clientSecret n fun h => nomatch h.1
          exact (congrArg Tiers.primary hother).trans
            ((congrArg Tiers.primary deleteData_does.1.own).trans (entry_deleteData hsecretTidy))
        | token =>
          have hother : tiers (deleteSecret steps.secret n i.home).2 .token n =
              tiers i.home .token n := deleteData_does.1.other .token n fun h => nomatch h.1
          refine (congrArg Tiers.primary hlocked.own).trans ?_
          rw [hother]
          rcases htokenTidy with hnone | ⟨hlock, hreached⟩
          · exact primary_none (removes_locked _).1 hnone
          · rw [hlock]
            exact entry_deleteData (Or.inr hreached)
    · rw [if_neg hdir]
      exact hs

end Commands

section Renaming

variable {home home1 home2 home3 : Home} {old new : String} {resource : AuthResource}

/-- A credential's keychain entry has gone from the old name to the new one, or there was none. -/
structure Migrated (home1 home2 : Home) (old new : String) (resource : AuthResource) : Prop where
  gone : tiers home2 resource old = ⟨none, none⟩
  arrived : tiers home2 resource new =
    ⟨(tiers home1 resource old).primary, (tiers home1 resource new).secondary⟩
  other : ∀ r p, r ≠ resource → tiers home2 r p = tiers home1 r p
  elsewhere : ∀ r p, p ≠ old → p ≠ new → tiers home2 r p = tiers home1 r p
  dirs : home2.dirs = home1.dirs
  files : ∀ p f, home1.dirs p = false → home1.files (p, f) = none → home2.files (p, f) = none
  config : ∀ p, home2.files (p, configName) = home1.files (p, configName)

theorem migrated_none (hold : tiers home1 resource old = ⟨none, none⟩)
    (hnew : (tiers home1 resource new).primary = none) :
    Migrated home1 home1 old new resource where
  gone := hold
  arrived := by rw [hold, ← hnew]
  other _ _ _ := rfl
  elsewhere _ _ _ _ := rfl
  dirs := rfl
  files _ _ _ h := h
  config _ := rfl

theorem migrated_some {text : String} {c : Change String} (hne : old ≠ new)
    (hdir : home1.dirs new = true) (hold : tiers home1 resource old = ⟨some text, none⟩)
    (hput : Changes home1 home2 resource new (.put text)) (hgrows : Grows home1 home2 new)
    (hdelete : Changes home2 home3 resource old c) (hshrinks : Shrinks home2 home3)
    (hempty : c.tiers ⟨some text, none⟩ = ⟨none, none⟩) :
    Migrated home1 home3 old new resource where
  gone := by
    rw [hdelete.own, hput.other resource old fun h => hne h.2, hold]
    exact hempty
  arrived := by
    rw [hdelete.other resource new fun h => hne h.2.symm, hput.own, hold]
    rfl
  other r p h := by
    rw [hdelete.other r p fun hsame => h hsame.1, hput.other r p fun hsame => h hsame.1]
  elsewhere r p hpo hpn := by
    rw [hdelete.other r p fun hsame => hpo hsame.2, hput.other r p fun hsame => hpn hsame.2]
  dirs := by
    rw [hshrinks.dirs]
    funext p
    by_cases hp : p = new
    · rw [hp, hgrows.ownDir hdir, hdir]
    · exact hgrows.otherDirs p hp
  files p f hfalse hnone := by
    have hp : p ≠ new := by
      rintro rfl
      exact nomatch hfalse.symm.trans hdir
    rcases hshrinks.files (p, f) with hsame | hgone
    · rw [hsame, hgrows.otherFiles (p, f) hp]
      exact hnone
    · exact hgone
  config p := by
    rw [hshrinks.config]
    by_cases hp : p = new
    · rw [hp]
      exact hgrows.config
    · exact hgrows.otherFiles (p, configName) hp

theorem empty_removeChange {env : Surroundings} (text : String) :
    (removeChange env none true).tiers (⟨some text, none⟩ : Tiers String) = ⟨none, none⟩ := by
  rw [removeChange]
  split_ifs
  · cases env.disk.hidden <;> rfl
  · rfl

theorem secretChange_reached {env : Surroundings} (h : reaches env = true) (secret : String) :
    secretChange env secret = .put secret := by
  obtain ⟨hdisabled, hinit, hcall⟩ := of_reaches h
  simp only [secretChange, noKeychain, KeychainUse.works, hdisabled, hinit, hcall]
  rfl

theorem tokenChange_reached {env : Surroundings} {json : String} (h : reaches env = true)
    (hfits : exceedsWindowsCredmanLimit env.windows json = false) :
    tokenChangeUnlocked env json = .put json := by
  obtain ⟨hdisabled, hinit, hcall⟩ := of_reaches h
  simp only [tokenChangeUnlocked, noKeychain, KeychainUse.works, hdisabled, hinit, hcall, hfits]
  rfl

theorem no_data {α : Type} {parseKeychain parseFile : String → Except RuntimeError α}
    {env : Surroundings} (h : tiers home resource old = ⟨none, none⟩) (x : α) :
    getData resource parseKeychain parseFile env old home ≠ .ok (some x) := by
  intro hget
  rcases getData_ok hget with ⟨text, htext, -⟩ | ⟨text, htext, -⟩
  · rw [h] at htext
    cases htext
  · rw [h] at htext
    cases htext

theorem migrateSecret_migrated (steps : RenameSteps) (hne : old ≠ new)
    (hdir : home1.dirs new = true) (hfile : (tiers home1 .clientSecret old).secondary = none)
    (hnew : (tiers home1 .clientSecret new).primary = none)
    (htidy : entry home1 .clientSecret old = none ∨ (reaches steps.getSecret = true ∧
      reaches steps.storeSecret = true ∧ reaches steps.deleteSecret = true)) :
    Migrated home1 (migrateSecret steps old new home1).2 old new .clientSecret := by
  rw [migrateSecret]
  cases hentry : (tiers home1 .clientSecret old).primary with
  | none =>
    have hold : tiers home1 .clientSecret old = ⟨none, none⟩ := congrArg₂ Tiers.mk hentry hfile
    split
    · next secret hget => exact absurd hget (no_data hold secret)
    · exact migrated_none hold hnew
  | some secret =>
    have hold : tiers home1 .clientSecret old = ⟨some secret, none⟩ :=
      congrArg₂ Tiers.mk hentry hfile
    obtain ⟨hget, hstore, hdelete⟩ : reaches steps.getSecret = true ∧
        reaches steps.storeSecret = true ∧ reaches steps.deleteSecret = true :=
      htidy.resolve_left fun hnone => nomatch hnone.symm.trans hentry
    have hread : getSecret steps.getSecret old home1 = .ok (some secret) :=
      getData_reached hget hentry
    obtain ⟨hput, hok⟩ := @storeSecret_does home1 new steps.storeSecret secret
    have hgrows := storeSecret_grows steps.storeSecret new secret home1
    rw [secretChange_reached hstore] at hput hok
    rw [hread]
    dsimp only
    cases hstored : storeSecret steps.storeSecret new secret home1 with
    | mk result home2 =>
      rw [hstored] at hput hok hgrows
      cases result with
      | error e => cases hok
      | ok u =>
        have hremoved := (@deleteData_does home2 .clientSecret old steps.deleteSecret).1
        rw [deleteChange_reached hdelete, hput.other .clientSecret old fun h => hne h.2,
          hold] at hremoved
        have hmigrated := migrated_some hne hdir hold hput hgrows hremoved
          (deleteData_shrinks ..) (empty_removeChange secret)
        dsimp only
        split
        · next e home3 hdeleted =>
          rw [← congrArg Prod.snd hdeleted]
          exact hmigrated
        · next home3 hdeleted =>
          rw [← congrArg Prod.snd hdeleted]
          exact hmigrated

theorem migrateToken_migrated (r : Reader) (steps : RenameSteps) (hne : old ≠ new)
    (hdir : home1.dirs new = true) (hfile : (tiers home1 .token old).secondary = none)
    (hnew : (tiers home1 .token new).primary = none)
    (hwritten : ∀ text, entry home1 .token old = some text →
      ∃ tokenData : TokenData, text = tokenData.json)
    (htidy : ∀ text, entry home1 .token old = some text → reaches steps.getToken = true ∧
      steps.locks = none ∧ reaches steps.storeToken = true ∧
      exceedsWindowsCredmanLimit steps.storeToken.windows text = false ∧
      reaches steps.deleteToken = true) :
    Migrated home1 (migrateToken r steps old new home1).2 old new .token := by
  rw [migrateToken]
  cases hentry : (tiers home1 .token old).primary with
  | none =>
    have hold : tiers home1 .token old = ⟨none, none⟩ := congrArg₂ Tiers.mk hentry hfile
    split
    · next tokenData hget => exact absurd hget (no_data hold tokenData)
    · exact migrated_none hold hnew
  | some text =>
    have hold : tiers home1 .token old = ⟨some text, none⟩ := congrArg₂ Tiers.mk hentry hfile
    obtain ⟨hget, hlocks, hstore, hfits, hdelete⟩ := htidy text hentry
    obtain ⟨tokenData, rfl⟩ := hwritten text hentry
    have hread : getTokenData r steps.getToken old home1 = .ok (some tokenData) := by
      rw [getTokenData, getData_reached hget hentry, parseToken_json]
      rfl
    obtain ⟨hput, hok⟩ := @storeTokenDataUnlocked_does home1 new steps.storeToken tokenData
    have hgrows := storeTokenDataUnlocked_grows steps.storeToken new tokenData home1
    rw [tokenChange_reached hstore hfits] at hput hok
    rw [hread]
    dsimp only
    rw [moveToken, hlocks]
    dsimp only
    cases hstored : storeTokenDataUnlocked steps.storeToken new tokenData home1 with
    | mk result home2 =>
      rw [hstored] at hput hok hgrows
      cases result with
      | error e => cases hok
      | ok warning =>
        have hremoved := (@deleteData_does home2 .token old steps.deleteToken).1
        rw [deleteChange_reached hdelete, hput.other .token old fun h => hne h.2,
          hold] at hremoved
        have hmigrated := migrated_some hne hdir hold hput hgrows hremoved
          (deleteData_shrinks ..) (empty_removeChange tokenData.json)
        dsimp only
        split
        · next e home3 hdeleted =>
          rw [← congrArg Prod.snd hdeleted]
          exact hmigrated
        · next home3 hdeleted =>
          rw [← congrArg Prod.snd hdeleted]
          exact hmigrated

theorem tiers_moveDir_new (r : AuthResource) :
    tiers (moveDir old new home) r new =
      ⟨(tiers home r new).primary, (tiers home r old).secondary⟩ :=
  congrArg₂ Tiers.mk rfl (if_pos rfl)

theorem tiers_moveDir_old (hne : old ≠ new) (r : AuthResource) :
    tiers (moveDir old new home) r old = ⟨(tiers home r old).primary, none⟩ :=
  congrArg₂ Tiers.mk rfl ((if_neg hne).trans (if_pos rfl))

theorem files_moveDir (p f : String) : (moveDir old new home).files (p, f) =
    if p = new then home.files (old, f) else if p = old then none else home.files (p, f) := rfl

/-- What a rename leaves: the new name has all that the old one had, the old one nothing. -/
structure Renamed (home home' : Home) (old new : String) : Prop where
  gone : ∀ r, tiers home' r old = ⟨none, none⟩
  arrived : ∀ r, tiers home' r new = tiers home r old
  configGone : home'.files (old, configName) = none
  configArrived : home'.files (new, configName) = home.files (old, configName)
  sound : Sound home'

theorem renamed (r : Reader) (steps : RenameSteps) {active : Option String} (hs : Sound home)
    (hold : home.dirs old = true) (hnew : home.dirs new = false)
    (hsecret : entry home .clientSecret old = none ∨ (reaches steps.getSecret = true ∧
      reaches steps.storeSecret = true ∧ reaches steps.deleteSecret = true))
    (htoken : ∀ text, entry home .token old = some text → reaches steps.getToken = true ∧
      steps.locks = none ∧ reaches steps.storeToken = true ∧
      exceedsWindowsCredmanLimit steps.storeToken.windows text = false ∧
      reaches steps.deleteToken = true) :
    Renamed home (afterMove r steps old new ⟨moveDir old new home, active⟩).2.home old new := by
  have hne : old ≠ new := by
    rintro rfl
    exact nomatch hold.symm.trans hnew
  have hfree : ∀ resource, (tiers (moveDir old new home) resource new).primary = none :=
    fun resource => hs.noOrphan new resource hnew
  have hleft : ∀ resource, (tiers (moveDir old new home) resource old).secondary = none :=
    fun resource => congrArg Tiers.secondary (tiers_moveDir_old hne resource)
  have hmade : (moveDir old new home).dirs new = true := Function.update_self ..
  have h1 := migrateSecret_migrated steps hne hmade (hleft .clientSecret) (hfree .clientSecret)
    hsecret
  generalize hhome2 : (migrateSecret steps old new (moveDir old new home)).2 = home2 at h1
  have hsame : ∀ p, tiers home2 .token p = tiers (moveDir old new home) .token p :=
    fun p => h1.other .token p nofun
  have h2 : Migrated home2 (migrateToken r steps old new home2).2 old new .token := by
    refine migrateToken_migrated r steps hne ?_ ?_ ?_ ?_ ?_
    · rw [h1.dirs]
      exact hmade
    · rw [hsame]
      exact hleft .token
    · rw [hsame]
      exact hfree .token
    · intro text htext
      rw [entry, hsame] at htext
      exact hs.written old text (Or.inl htext)
    · intro text htext
      rw [entry, hsame] at htext
      exact htoken text htext
  generalize hhome3 : (migrateToken r steps old new home2).2 = home3 at h2
  have hfinal : (afterMove r steps old new ⟨moveDir old new home, active⟩).2.home = home3 := by
    rw [afterMove]
    dsimp only
    rw [hhome2, hhome3]
    split
    · rfl
    · rfl
  rw [hfinal]
  have hgone : ∀ resource, tiers home3 resource old = ⟨none, none⟩ := by
    intro resource
    cases resource with
    | clientSecret => rw [h2.other .clientSecret old nofun, h1.gone]
    | token => exact h2.gone
  have harrived : ∀ resource, tiers home3 resource new = tiers home resource old := by
    intro resource
    cases resource with
    | clientSecret =>
      rw [h2.other .clientSecret new nofun, h1.arrived, tiers_moveDir_new, tiers_moveDir_old hne]
    | token =>
      rw [h2.arrived, hsame, hsame, tiers_moveDir_new, tiers_moveDir_old hne]
  have helsewhere : ∀ resource p, p ≠ old → p ≠ new →
      tiers home3 resource p = tiers home resource p := by
    intro resource p hpo hpn
    rw [h2.elsewhere _ _ hpo hpn, h1.elsewhere _ _ hpo hpn]
    exact congrArg₂ Tiers.mk rfl ((if_neg hpn).trans (if_neg hpo))
  have hdirs : ∀ p, home3.dirs p = false → p ≠ new ∧ (p = old ∨ home.dirs p = false) := by
    intro p hfalse
    rw [h2.dirs, h1.dirs] at hfalse
    have hpn : p ≠ new := by
      rintro rfl
      exact nomatch hfalse.symm.trans hmade
    refine ⟨hpn, ?_⟩
    by_cases hpo : p = old
    · exact Or.inl hpo
    · refine Or.inr ?_
      have hkept : (moveDir old new home).dirs p = home.dirs p :=
        (Function.update_of_ne hpn ..).trans (Function.update_of_ne hpo ..)
      exact hkept.symm.trans hfalse
  refine ⟨hgone, harrived, ?_, ?_, ?_, ?_, ?_⟩
  · rw [h2.config, h1.config, files_moveDir, if_neg hne, if_pos rfl]
  · rw [h2.config, h1.config, files_moveDir, if_pos rfl]
  · intro p f hfalse
    obtain ⟨hpn, hp⟩ := hdirs p hfalse
    have hmoved : (moveDir old new home).files (p, f) = none := by
      rw [files_moveDir, if_neg hpn]
      rcases hp with hp | hp
      · exact if_pos hp
      · split_ifs
        · rfl
        · exact hs.filesDir p f hp
    have hfalse2 : home2.dirs p = false := by
      rw [← h2.dirs]
      exact hfalse
    have hfalse1 : (moveDir old new home).dirs p = false := by
      rw [← h1.dirs]
      exact hfalse2
    exact h2.files p f hfalse2 (h1.files p f hfalse1 hmoved)
  · intro p resource hfalse
    obtain ⟨hpn, hp⟩ := hdirs p hfalse
    by_cases hpo : p = old
    · rw [entry, hpo, hgone]
    · rw [entry, helsewhere resource p hpo hpn]
      exact hs.noOrphan p resource (hp.resolve_left hpo)
  · intro p text htext
    by_cases hpo : p = old
    · rw [hpo, hgone] at htext
      rcases htext with htext | htext
      · cases htext
      · cases htext
    · by_cases hpn : p = new
      · rw [hpn, harrived] at htext
        exact hs.written old text htext
      · rw [helsewhere _ p hpo hpn] at htext
        exact hs.written p text htext

end Renaming

section Runs

variable {i : Installation} {home home' : Home} {profile profile' : String}

/-- Reads depend on the two places of a credential only. -/
theorem getData_toOption {α : Type} {resource : AuthResource}
    (parseKeychain parseFile : String → Except RuntimeError α) (env : Surroundings)
    (h : tiers home' resource profile' = tiers home resource profile) :
    (getData resource parseKeychain parseFile env profile' home').toOption =
      (getData resource parseKeychain parseFile env profile home).toOption := by
  have hentry : home'.keychain (keyringService profile', user resource) =
      home.keychain (keyringService profile, user resource) := congrArg Tiers.primary h
  have hfile : home'.files (profile', fileName resource) =
      home.files (profile, fileName resource) := congrArg Tiers.secondary h
  have hread : readFile resource parseFile env.disk profile' home' =
      readFile resource parseFile env.disk profile home := by
    rw [readFile, readFile, hfile]
  rw [getData, getData, hread]
  split_ifs
  · rfl
  · rcases reached env.entry with ⟨f, hinit, hf⟩ | ⟨f, hinit, hf⟩ | ⟨hinit, hcall⟩ |
      ⟨f, hinit, hcall, hf⟩ | ⟨f, hinit, hcall, hf⟩
    · simp only [keychainEntryOpt, hinit, hf]
      rfl
    · simp only [keychainEntryOpt, hinit, hf]
      rfl
    · simp only [keychainEntryOpt, hinit, hcall, getPassword, hentry]
    · simp only [keychainEntryOpt, hinit, hcall, getPassword]
    · simp only [keychainEntryOpt, hinit, hcall, getPassword]

theorem unreadable_of_empty (r : Reader)
    (h : ∀ resource, tiers home resource profile = ⟨none, none⟩) : Unreadable r home profile :=
  fun _ => ⟨no_data (h .clientSecret), no_data (h .token)⟩

theorem profileRename_error {r : Reader} {steps : RenameSteps} {old new : String}
    {e : RuntimeError} {i' : Installation}
    (h : profileRename r steps old new i = (.error e, i')) : i' = i := by
  rw [profileRename] at h
  split at h
  · exact (Prod.mk.inj h).2.symm
  · exact (Prod.mk.inj h).2.symm
  · exact (Prod.mk.inj h).2.symm
  · split_ifs at h
    · exact (Prod.mk.inj h).2.symm
    · exact (Prod.mk.inj h).2.symm
    · split at h
      · exact (Prod.mk.inj h).2.symm
      · cases h

theorem profileRename_ok {r : Reader} {steps : RenameSteps} {old new o n : String}
    {warnings : List OperationWarning} {i' : Installation} (hs : Sound i.home)
    (htidy : Tidy i (.rename steps old new))
    (h : profileRename r steps old new i = (.ok (.renamed o n warnings), i')) :
    Renamed i.home i'.home o n := by
  rw [profileRename] at h
  split at h
  · cases h
  · cases h
  · cases h
  · next o' n' hold hnew hconfig =>
    by_cases hdir : i.home.dirs o' = false
    · rw [if_pos hdir] at h
      cases h
    · by_cases hdir' : i.home.dirs n' = true
      · rw [if_neg hdir, if_pos hdir'] at h
        cases h
      · rw [if_neg hdir, if_neg hdir'] at h
        cases hrename : steps.renameDir with
        | some error =>
          rw [hrename] at h
          cases h
        | none =>
          rw [hrename] at h
          dsimp only at h
          rw [Bool.not_eq_false] at hdir
          rw [Bool.not_eq_true] at hdir'
          obtain ⟨hview, rfl⟩ := Prod.mk.inj h
          obtain ⟨rfl, rfl, -⟩ := ProfileView.renamed.inj (Except.ok.inj hview)
          obtain ⟨hsecret, htoken⟩ := htidy o' n' hold hnew hdir hdir' hrename
          exact renamed r steps hs hdir hdir' hsecret htoken

theorem sound_rename (r : Reader) (hs : Sound i.home) (steps : RenameSteps) (old new : String)
    (htidy : Tidy i (.rename steps old new)) :
    Sound (profileRename r steps old new i).2.home := by
  cases hresult : profileRename r steps old new i with
  | mk result i' =>
    cases result with
    | error e =>
      rw [profileRename_error hresult]
      exact hs
    | ok view =>
      cases view with
      | renamed o n warnings => exact (profileRename_ok hs htidy hresult).sound
      | created n | deleted n warnings tips =>
        rw [profileRename] at hresult
        split at hresult
        · cases hresult
        · cases hresult
        · cases hresult
        · split_ifs at hresult
          · cases hresult
          · cases hresult
          · split at hresult
            · cases hresult
            · cases hresult

theorem sound_next (r : Reader) {command : Command} (hs : Sound i.home)
    (htidy : Tidy i command) : Sound (next r i command).home := by
  cases command with
  | create steps name => exact sound_create hs steps name
  | delete steps name => exact sound_delete hs steps name htidy
  | rename steps old new => exact sound_rename r hs steps old new htidy
  | login steps profile tokenData clientSecret =>
    exact sound_login hs steps tokenData clientSecret htidy
  | logout steps profile => exact sound_logout hs steps

theorem sound_nothing : Sound nothing.home where
  filesDir _ _ _ := rfl
  noOrphan _ _ _ := rfl
  written p text h := by
    rcases h with h | h
    · cases h
    · cases h

theorem sound_run {r : Reader} (h : (system r).Reaches Tidy nothing i) : Sound i.home :=
  (system r).invariant (fun i => Sound i.home) (fun _ _ hs htidy _ => sound_next r hs htidy) h
    sound_nothing

theorem profileCreate_ok {steps : CreateSteps} {name n : String} {i' : Installation}
    (hs : Sound i.home) (h : profileCreate steps name i = (.ok (.created n), i'))
    (resource : AuthResource) : tiers i'.home resource n = ⟨none, none⟩ := by
  rw [profileCreate] at h
  split at h
  · cases h
  · cases h
  · next n' hname hconfig =>
    by_cases hdir : i.home.dirs n' = true
    · rw [if_pos hdir] at h
      cases h
    · rw [if_neg hdir] at h
      have hempty : ∀ resource, tiers i.home resource n' = ⟨none, none⟩ := fun resource =>
        congrArg₂ Tiers.mk (hs.noOrphan n' resource (Bool.not_eq_true _ ▸ hdir))
          (hs.filesDir n' _ (Bool.not_eq_true _ ▸ hdir))
      cases hensure : ensureProfileExists steps n' i with
      | mk result made =>
        rw [hensure] at h
        cases result with
        | error e => cases h
        | ok u =>
          obtain ⟨hview, rfl⟩ := Prod.mk.inj h
          obtain rfl := ProfileView.created.inj (Except.ok.inj hview)
          rw [ensureProfileExists, if_neg hdir] at hensure
          split at hensure
          · cases hensure
          · split at hensure
            · cases hensure
            · obtain ⟨-, rfl⟩ := Prod.mk.inj hensure
              exact (tiers_writeConfig ..).trans (hempty resource)

/-- While no keychain entry outlives its profile, a new profile has no credentials, a renamed one
reads as before and nothing is read under its old name, and a rename that fails changes nothing. -/
theorem profiles_isolated (r : Reader) (h : (system r).Reaches Tidy nothing i) :
    (∀ steps name n i', profileCreate steps name i = (.ok (.created n), i') →
      Unreadable r i'.home n) ∧
    (∀ steps old new o n warnings i', Tidy i (.rename steps old new) →
      profileRename r steps old new i = (.ok (.renamed o n warnings), i') →
        SameReads r i.home o i'.home n ∧ Unreadable r i'.home o ∧
          i'.home.files (o, configName) = none) ∧
    ∀ steps old new e i', profileRename r steps old new i = (.error e, i') → i' = i := by
  have hs := sound_run h
  refine ⟨fun steps name n i' hcreate => ?_, fun steps old new o n warnings i' htidy hrename => ?_,
    fun steps old new e i' hrename => profileRename_error hrename⟩
  · exact unreadable_of_empty r (profileCreate_ok hs hcreate)
  · have hrenamed := profileRename_ok hs htidy hrename
    refine ⟨⟨hrenamed.configArrived, fun env => ?_, fun env => ?_⟩,
      unreadable_of_empty r hrenamed.gone, hrenamed.configGone⟩
    · exact getData_toOption _ _ env (hrenamed.arrived .clientSecret)
    · exact getData_toOption _ _ env (hrenamed.arrived .token)

section Histories

def createFine : CreateSteps := ⟨none, none, none⟩

def configFine : ConfigUpdate := ⟨none, fun _ => .ok "\x7b\x7d"⟩

def createDev : Command := .create createFine "dev"

def loginDev : Command := .login ⟨fine, configFine, fine⟩ "dev" (session "access") (some "s3cret")

/-- The keychain is locked after the entries were made. -/
def locked : Surroundings := { fine with entry := ⟨none, some (.noStorageAccess "locked")⟩ }

theorem profiles_isolated_beside : Unreadable textReader
    (profileCreate createFine "prod"
      ((system textReader).follow nothing [createDev, loginDev])).2.home "prod" := by
  have hadmits : (system textReader).Admits Tidy nothing [createDev, loginDev] :=
    ⟨trivial, trivial, Or.inr (Or.inl rfl), trivial, trivial⟩
  exact (profiles_isolated textReader (Events.System.reaches_follow hadmits)).1 createFine "prod"
    "prod" _ rfl

/-- What isolation asks of an installation, without a condition on the commands. -/
def Isolated (r : Reader) (i : Installation) : Prop :=
  (∀ steps name n i', profileCreate steps name i = (.ok (.created n), i') →
    Unreadable r i'.home n) ∧
  (∀ steps old new o n i', profileRename r steps old new i = (.ok (.renamed o n []), i') →
    SameReads r i.home o i'.home n ∧ Unreadable r i'.home o ∧
      i'.home.files (o, configName) = none) ∧
  ∀ steps old new e i', profileRename r steps old new i = (.error e, i') → i' = i

/-- A profile deleted while the keychain is locked is created again with its old secret. -/
theorem deleted_secret_returns : ¬ ∀ (r : Reader) (i : Installation),
    (system r).Reaches Events.System.free nothing i → Isolated r i := by
  intro h
  have hadmits : (system textReader).Admits Events.System.free nothing
      [createDev, loginDev, .delete ⟨none, locked, locked, none, none⟩ "dev"] :=
    ⟨trivial, trivial, trivial, trivial, trivial, trivial, trivial⟩
  have hcreate := (h textReader _ (Events.System.reaches_follow hadmits)).1 createFine "dev" "dev"
    _ rfl
  exact (hcreate fine).1 "s3cret" rfl

end Histories

end Runs

end ProfileIsolation
