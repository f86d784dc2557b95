import AgsCli.Auth.RefreshRotation

/-! # Decisions across released locks

A token resolution that found no usable session, and a login probe whose refresh was rejected, let
their locks go and take them again before they mint a token or remove the session. Neither reads the
store again, so what another call stores in the gap is minted over or removed. A read that fails
counts as one that finds nothing, under the lock too. -/
namespace SessionGaps

open AuthToken AuthSession SessionRaces

/-- Fresh token data that the client may use. -/
def Usable (client : Option String) (tokenData : TokenData) (now : Nat) : Prop :=
  isFresh tokenData now = true ∧ clientMatches client tokenData = .ok ()

/-- The client for which a task is on its way to a client-credentials token. -/
def mintsFor : Phase → Option (Option String)
  | .reread ⟨_, expected, .resolve _⟩ none => some expected
  | .settled ⟨_, expected, .resolve isAuthorizationCode⟩ outcome _ =>
    if remints isAuthorizationCode true outcome then some expected else none
  | .credentials job => some job.expected
  | .mintMutex clientId | .mintLock clientId | .mint clientId => some (some clientId)
  | _ => none

/-- The rejected token data that a task is on its way to remove. -/
def erases : Phase → Option TokenData
  | .settled ⟨_, _, .probe⟩ (.rejected _) read => read
  | .deleteLock rejected | .deleting rejected => rejected
  | _ => none

/-- The token data that a task writes next. -/
def writes : Phase → Option TokenData
  | .received _ _ _ tokenData | .minted tokenData | .login tokenData => some tokenData
  | _ => none

def refreshes : Phase → Option TokenData
  | .requested job read .. => if job.mode = .probe then some read else none
  | _ => none

def job : Phase → Option Job
  | .unlocked job | .peeked job _ | .mutexWait job | .lockWait job | .locked job | .reread job _
  | .requested job .. | .received job .. | .settled job .. | .credentials job => some job
  | _ => none

/-- No usable token data is stored while another task is on its way to mint, none but the rejected
while one is on its way to remove it; the store has nothing usable when an unlocked read had not,
and when a locked read fails; and a stored token that the client of the grant may use was usable by
the client of the call. -/
def Undisturbed (w : World) : Event → Prop
  | .write i => ∀ d, writes (w.phase i) = some d → ∀ j,
      (∀ client, mintsFor (w.phase j) = some client → ¬ Usable client d w.now) ∧
        ∀ rejected, erases (w.phase j) = some rejected → d = rejected
  | .assess i => ∀ job read reason client, w.phase i = .peeked job read →
      assess job.mode job.expected read w.now = .settle (.unavailable reason) →
      mintsFor (.settled job (.unavailable reason) read) = some client →
      ∀ d, w.store = some d → ¬ Usable client d w.now
  | .reread i fails => fails = true → ∀ job client, w.phase i = .locked job →
      mintsFor (.reread job none) = some client → ∀ d, w.store = some d → ¬ Usable client d w.now
  | .proceed i _ => ∀ job clientId, w.phase i = .credentials job →
      w.configured (w.process i) = some clientId →
      ∀ d, w.store = some d → Usable (some clientId) d w.now → Usable job.expected d w.now
  | _ => True

structure Sound (store : Option TokenData) (now : Nat) (q : Phase) : Prop where
  mints : ∀ client, mintsFor q = some client → ∀ d, store = some d → ¬ Usable client d now
  erases : ∀ rejected, erases q = some rejected → store = none ∨ store = some rejected
  stale : ∀ read, refreshes q = some read → isFresh read now = false
  mode : ∀ j, job q = some j → j.purpose ≠ .direct → j.mode = .probe

def Invariant (w : World) : Prop := ∀ i, Sound w.store w.now (w.phase i)

section Phases

variable {store : Option TokenData} {now : Nat} {q : Phase}

/-- Token data does not become fresh again. -/
theorem isFresh_earlier {d : TokenData} {later : Nat} (hle : now ≤ later)
    (h : isFresh d later = true) : isFresh d now = true := by
  unfold isFresh at h ⊢
  rw [decide_eq_true_eq] at h ⊢
  omega

theorem sound_later (h : Sound store now q) {later : Nat} (hle : now ≤ later) :
    Sound store later q := by
  refine ⟨fun client hclient d hd husable => ?_, h.erases, ?_, h.mode⟩
  · exact h.mints client hclient d hd ⟨isFresh_earlier hle husable.1, husable.2⟩
  · intro read hread
    have hstale := h.stale read hread
    rw [Bool.eq_false_iff] at hstale ⊢
    exact fun hfresh => hstale (isFresh_earlier hle hfresh)

/-- An empty store disturbs nobody. -/
theorem sound_none (h : Sound store now q) : Sound none now q :=
  ⟨fun _ _ _ hd => (Option.some_ne_none _ hd.symm).elim, fun _ _ => Or.inl rfl, h.stale, h.mode⟩

theorem mintsFor_settled {call : Job} {outcome : RefreshOutcome} {read : Option TokenData}
    {client : Option String} (h : mintsFor (.settled call outcome read) = some client) :
    ∃ isAuthorizationCode, call.purpose = .resolve isAuthorizationCode ∧
      remints isAuthorizationCode true outcome = true ∧ client = call.expected := by
  obtain ⟨mode, expected, purpose⟩ := call
  cases purpose with
  | direct | probe => cases h
  | resolve isAuthorizationCode =>
    simp only [mintsFor, Option.ite_none_right_eq_some, Option.some.injEq] at h
    exact ⟨isAuthorizationCode, rfl, h.1, h.2.symm⟩

theorem erases_settled {call : Job} {outcome : RefreshOutcome} {read : Option TokenData}
    {rejected : TokenData} (h : erases (.settled call outcome read) = some rejected) :
    call.purpose = .probe ∧ (∃ message, outcome = .rejected message) ∧ read = some rejected := by
  obtain ⟨mode, expected, purpose⟩ := call
  cases purpose with
  | direct | resolve isAuthorizationCode => cases h
  | probe =>
    cases outcome with
    | refreshed token source secs | unavailable reason => cases h
    | rejected message => exact ⟨rfl, ⟨message, rfl⟩, h⟩

/-- A phase of no consequence for what is stored. -/
structure Quiet (q : Phase) : Prop where
  mints : mintsFor q = none
  erases : erases q = none
  refreshes : refreshes q = none

theorem sound_quiet (hq : Quiet q)
    (hmode : ∀ j, job q = some j → j.purpose ≠ .direct → j.mode = .probe) : Sound store now q where
  mints client hclient := by
    rw [hq.mints] at hclient
    cases hclient
  erases rejected hrejected := by
    rw [hq.erases] at hrejected
    cases hrejected
  stale read hread := by
    rw [hq.refreshes] at hread
    cases hread
  mode := hmode

theorem sound_jobless (hq : Quiet q) (hjob : job q = none) : Sound store now q := by
  refine sound_quiet hq fun j hj => ?_
  rw [hjob] at hj
  cases hj

theorem assess_ne_rejected {mode : RefreshMode} {expected : Option String}
    {stored : Option TokenData} {message : String} :
    assess mode expected stored now ≠ .settle (.rejected message) := by
  unfold assess refreshedFromFreshStored
  intro h
  split at h
  · cases h
  · split at h
    · cases h
    · split at h
      · rename_i outcome hreused
        split_ifs at hreused
        cases hreused
        cases h
      · split at h <;> cases h

/-- A probe has found nothing usable in what it read. -/
theorem not_usable_of_unavailable {expected : Option String} {stored : Option TokenData}
    {reason : UnavailableReason}
    (h : assess .probe expected stored now = .settle (.unavailable reason)) {d : TokenData}
    (hd : stored = some d) : ¬ Usable expected d now := by
  subst hd
  rintro ⟨hfresh, hclient⟩
  simp [assess, hclient, refreshedFromFreshStored, hfresh] at h

end Phases

section Steps

variable {w w' : World} {i : Nat} {q : Phase}

/-- A task changes its phase and the store stays as it is. -/
theorem invariant_update (h : Invariant w) (hphase : w'.phase = Function.update w.phase i q)
    (hstore : w'.store = w.store) (hnow : w'.now = w.now) (hq : Sound w.store w.now q) :
    Invariant w' := by
  intro j
  rw [hphase, hstore, hnow]
  by_cases hj : j = i
  · rw [hj, Function.update_self]
    exact hq
  · rw [Function.update_of_ne hj]
    exact h j

theorem invariant_goes (h : Invariant w) (hq : Sound w.store w.now q) : Invariant (w.goes i q) :=
  invariant_update h (RefreshRotation.phase_goes w i q) rfl rfl hq

theorem invariant_release (h : Invariant w) (hq : Sound w.store w.now q) :
    Invariant ((w.release i).goes i q) :=
  invariant_update h (RefreshRotation.phase_goes (w.release i) i q) rfl rfl hq

theorem invariant_start (h : Invariant w) (i process : Nat) (caller : Caller) :
    Invariant (w.start i process caller) := by
  have hphase : ∀ q : Phase, (fun j => (Function.update w.tasks i ⟨process, q⟩ j).phase) =
      Function.update w.phase i q := by
    intro q
    funext j
    by_cases hj : j = i
    · subst hj
      simp
    · simp [World.phase, hj]
  have hjobless : ∀ (w' : World) (q : Phase), w'.store = w.store → w'.now = w.now →
      w'.phase = Function.update w.phase i q → Quiet q → job q = none → Invariant w' :=
    fun w' q hstore hnow hphase hq hjob =>
      invariant_update h hphase hstore hnow (sound_jobless hq hjob)
  cases caller with
  | refresh mode expected =>
    refine invariant_update h (hphase (.unlocked ⟨mode, expected, .direct⟩)) rfl rfl
      (sound_quiet ⟨rfl, rfl, rfl⟩ fun j hj hdirect => ?_)
    cases hj
    exact absurd rfl hdirect
  | resolve => exact hjobless _ _ rfl rfl (hphase .grant) ⟨rfl, rfl, rfl⟩ rfl
  | probe clientId => exact hjobless _ _ rfl rfl (hphase (.probing clientId)) ⟨rfl, rfl, rfl⟩ rfl
  | login result grantType clientId =>
    exact hjobless _ _ rfl rfl
      (hphase (.loginLock (tokenResultToTokenData result grantType w.now clientId)))
      ⟨rfl, rfl, rfl⟩ rfl
  | logout => exact hjobless _ _ rfl rfl (hphase (.deleteLock none)) ⟨rfl, rfl, rfl⟩ rfl

theorem invariant_peek (h : Invariant w) (i : Nat) (fails : Bool) :
    Invariant (w.peek i fails) := by
  unfold World.peek
  split
  · exact invariant_goes h (sound_jobless ⟨rfl, rfl, rfl⟩ rfl)
  · refine invariant_goes h (sound_quiet ⟨rfl, rfl, rfl⟩ fun j hj _ => ?_)
    cases hj
    rfl
  · split_ifs
    · exact invariant_goes h (sound_jobless ⟨rfl, rfl, rfl⟩ rfl)
    · refine invariant_goes h (sound_quiet ⟨rfl, rfl, rfl⟩ fun j hj _ => ?_)
      cases hj
      rfl
  · rename_i call hphase
    have hi := h i
    rw [hphase] at hi
    exact invariant_goes h (sound_quiet ⟨rfl, rfl, rfl⟩ hi.mode)
  · exact h

/-- A settled call whose token resolution finds nothing usable stored. -/
theorem sound_settled {store : Option TokenData} {now : Nat} {call : Job}
    {outcome : RefreshOutcome} {read : Option TokenData}
    (hassess : assess call.mode call.expected read now = .settle outcome)
    (hmints : ∀ reason client, outcome = .unavailable reason →
      mintsFor (.settled call outcome read) = some client →
      ∀ d, store = some d → ¬ Usable client d now)
    (hmode : call.purpose ≠ .direct → call.mode = .probe) :
    Sound store now (.settled call outcome read) := by
  refine ⟨fun client hclient => ?_, fun rejected hrejected => ?_, nofun, ?_⟩
  · cases outcome with
    | refreshed token source secs =>
      obtain ⟨b, -, hremints, -⟩ := mintsFor_settled hclient
      cases hremints
    | unavailable reason => exact hmints reason client rfl hclient
    | rejected message => exact absurd hassess assess_ne_rejected
  · obtain ⟨-, ⟨message, rfl⟩, -⟩ := erases_settled hrejected
    exact absurd hassess assess_ne_rejected
  · intro j hj
    cases hj
    exact hmode

theorem invariant_assess (h : Invariant w) (hr : RefreshRotation.Invariant w) (i : Nat)
    (he : Undisturbed w (.assess i)) : Invariant (w.assess i) := by
  have hi := h i
  have hlocked := hr.tasks i
  unfold World.assess
  split
  · rename_i call read hphase
    rw [hphase] at hi
    split
    · rename_i outcome hassess
      refine invariant_goes h (sound_settled hassess ?_ (hi.mode call rfl))
      rintro reason client rfl hclient
      exact he call read reason client hphase hassess hclient
    · exact invariant_goes h (sound_quiet ⟨rfl, rfl, rfl⟩ hi.mode)
  · rename_i call read hphase
    rw [hphase] at hi hlocked
    -- what the call found is stored; where it found nothing, nothing usable is
    have hunusable : ∀ reason b, call.purpose = .resolve b →
        assess call.mode call.expected read w.now = .settle (.unavailable reason) →
        ∀ d, w.store = some d → ¬ Usable call.expected d w.now := by
      intro reason b hpurpose hassess d hd
      cases read with
      | none =>
        refine hi.mints call.expected ?_ d hd
        obtain ⟨mode, expected, purpose⟩ := call
        cases hpurpose
        rfl
      | some found =>
        have hprobe : call.mode = .probe := hi.mode call rfl (by rw [hpurpose]; nofun)
        rw [hprobe] at hassess
        exact not_usable_of_unavailable hassess ((hlocked.read found rfl).symm.trans hd)
    split
    · rename_i outcome hassess
      refine invariant_release h (sound_settled hassess ?_ (hi.mode call rfl))
      rintro reason client rfl hclient
      obtain ⟨b, hpurpose, -, rfl⟩ := mintsFor_settled hclient
      exact hunusable reason b hpurpose hassess
    · rename_i token tokenData clientId hclientId hassess
      obtain ⟨d, hd, -, -, hstale⟩ := assess_refresh hassess
      cases hd
      refine invariant_goes h ⟨nofun, nofun, fun read hread => ?_, hi.mode⟩
      simp only [refreshes, Option.ite_none_right_eq_some, Option.some.injEq] at hread
      obtain ⟨hmode, rfl⟩ := hread
      exact hstale hmode
    · exact invariant_release h (sound_jobless ⟨rfl, rfl, rfl⟩ rfl)
  · exact h

theorem invariant_lockMutex (h : Invariant w) (i : Nat) : Invariant (w.lockMutex i) := by
  have hi := h i
  unfold World.lockMutex
  extract_lets held
  have hgoes : ∀ q, Sound w.store w.now q → Invariant (held.goes i q) := fun q hq =>
    invariant_update h (RefreshRotation.phase_goes held i q) rfl rfl hq
  split
  · rename_i call hphase
    rw [hphase] at hi
    exact hgoes _ (sound_quiet ⟨rfl, rfl, rfl⟩ hi.mode)
  · rename_i clientId hphase
    rw [hphase] at hi
    exact hgoes _ ⟨hi.mints, hi.erases, hi.stale, hi.mode⟩
  · exact h

theorem invariant_lockFile (h : Invariant w) (i : Nat) : Invariant (w.lockFile i) := by
  have hi := h i
  unfold World.lockFile
  extract_lets held
  have hgoes : ∀ q, Sound w.store w.now q → Invariant (held.goes i q) := fun q hq =>
    invariant_update h (RefreshRotation.phase_goes held i q) rfl rfl hq
  split
  · rename_i call hphase
    rw [hphase] at hi
    exact hgoes _ (sound_quiet ⟨rfl, rfl, rfl⟩ hi.mode)
  · rename_i clientId hphase
    rw [hphase] at hi
    exact hgoes _ ⟨hi.mints, hi.erases, hi.stale, hi.mode⟩
  · exact hgoes _ (sound_jobless ⟨rfl, rfl, rfl⟩ rfl)
  · rename_i rejected hphase
    rw [hphase] at hi
    exact hgoes _ ⟨hi.mints, hi.erases, hi.stale, hi.mode⟩
  · exact h

/-- Only a call that has read nothing under the lock is on its way to mint. -/
theorem mintsFor_reread {call : Job} {read : Option TokenData} {client : Option String}
    (h : mintsFor (.reread call read) = some client) :
    read = none ∧ client = call.expected ∧ ∃ b, call.purpose = .resolve b := by
  obtain ⟨mode, expected, purpose⟩ := call
  cases purpose with
  | direct | probe => cases h
  | resolve b =>
    cases read with
    | some d => cases h
    | none => exact ⟨rfl, (Option.some.inj h).symm, b, rfl⟩

theorem invariant_reread (h : Invariant w) (i : Nat) (fails : Bool)
    (he : Undisturbed w (.reread i fails)) : Invariant (w.reread i fails) := by
  have hi := h i
  unfold World.reread
  split
  · rename_i call hphase
    rw [hphase] at hi
    refine invariant_goes h ⟨fun client hclient d hd => ?_, nofun, nofun, hi.mode⟩
    obtain ⟨hread, -⟩ := mintsFor_reread hclient
    rw [hread] at hclient
    by_cases hfails : fails = true
    · exact he hfails call client hphase hclient d hd
    · rw [World.reads, if_neg hfails, hd] at hread
      cases hread
  · exact h

theorem invariant_request (h : Invariant w) (i : Nat) : Invariant (w.request i) := by
  unfold World.request
  split
  · exact invariant_goes h (sound_jobless ⟨rfl, rfl, rfl⟩ rfl)
  · exact h

/-- A rejection is of the stale token data that is stored. -/
theorem invariant_respond (h : Invariant w) (hr : RefreshRotation.Invariant w) (i : Nat)
    (response : Response) : Invariant (w.respond i response) := by
  have hi := h i
  have hlocked := hr.tasks i
  unfold World.respond
  split
  · rename_i call read clientId sentAt presented result hphase
    rw [hphase] at hi
    exact invariant_update h (RefreshRotation.phase_goes (w.issues result) i _) rfl rfl
      (sound_quiet ⟨rfl, rfl, rfl⟩ hi.mode)
  · rename_i call read clientId sentAt presented message hphase
    rw [hphase] at hi hlocked
    have hstore : w.store = some read := hlocked.read _ rfl
    refine invariant_release h ⟨fun client hclient d hd husable => ?_, fun rejected hrejected => ?_,
      nofun, hi.mode⟩
    · obtain ⟨b, hpurpose, -, rfl⟩ := mintsFor_settled hclient
      have hprobe : call.mode = .probe := hi.mode call rfl (by rw [hpurpose]; nofun)
      have hstale : isFresh read w.now = false := hi.stale read (if_pos hprobe)
      rw [hstore] at hd
      cases hd
      rw [husable.1] at hstale
      cases hstale
    · obtain ⟨-, -, hread⟩ := erases_settled hrejected
      exact Or.inr (hstore.trans hread)
  · rename_i clientId result hphase
    exact invariant_update h (RefreshRotation.phase_goes (w.issues result) i _) rfl rfl
      (sound_jobless ⟨rfl, rfl, rfl⟩ rfl)
  · exact invariant_release h (sound_jobless ⟨rfl, rfl, rfl⟩ rfl)
  · exact h

/-- What is stored is of no use to any other task on its way. -/
theorem invariant_stores (h : Invariant w) {d : TokenData} (hd : writes (w.phase i) = some d)
    (he : Undisturbed w (.write i)) (hq : Sound (some d) w.now q) :
    Invariant (((w.stores d).release i).goes i q) := by
  intro j
  rw [RefreshRotation.phase_goes]
  change Sound (some d) w.now _
  by_cases hj : j = i
  · rw [hj, Function.update_self]
    exact hq
  · rw [Function.update_of_ne hj]
    obtain ⟨hmints, herases⟩ := he d hd j
    refine ⟨fun client hclient d' hd' => ?_, fun rejected hrejected => ?_, (h j).stale, (h j).mode⟩
    · cases hd'
      exact hmints client hclient
    · rw [herases rejected hrejected]
      exact Or.inr rfl

theorem invariant_write (h : Invariant w) (i : Nat) (he : Undisturbed w (.write i)) :
    Invariant (w.write i) := by
  have hi := h i
  unfold World.write
  split
  · rename_i call read result renewed hphase
    rw [hphase] at hi
    refine invariant_stores h (by rw [hphase]; rfl) he ⟨fun client hclient => ?_,
      fun rejected hrejected => ?_, nofun, hi.mode⟩
    · obtain ⟨b, -, hremints, -⟩ := mintsFor_settled hclient
      cases hremints
    · obtain ⟨-, ⟨message, hrejected⟩, -⟩ := erases_settled hrejected
      cases hrejected
  · rename_i tokenData hphase
    exact invariant_stores h (by rw [hphase]; rfl) he (sound_jobless ⟨rfl, rfl, rfl⟩ rfl)
  · rename_i tokenData hphase
    exact invariant_stores h (by rw [hphase]; rfl) he (sound_jobless ⟨rfl, rfl, rfl⟩ rfl)
  · exact h

theorem remints_true {isAuthorizationCode canRemint : Bool} {outcome : RefreshOutcome}
    (h : remints isAuthorizationCode canRemint outcome = true) :
    remints isAuthorizationCode true outcome = true := by
  cases outcome with
  | refreshed token source secs => cases h
  | rejected message => exact h
  | unavailable reason =>
    cases reason with
    | clientMismatch storedClientId => rfl
    | noStoredToken => rfl
    | noRefreshToken | refreshTokenExpired => exact h

theorem invariant_proceed (h : Invariant w) (i : Nat) (canRemint : Bool)
    (he : Undisturbed w (.proceed i canRemint)) : Invariant (w.proceed i canRemint) := by
  have hi := h i
  have hidle : Invariant (w.goes i .idle) := invariant_goes h (sound_jobless ⟨rfl, rfl, rfl⟩ rfl)
  unfold World.proceed
  split
  · rename_i call outcome read hphase
    rw [hphase] at hi
    split
    · rename_i b hpurpose
      split_ifs with hremints
      · refine invariant_goes h ⟨fun client hclient => hi.mints client ?_, nofun, nofun, hi.mode⟩
        cases hclient
        obtain ⟨mode, expected, purpose⟩ := call
        cases hpurpose
        exact if_pos (remints_true hremints)
      · exact hidle
    · rename_i message hpurpose
      refine invariant_goes h ⟨nofun, fun rejected hrejected => hi.erases rejected ?_, nofun,
        nofun⟩
      obtain ⟨mode, expected, purpose⟩ := call
      cases hpurpose
      exact hrejected
    · exact hidle
  · rename_i call hphase
    rw [hphase] at hi
    split
    · rename_i clientId hclientId
      refine invariant_goes h ⟨fun client hclient d hd husable => ?_, nofun, nofun, nofun⟩
      cases hclient
      exact hi.mints call.expected rfl d hd (he call clientId hphase hclientId d hd husable)
    · exact hidle
  · exact h

theorem invariant_erase (h : Invariant w) (i : Nat) : Invariant (w.erase i) := by
  unfold World.erase
  split
  · intro j
    rw [RefreshRotation.phase_goes]
    change Sound none w.now _
    by_cases hj : j = i
    · rw [hj, Function.update_self]
      exact sound_jobless ⟨rfl, rfl, rfl⟩ rfl
    · rw [Function.update_of_ne hj]
      exact sound_none (h j)
  · exact h

theorem invariant_next (h : Invariant w) (hr : RefreshRotation.Invariant w) (e : Event)
    (ha : Undisturbed w e) : Invariant (next w e) := by
  cases e with
  | tick secs => exact fun i => sound_later (h i) (Nat.le_add_right w.now secs)
  | configure configured => exact h
  | begin i process caller => exact invariant_start h i process caller
  | peek i fails => exact invariant_peek h i fails
  | assess i => exact invariant_assess h hr i ha
  | lockMutex i => exact invariant_lockMutex h i
  | lockFile i => exact invariant_lockFile h i
  | reread i fails => exact invariant_reread h i fails ha
  | request i => exact invariant_request h i
  | respond i response => exact invariant_respond h hr i response
  | write i => exact invariant_write h i ha
  | proceed i canRemint => exact invariant_proceed h i canRemint ha
  | erase i => exact invariant_erase h i
  | fail i => exact invariant_release h (sound_jobless ⟨rfl, rfl, rfl⟩ rfl)

end Steps

theorem invariant_of_start (store : Option TokenData) (configured : Nat → Option String)
    (now : Nat) : Invariant (start store configured now) :=
  fun _ => sound_jobless ⟨rfl, rfl, rfl⟩ rfl

theorem invariant_reaches {store : Option TokenData} {configured : Nat → Option String}
    {now : Nat} {w : World} (h : system.Reaches Undisturbed (start store configured now) w) :
    Invariant w ∧ RefreshRotation.Invariant w :=
  system.invariant (fun w => Invariant w ∧ RefreshRotation.Invariant w)
    (fun _ e hw ha he => ⟨invariant_next hw.1 hw.2 e ha,
      RefreshRotation.invariant_next hw.2 e he⟩) h
    ⟨invariant_of_start store configured now,
      RefreshRotation.invariant_of_start store configured now⟩

/-- In undisturbed runs a client-credentials token is requested only under a lock with nothing
usable stored, and only the rejected token data is removed. -/
theorem sessions_kept {store : Option TokenData} {configured : Nat → Option String} {now : Nat}
    {w : World} (h : system.Reaches Undisturbed (start store configured now) w) :
    (∀ i clientId, w.phase i = .mint clientId → w.fileLock = some i ∧
      ∀ d, w.store = some d → ¬ Usable (some clientId) d w.now) ∧
    ∀ i rejected, w.phase i = .deleting (some rejected) → w.fileLock = some i ∧
      (w.store = none ∨ w.store = some rejected) := by
  obtain ⟨hw, hr⟩ := invariant_reaches h
  constructor
  · intro i clientId hphase
    have hi := hw i
    have hlock := (hr.tasks i).lock
    rw [hphase] at hi hlock
    exact ⟨hlock rfl, hi.mints (some clientId) rfl⟩
  · intro i rejected hphase
    have hi := hw i
    have hlock := (hr.tasks i).lock
    rw [hphase] at hi hlock
    exact ⟨hlock rfl, hi.erases rejected rfl⟩

/-- A client-credentials token, to be minted again from second 40 on. -/
def minted : TokenData :=
  { accessToken := "a", expiresAt := 100, refreshToken := none, refreshExpiresAt := none
    grantType := some .clientCredentials, clientId := some "c" }

def reminting : List Event :=
  [.tick 100, .begin 0 0 .resolve, .peek 0 false, .peek 0 false, .peek 0 false, .assess 0,
    .proceed 0 true, .proceed 0 true, .lockMutex 0, .lockFile 0]

theorem sessions_kept_reminting :
    let w := system.follow (start (some minted) (fun _ => some "c") 0) reminting
    w.store = some minted ∧ w.phase 0 = .mint "c" ∧ ¬ Usable (some "c") minted w.now := by
  have hstale : ∀ {d : TokenData} {client : Option String}, some minted = some d →
      ¬ Usable client d 100 := by
    rintro d client hd ⟨hfresh, -⟩
    cases hd
    cases hfresh
  have hadmits : system.Admits Undisturbed (start (some minted) (fun _ => some "c") 0)
      reminting := by
    refine ⟨trivial, trivial, trivial, rfl, trivial, trivial, trivial, trivial, trivial, trivial,
      ?_, trivial, ?_, trivial, ?_, trivial, trivial, rfl, trivial, rfl, trivial⟩
    · intro call read reason client _ _ _ d hd
      exact hstale hd
    · intro call clientId hphase
      cases hphase
    · intro call clientId _ _ d hd husable
      exact absurd husable (hstale hd)
  have hkept := (sessions_kept (Events.System.reaches_follow hadmits)).1 0 "c" rfl
  exact ⟨rfl, rfl, hkept.2 minted rfl⟩

/-- Two resolutions find nothing stored; one has stored its token when the other takes the lock. -/
def mintedTwice : List Event :=
  [.begin 0 0 .resolve, .peek 0 false, .peek 0 false, .peek 0 false, .assess 0, .proceed 0 true,
    .begin 1 1 .resolve, .peek 1 false, .peek 1 false, .peek 1 false, .assess 1, .proceed 1 true,
    .proceed 1 true, .lockMutex 1, .lockFile 1, .request 1,
    .respond 1 (.granted ⟨"t", 3600, none, none⟩), .write 1, .proceed 0 true, .lockMutex 0,
    .lockFile 0]

/-- A login stores its session between the rejection of the old one and its removal. -/
def removedLate : List Event :=
  [.tick 100, .begin 0 0 (.probe "c"), .peek 0 false, .peek 0 false, .assess 0, .lockMutex 0,
    .lockFile 0, .reread 0 false, .assess 0, .respond 0 (.rejected "invalid_grant"),
    .proceed 0 false,
    .begin 1 1 (.login ⟨"b", 3600, some "s", none⟩ .authorizationCode "c"), .lockFile 1, .write 1,
    .lockFile 0]

/-- A login replaces the stale session while a resolution waits for the lock, under which its read
fails. -/
def mintedBlind : List Event :=
  [.tick 100, .begin 0 0 .resolve, .peek 0 false, .peek 0 false, .peek 0 false, .assess 0,
    .begin 1 1 (.login ⟨"b", 3600, some "s", none⟩ .authorizationCode "c"), .lockFile 1, .write 1,
    .lockMutex 0, .lockFile 0, .reread 0 true, .assess 0, .proceed 0 true, .proceed 0 true,
    .lockMutex 0, .lockFile 0]

/-- A fresh token is minted over, for what another call stored in the gap and for a locked read that
failed; and the session of a login is removed in place of another. -/
theorem sessions_lost :
    (∃ w, system.Reaches Events.System.free (start none (fun _ => some "c") 0) w ∧
      w.phase 0 = .mint "c" ∧ ∃ d, w.store = some d ∧ Usable (some "c") d w.now) ∧
    (∃ w, system.Reaches Events.System.free
        (start (some RefreshRotation.session) (fun _ => some "c") 0) w ∧
      w.phase 0 = .mint "c" ∧ ∃ d, w.store = some d ∧ Usable (some "c") d w.now) ∧
    ∃ w, system.Reaches Events.System.free
        (start (some RefreshRotation.session) (fun _ => some "c") 0) w ∧
      w.phase 0 = .deleting (some RefreshRotation.session) ∧
      (∃ d, w.store = some d ∧ d ≠ RefreshRotation.session) ∧ (next w (.erase 0)).store = none := by
  have hminted : system.Admits Events.System.free (start none (fun _ => some "c") 0) mintedTwice :=
    ⟨trivial, rfl, trivial, trivial, trivial, trivial, trivial, trivial, trivial, trivial,
      trivial, trivial, trivial, rfl, trivial, trivial, trivial, trivial, trivial, trivial, trivial,
      trivial, trivial, trivial, trivial, trivial, trivial, rfl, trivial, rfl, trivial, trivial,
      trivial, ⟨nofun, trivial⟩, trivial, trivial, trivial, trivial, trivial, rfl, trivial, rfl,
      trivial⟩
  have hblind : system.Admits Events.System.free
      (start (some RefreshRotation.session) (fun _ => some "c") 0) mintedBlind :=
    ⟨trivial, trivial, trivial, rfl, trivial, trivial, trivial, trivial, trivial, trivial,
      trivial, trivial, trivial, ⟨rfl, by decide⟩, trivial, rfl, trivial, trivial, trivial, rfl,
      trivial, rfl, trivial, trivial, trivial, trivial, trivial, trivial, trivial, trivial, trivial,
      rfl, trivial, rfl, trivial⟩
  have hremoved : system.Admits Events.System.free
      (start (some RefreshRotation.session) (fun _ => some "c") 0) removedLate :=
    ⟨trivial, trivial, trivial, rfl, trivial, trivial, trivial, trivial, trivial, trivial,
      trivial, rfl, trivial, rfl, trivial, trivial, trivial, trivial, trivial, trivial, trivial,
      trivial, trivial, ⟨rfl, by decide⟩, trivial, rfl, trivial, trivial, trivial, rfl, trivial⟩
  refine ⟨?_, ?_, ?_⟩
  · exact ⟨_, Events.System.reaches_follow hminted, rfl, _, rfl, by decide, rfl⟩
  · exact ⟨_, Events.System.reaches_follow hblind, rfl, _, rfl, by decide, rfl⟩
  · exact ⟨_, Events.System.reaches_follow hremoved, rfl, ⟨_, rfl, by decide⟩, rfl⟩

end SessionGaps
