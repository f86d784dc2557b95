import AgsCli.Auth.SessionRaces

/-! # Refresh-token rotation

Whoever sends a refresh token holds the lock and has read it from the store under the lock; the
store holds the refresh token last issued except while its successor waits to be written. -/
namespace RefreshRotation

open AuthToken AuthSession SessionRaces

def holdsLock : Phase → Bool
  | .locked _ | .reread .. | .requested .. | .received .. | .mint _ | .minting _ | .minted _
  | .login _ | .deleting _ => true
  | _ => false

def lockedRead : Phase → Option (Option TokenData)
  | .reread _ read => some read
  | .requested _ read .. | .received _ read .. => some (some read)
  | _ => none

def refreshing : Phase → Option (Option String × TokenData)
  | .requested job read .. | .received job read .. => some (job.expected, read)
  | _ => none

/-- The read a returned token is from, for whom. -/
def returns : Phase → Option (Option String × Option TokenData)
  | .settled job (.refreshed ..) read => some (job.expected, read)
  | _ => none

def presented : Phase → Option String
  | .requested _ _ _ _ token => some token
  | _ => none

/-- The token data to be written in place of what was refreshed. -/
def renewed : Phase → Option TokenData
  | .received _ _ _ tokenData => some tokenData
  | _ => none

/-- The refresh token of token data on its way to the store. -/
def pending : Phase → Option String
  | .received _ _ _ tokenData | .minted tokenData | .loginLock tokenData | .login tokenData =>
    tokenData.refreshToken
  | _ => none

def storedRefresh (w : World) : Option String := w.store.bind TokenData.refreshToken

structure TaskSound (w : World) (i : Nat) (q : Phase) : Prop where
  lock : holdsLock q = true → w.fileLock = some i
  read : ∀ d, lockedRead q = some (some d) → w.store = some d
  client : ∀ expected d, refreshing q = some (expected, d) → clientMatches expected d = .ok ()
  returned : ∀ expected read, returns q = some (expected, read) →
    ∃ d, read = some d ∧ clientMatches expected d = .ok ()
  shown : ∀ token, presented q = some token → storedRefresh w = some token
  fresh : ∀ token, pending q = some token →
    token ∈ w.issued ∧ token ∉ w.spent ∧ storedRefresh w ≠ some token
  last : ∀ d, renewed q = some d → w.latest = d.refreshToken

structure Invariant (w : World) : Prop where
  tasks : ∀ i, TaskSound w i (w.phase i)
  apart : ∀ i j token, pending (w.phase i) = some token → pending (w.phase j) = some token → i = j
  issued : ∀ token, storedRefresh w = some token → token ∈ w.issued
  known : ∀ token ∈ w.spent, token ∈ w.issued
  stored : (∀ i, renewed (w.phase i) = none) →
    w.latest = storedRefresh w ∧ ∀ token, storedRefresh w = some token → token ∉ w.spent

section Phases

theorem holdsLock_of_read {q : Phase} {read : Option TokenData} (h : lockedRead q = some read) :
    holdsLock q = true := by
  cases q <;> first | rfl | cases h

theorem holdsLock_of_presented {q : Phase} {token : String} (h : presented q = some token) :
    holdsLock q = true := by
  cases q <;> first | rfl | cases h

theorem holdsLock_of_renewed {q : Phase} {d : TokenData} (h : renewed q = some d) :
    holdsLock q = true := by
  cases q <;> first | rfl | cases h

/-- A phase without a lock, a token of its own and a result. -/
structure Bare (q : Phase) : Prop where
  lock : holdsLock q = false
  pending : pending q = none
  client : refreshing q = none
  returned : returns q = none

theorem taskSound_bare {w : World} {i : Nat} {q : Phase} (h : Bare q) : TaskSound w i q where
  lock hlock := absurd hlock (by rw [h.lock]; exact Bool.false_ne_true)
  read _ hread := absurd (holdsLock_of_read hread) (by rw [h.lock]; exact Bool.false_ne_true)
  client _ _ hclient := by
    rw [h.client] at hclient
    cases hclient
  returned _ _ hreturned := by
    rw [h.returned] at hreturned
    cases hreturned
  shown _ hshown :=
    absurd (holdsLock_of_presented hshown) (by rw [h.lock]; exact Bool.false_ne_true)
  fresh _ hpending := by
    rw [h.pending] at hpending
    cases hpending
  last _ hlast := absurd (holdsLock_of_renewed hlast) (by rw [h.lock]; exact Bool.false_ne_true)

/-- A phase that has read nothing under the lock, presents nothing and returns nothing. -/
structure Silent (q : Phase) : Prop where
  read : lockedRead q = none
  client : refreshing q = none
  returned : returns q = none
  shown : presented q = none
  last : renewed q = none

theorem not_pending {q : Phase} {P : String → Prop} (h : pending q = none) :
    ∀ token, pending q = some token → P token := by
  intro token htoken
  rw [h] at htoken
  cases htoken

theorem taskSound_silent {w : World} {i : Nat} {q : Phase} (h : Silent q)
    (hlock : holdsLock q = true → w.fileLock = some i) (hfresh : ∀ token, pending q = some token →
      token ∈ w.issued ∧ token ∉ w.spent ∧ storedRefresh w ≠ some token) : TaskSound w i q where
  lock := hlock
  read _ hread := by
    rw [h.read] at hread
    cases hread
  client _ _ hclient := by
    rw [h.client] at hclient
    cases hclient
  returned _ _ hreturned := by
    rw [h.returned] at hreturned
    cases hreturned
  shown _ hshown := by
    rw [h.shown] at hshown
    cases hshown
  fresh := hfresh
  last _ hlast := by
    rw [h.last] at hlast
    cases hlast

end Phases

section Steps

variable {w w' : World} {i : Nat} {q : Phase}

@[simp] theorem phase_goes (w : World) (i : Nat) (q : Phase) :
    (w.goes i q).phase = Function.update w.phase i q := by
  funext j
  by_cases hj : j = i
  · subst hj
    simp [World.phase, World.goes]
  · simp [World.phase, World.goes, hj]

/-- A task changes its phase and, while it holds the lock or nobody does, what the lock guards. -/
theorem invariant_update (h : Invariant w) (hphase : w'.phase = Function.update w.phase i q)
    (hsound : TaskSound w' i q)
    (hguarded : ∀ j, j ≠ i → w.fileLock = some j →
      w'.fileLock = some j ∧ w'.store = w.store ∧ w'.latest = w.latest)
    (hissued : ∀ token ∈ w.issued, token ∈ w'.issued)
    (hspent : ∀ token ∈ w'.spent, token ∈ w.spent ∨ storedRefresh w = some token)
    (hstored : ∀ token, storedRefresh w' = some token →
      storedRefresh w = some token ∨ pending (w.phase i) = some token)
    (hpending : ∀ token, pending q = some token →
      pending (w.phase i) = some token ∨ token ∉ w.issued)
    (hfinal : (∀ j, renewed (w'.phase j) = none) → w'.latest = storedRefresh w' ∧
      ∀ token, storedRefresh w' = some token → token ∉ w'.spent) : Invariant w' := by
  have hself : w'.phase i = q := by rw [hphase, Function.update_self]
  have hother : ∀ j, j ≠ i → w'.phase j = w.phase j := fun j hj => by
    rw [hphase, Function.update_of_ne hj]
  have hstoredRefresh : ∀ j, j ≠ i → holdsLock (w.phase j) = true →
      storedRefresh w' = storedRefresh w := fun j hj hlock => by
    rw [storedRefresh, (hguarded j hj ((h.tasks j).lock hlock)).2.1]
    rfl
  refine ⟨fun j => ?_, fun j k token hj hk => ?_, fun token htoken => ?_, fun token htoken => ?_,
    hfinal⟩
  · by_cases hji : j = i
    · subst hji
      rwa [hself]
    · rw [hother j hji]
      have hj := h.tasks j
      constructor
      · intro hlock
        exact (hguarded j hji (hj.lock hlock)).1
      · intro read hread
        rw [(hguarded j hji (hj.lock (holdsLock_of_read hread))).2.1]
        exact hj.read read hread
      · exact hj.client
      · exact hj.returned
      · intro token hshown
        rw [hstoredRefresh j hji (holdsLock_of_presented hshown)]
        exact hj.shown token hshown
      · intro token htoken
        obtain ⟨hmem, hunspent, hne⟩ := hj.fresh token htoken
        refine ⟨hissued token hmem, fun hspent' => ?_, fun hstored' => ?_⟩
        · exact (hspent token hspent').elim hunspent hne
        · rcases hstored token hstored' with hold | hnew
          · exact hne hold
          · exact hji (h.apart j i token htoken hnew)
      · intro d hlast
        rw [(hguarded j hji (hj.lock (holdsLock_of_renewed hlast))).2.2]
        exact hj.last d hlast
  · have hcase : ∀ k, k ≠ i → pending (w.phase k) = some token → pending q ≠ some token := by
      intro k hki hk hq
      rcases hpending token hq with hold | hnew
      · exact hki (h.apart k i token hk hold)
      · exact hnew ((h.tasks k).fresh token hk).1
    by_cases hji : j = i
    · subst hji
      by_cases hki : k = j
      · exact hki.symm
      · rw [hother k hki] at hk
        rw [hself] at hj
        exact absurd hj (hcase k hki hk)
    · rw [hother j hji] at hj
      by_cases hki : k = i
      · subst hki
        rw [hself] at hk
        exact absurd hk (hcase j hji hj)
      · rw [hother k hki] at hk
        exact h.apart j k token hj hk
  · rcases hstored token htoken with hold | hnew
    · exact hissued token (h.issued token hold)
    · exact hissued token ((h.tasks i).fresh token hnew).1
  · rcases hspent token htoken with hold | hstore
    · exact hissued token (h.known token hold)
    · exact hissued token (h.issued token hstore)

structure Same (w w' : World) : Prop where
  store : w'.store = w.store
  issued : w'.issued = w.issued
  spent : w'.spent = w.spent
  latest : w'.latest = w.latest

theorem invariant_quiet (h : Invariant w) (hsame : Same w w')
    (hphase : w'.phase = Function.update w.phase i q) (hsound : TaskSound w' i q)
    (hlock : ∀ j, j ≠ i → w.fileLock = some j → w'.fileLock = some j)
    (hrenewed : renewed (w.phase i) = none)
    (hpending : ∀ token, pending q = some token → pending (w.phase i) = some token) :
    Invariant w' := by
  have hstored : storedRefresh w' = storedRefresh w := by
    rw [storedRefresh, hsame.store]
    rfl
  refine invariant_update h hphase hsound (fun j hj hheld => ⟨hlock j hj hheld, hsame.store,
    hsame.latest⟩) ?_ ?_ ?_ (fun token ht => Or.inl (hpending token ht)) fun hnone => ?_
  · intro token hmem
    rwa [hsame.issued]
  · intro token hmem
    rw [hsame.spent] at hmem
    exact Or.inl hmem
  · intro token ht
    rw [hstored] at ht
    exact Or.inl ht
  · rw [hsame.latest, hsame.spent, hstored]
    refine h.stored fun j => ?_
    by_cases hji : j = i
    · rw [hji]
      exact hrenewed
    · have hj := hnone j
      rwa [hphase, Function.update_of_ne hji] at hj

theorem invariant_goes (h : Invariant w) (hsound : TaskSound w i q)
    (hrenewed : renewed (w.phase i) = none)
    (hpending : ∀ token, pending q = some token → pending (w.phase i) = some token) :
    Invariant (w.goes i q) :=
  invariant_quiet h ⟨rfl, rfl, rfl, rfl⟩ (phase_goes w i q)
    ⟨hsound.lock, hsound.read, hsound.client, hsound.returned, hsound.shown, hsound.fresh,
      hsound.last⟩ (fun _ _ hheld => hheld) hrenewed hpending

theorem invariant_bare (h : Invariant w) (hq : Bare q) (hrenewed : renewed (w.phase i) = none) :
    Invariant (w.goes i q) := by
  refine invariant_goes h (taskSound_bare hq) hrenewed fun token ht => ?_
  rw [hq.pending] at ht
  cases ht

theorem release_fileLock {j : Nat} (hj : j ≠ i) (h : w.fileLock = some j) :
    (w.release i).fileLock = some j := by
  have hne : w.fileLock ≠ some i := by
    rw [h]
    exact fun heq => hj (Option.some.inj heq)
  rw [World.release, if_neg hne]
  exact h

theorem invariant_release (h : Invariant w) (hq : TaskSound w i q) (hfree : holdsLock q = false)
    (hrenewed : renewed (w.phase i) = none) (hpending : pending q = none) :
    Invariant ((w.release i).goes i q) := by
  refine invariant_quiet h ⟨rfl, rfl, rfl, rfl⟩ (phase_goes (w.release i) i q) ?_
    (fun j hj hheld => release_fileLock hj hheld) hrenewed fun token ht => ?_
  · refine ⟨fun hlock => ?_, hq.read, hq.client, hq.returned, hq.shown, hq.fresh, hq.last⟩
    rw [hfree] at hlock
    cases hlock
  · rw [hpending] at ht
    cases ht

end Steps

section Events

variable {w : World} (h : Invariant w)
include h

theorem invariant_peek (i : Nat) (fails : Bool) : Invariant (w.peek i fails) := by
  unfold World.peek
  split
  · rename_i hphase
    exact invariant_bare h ⟨rfl, rfl, rfl, rfl⟩ (by rw [hphase]; rfl)
  · rename_i hphase
    exact invariant_bare h ⟨rfl, rfl, rfl, rfl⟩ (by rw [hphase]; rfl)
  · rename_i hphase
    split_ifs
    · exact invariant_bare h ⟨rfl, rfl, rfl, rfl⟩ (by rw [hphase]; rfl)
    · exact invariant_bare h ⟨rfl, rfl, rfl, rfl⟩ (by rw [hphase]; rfl)
  · rename_i hphase
    exact invariant_bare h ⟨rfl, rfl, rfl, rfl⟩ (by rw [hphase]; rfl)
  · exact h

omit h in
theorem taskSound_settled {i : Nat} {job : Job} {read : Option TokenData} {now : Nat}
    {outcome : RefreshOutcome}
    (hassess : assess job.mode job.expected read now = .settle outcome) :
    TaskSound w i (.settled job outcome read) where
  lock := nofun
  read := nofun
  client := nofun
  returned expected read' hreturned := by
    cases outcome with
    | refreshed token source secs =>
      cases hreturned
      obtain ⟨d, hd, hclient, -⟩ := assess_reused hassess
      exact ⟨d, hd, hclient⟩
    | unavailable reason | rejected message => cases hreturned
  shown := nofun
  fresh := nofun
  last := nofun

theorem invariant_assess (i : Nat) : Invariant (w.assess i) := by
  unfold World.assess
  split
  · rename_i job read hphase
    have hrenewed : renewed (w.phase i) = none := by rw [hphase]; rfl
    split
    · rename_i outcome hassess
      exact invariant_goes h (taskSound_settled hassess) hrenewed nofun
    · exact invariant_bare h ⟨rfl, rfl, rfl, rfl⟩ hrenewed
  · rename_i job read hphase
    have hrenewed : renewed (w.phase i) = none := by rw [hphase]; rfl
    have hsound := h.tasks i
    rw [hphase] at hsound
    split
    · rename_i outcome hassess
      exact invariant_release h (taskSound_settled hassess) rfl hrenewed rfl
    · rename_i token tokenData clientId hclientId hassess
      obtain ⟨d, hd, hclient, hshown, -⟩ := assess_refresh hassess
      cases hd
      have hstore : w.store = some tokenData := hsound.read _ rfl
      refine invariant_goes h ⟨fun _ => hsound.lock rfl, ?_, ?_, nofun, ?_, nofun, nofun⟩ hrenewed
        nofun
      · intro read hread
        cases hread
        exact hstore
      · intro expected d hd
        cases hd
        exact hclient
      · intro token' ht
        cases ht
        rw [storedRefresh, hstore]
        exact hshown
    · exact invariant_release h (taskSound_bare ⟨rfl, rfl, rfl, rfl⟩) rfl hrenewed rfl
  · exact h

theorem invariant_lockMutex (i : Nat) : Invariant (w.lockMutex i) := by
  have hquiet : ∀ q : Phase, Bare q → renewed (w.phase i) = none →
      Invariant ({ w with mutexes := Function.update w.mutexes (w.process i) (some i) }.goes i q) :=
    fun q hq hrenewed => invariant_quiet h ⟨rfl, rfl, rfl, rfl⟩ (phase_goes _ i q)
      (taskSound_bare hq) (fun _ _ hheld => hheld) hrenewed fun token ht => by
        rw [hq.pending] at ht
        cases ht
  unfold World.lockMutex
  extract_lets held
  split
  · rename_i hphase
    exact hquiet _ ⟨rfl, rfl, rfl, rfl⟩ (by rw [hphase]; rfl)
  · rename_i hphase
    exact hquiet _ ⟨rfl, rfl, rfl, rfl⟩ (by rw [hphase]; rfl)
  · exact h

theorem invariant_lockFile (hfree : w.fileLock = none) (i : Nat) : Invariant (w.lockFile i) := by
  have hquiet : ∀ q : Phase, TaskSound { w with fileLock := some i } i q →
      renewed (w.phase i) = none →
      (∀ token, pending q = some token → pending (w.phase i) = some token) →
      Invariant ({ w with fileLock := some i }.goes i q) := fun q hq hrenewed hpending =>
    invariant_quiet h ⟨rfl, rfl, rfl, rfl⟩ (phase_goes _ i q)
      ⟨hq.lock, hq.read, hq.client, hq.returned, hq.shown, hq.fresh, hq.last⟩
      (fun j _ hheld => by
        rw [hfree] at hheld
        cases hheld) hrenewed hpending
  have hsound := h.tasks i
  unfold World.lockFile
  extract_lets held
  split
  · rename_i hphase
    exact hquiet _ (taskSound_silent ⟨rfl, rfl, rfl, rfl, rfl⟩ (fun _ => rfl) (not_pending rfl))
      (by rw [hphase]; rfl) (not_pending rfl)
  · rename_i hphase
    exact hquiet _ (taskSound_silent ⟨rfl, rfl, rfl, rfl, rfl⟩ (fun _ => rfl) (not_pending rfl))
      (by rw [hphase]; rfl) (not_pending rfl)
  · rename_i tokenData hphase
    rw [hphase] at hsound
    exact hquiet _ (taskSound_silent ⟨rfl, rfl, rfl, rfl, rfl⟩ (fun _ => rfl) hsound.fresh)
      (by rw [hphase]; rfl) fun token ht => by rw [hphase]; exact ht
  · rename_i hphase
    exact hquiet _ (taskSound_silent ⟨rfl, rfl, rfl, rfl, rfl⟩ (fun _ => rfl) (not_pending rfl))
      (by rw [hphase]; rfl) (not_pending rfl)
  · exact h

theorem invariant_reread (i : Nat) (fails : Bool) : Invariant (w.reread i fails) := by
  unfold World.reread
  split
  · rename_i job hphase
    have hsound := h.tasks i
    rw [hphase] at hsound
    refine invariant_goes h ⟨fun _ => hsound.lock rfl, ?_, nofun, nofun, nofun, nofun, nofun⟩
      (by rw [hphase]; rfl) nofun
    intro d hread
    change some (w.reads fails) = some (some d) at hread
    unfold World.reads at hread
    split_ifs at hread
    · cases hread
    · exact Option.some.inj hread
  · exact h

theorem invariant_request (i : Nat) : Invariant (w.request i) := by
  unfold World.request
  split
  · rename_i clientId hphase
    have hsound := h.tasks i
    rw [hphase] at hsound
    exact invariant_goes h
      (taskSound_silent ⟨rfl, rfl, rfl, rfl, rfl⟩ (fun _ => hsound.lock rfl) (not_pending rfl))
      (by rw [hphase]; rfl) (not_pending rfl)
  · exact h

theorem invariant_proceed (i : Nat) (canRemint : Bool) : Invariant (w.proceed i canRemint) := by
  unfold World.proceed
  split
  · rename_i job outcome read hphase
    have hrenewed : renewed (w.phase i) = none := by rw [hphase]; rfl
    split
    · split_ifs
      · exact invariant_bare h ⟨rfl, rfl, rfl, rfl⟩ hrenewed
      · exact invariant_bare h ⟨rfl, rfl, rfl, rfl⟩ hrenewed
    · exact invariant_bare h ⟨rfl, rfl, rfl, rfl⟩ hrenewed
    · exact invariant_bare h ⟨rfl, rfl, rfl, rfl⟩ hrenewed
  · rename_i job hphase
    have hrenewed : renewed (w.phase i) = none := by rw [hphase]; rfl
    split
    · exact invariant_bare h ⟨rfl, rfl, rfl, rfl⟩ hrenewed
    · exact invariant_bare h ⟨rfl, rfl, rfl, rfl⟩ hrenewed
  · exact h

/-- A task without token data on its way returns empty-handed. -/
theorem invariant_fail {i : Nat} (hrenewed : renewed (w.phase i) = none) :
    Invariant ((w.release i).goes i .idle) :=
  invariant_release h (taskSound_bare ⟨rfl, rfl, rfl, rfl⟩) rfl hrenewed rfl

theorem invariant_issues {i : Nat} {q : Phase} {result : TokenResult} {tasks : Nat → Task}
    (hfresh : FreshlyIssued w result) (hrenewed : renewed (w.phase i) = none)
    (hq : TaskSound (w.issues result) i q)
    (hpending : ∀ token, pending q = some token → result.refreshToken = some token)
    (hphase : ({ w.issues result with tasks } : World).phase = Function.update w.phase i q) :
    Invariant { w.issues result with tasks } := by
  refine invariant_update h hphase ⟨hq.lock, hq.read, hq.client, hq.returned, hq.shown, hq.fresh,
    hq.last⟩ (fun j _ hheld => ⟨hheld, rfl, rfl⟩) ?_ (fun token ht => Or.inl ht)
    (fun token ht => Or.inl ht) ?_ fun hnone => h.stored fun j => ?_
  · intro token hmem
    exact List.mem_append_right _ hmem
  · intro token ht
    exact Or.inr (hfresh token (hpending token ht))
  · by_cases hji : j = i
    · rw [hji]
      exact hrenewed
    · have hj := hnone j
      rwa [hphase, Function.update_of_ne hji] at hj

theorem fresh_issued {result : TokenResult} (hfresh : FreshlyIssued w result) {token : String}
    (ht : result.refreshToken = some token) :
    token ∈ (w.issues result).issued ∧ token ∉ w.spent ∧ storedRefresh w ≠ some token := by
  have hnew : token ∉ w.issued := hfresh token ht
  refine ⟨List.mem_append_left _ ?_, fun hmem => hnew (h.known token hmem), fun hstored => ?_⟩
  · rw [ht]
    exact List.mem_singleton.mpr rfl
  · exact hnew (h.issued token hstored)

omit h in
theorem not_other {i j : Nat} (hlock : w.fileLock = some i) (hj : j ≠ i)
    (hheld : w.fileLock = some j) : False := by
  rw [hlock] at hheld
  exact hj (Option.some.inj hheld).symm

theorem invariant_respond (i : Nat) (response : Response)
    (hfresh : ∀ result, response = .granted result → FreshlyIssued w result) :
    Invariant (w.respond i response) := by
  have hsound := h.tasks i
  unfold World.respond
  split
  · rename_i job read clientId sentAt token result hphase
    have hnew := hfresh result rfl
    rw [hphase] at hsound
    have hlock : w.fileLock = some i := hsound.lock rfl
    have hshown : storedRefresh w = some token := hsound.shown token rfl
    extract_lets next
    have hnext := phase_goes (w.issues result) i (.received job read result next)
    refine invariant_update h hnext ?_
      (fun j hj hheld => (not_other hlock hj hheld).elim) ?_ ?_ (fun _ ht => Or.inl ht)
      (fun token ht => Or.inr (hnew token ht)) fun hnone => ?_
    · refine ⟨fun _ => hlock, hsound.read, hsound.client, nofun, nofun, fun token' ht => ?_, ?_⟩
      · obtain ⟨hissued, hunspent, hstored⟩ := fresh_issued h hnew ht
        refine ⟨hissued, fun hmem => ?_, hstored⟩
        rcases List.mem_cons.mp hmem with rfl | hmem
        · exact hstored hshown
        · exact hunspent hmem
      · intro d hd
        cases hd
        rfl
    · exact fun token hmem => List.mem_append_right _ hmem
    · intro spent hmem
      rcases List.mem_cons.mp hmem with rfl | hmem
      · exact Or.inr hshown
      · exact Or.inl hmem
    · have hself : renewed (((w.issues result).goes i (.received job read result next)).phase i) =
          none := hnone i
      rw [hnext, Function.update_self] at hself
      cases hself
  · rename_i job read clientId sentAt token message hphase
    rw [hphase] at hsound
    exact invariant_release h (taskSound_bare ⟨rfl, rfl, rfl, rfl⟩) rfl
      (by rw [hphase]; rfl) rfl
  · rename_i clientId result hphase
    rw [hphase] at hsound
    have hnext := phase_goes (w.issues result) i
      (.minted (tokenResultToTokenData result .clientCredentials w.now clientId))
    have hminted : TaskSound (w.issues result) i
        (.minted (tokenResultToTokenData result .clientCredentials w.now clientId)) :=
      taskSound_silent ⟨rfl, rfl, rfl, rfl, rfl⟩ (fun _ => hsound.lock rfl)
        fun token ht => fresh_issued h (hfresh result rfl) ht
    exact invariant_issues h (hfresh result rfl) (by rw [hphase]; rfl) hminted (fun _ ht => ht)
      hnext
  · rename_i hphase
    exact invariant_fail h (by rw [hphase]; rfl)
  · exact h

/-- The holder of the lock stores its token data and lets go. -/
theorem invariant_stores {i : Nat} {q : Phase} {tokenData : TokenData}
    (hlock : w.fileLock = some i) (hpending : pending (w.phase i) = tokenData.refreshToken)
    (hq : TaskSound (w.stores tokenData) i q) (hfree : holdsLock q = false)
    (hnone : pending q = none) :
    Invariant (((w.stores tokenData).release i).goes i q) := by
  refine invariant_update h (phase_goes ((w.stores tokenData).release i) i q)
    ⟨?_, hq.read, hq.client, hq.returned, hq.shown, hq.fresh, hq.last⟩
    (fun j hj hheld => (not_other hlock hj hheld).elim) (fun _ hmem => hmem)
    (fun _ hmem => Or.inl hmem) (fun token ht => Or.inr (hpending.trans ht)) ?_
    fun _ => ⟨rfl, fun token ht => ((h.tasks i).fresh token (hpending.trans ht)).2.1⟩
  · intro hlock
    rw [hfree] at hlock
    cases hlock
  · intro token ht
    rw [hnone] at ht
    cases ht

theorem invariant_write (i : Nat) : Invariant (w.write i) := by
  have hsound := h.tasks i
  unfold World.write
  split
  · rename_i job read result renewed hphase
    rw [hphase] at hsound
    refine invariant_stores h (hsound.lock rfl) (by rw [hphase]; rfl)
      ⟨nofun, nofun, nofun, ?_, nofun, nofun, nofun⟩ rfl rfl
    intro expected read' hreturned
    cases hreturned
    exact ⟨read, rfl, hsound.client _ _ rfl⟩
  · rename_i tokenData hphase
    rw [hphase] at hsound
    exact invariant_stores h (hsound.lock rfl) (by rw [hphase]; rfl)
      (taskSound_bare ⟨rfl, rfl, rfl, rfl⟩) rfl rfl
  · rename_i tokenData hphase
    rw [hphase] at hsound
    exact invariant_stores h (hsound.lock rfl) (by rw [hphase]; rfl)
      (taskSound_bare ⟨rfl, rfl, rfl, rfl⟩) rfl rfl
  · exact h

theorem invariant_erase (i : Nat) : Invariant (w.erase i) := by
  have hsound := h.tasks i
  unfold World.erase
  split
  · rename_i rejected hphase
    rw [hphase] at hsound
    refine invariant_update h (phase_goes (World.release _ i) i .idle)
      (taskSound_bare ⟨rfl, rfl, rfl, rfl⟩)
      (fun j hj hheld => (not_other (hsound.lock rfl) hj hheld).elim) (fun _ hmem => hmem)
      (fun _ hmem => Or.inl hmem) nofun nofun fun _ => ⟨rfl, nofun⟩
  · exact h

theorem invariant_start {i : Nat} (hidle : w.phase i = .idle) (process : Nat) (caller : Caller)
    (hfresh : ∀ result grantType clientId, caller = .login result grantType clientId →
      FreshlyIssued w result) : Invariant (w.start i process caller) := by
  have hrenewed : renewed (w.phase i) = none := by rw [hidle]; rfl
  have hphase : ∀ (w : World) (q : Phase),
      ({ w with tasks := Function.update w.tasks i ⟨process, q⟩ } : World).phase =
        Function.update w.phase i q := by
    intro w q
    funext j
    by_cases hj : j = i
    · subst hj
      simp [World.phase]
    · simp [World.phase, hj]
  have hbare : ∀ q, Bare q →
      Invariant { w with tasks := Function.update w.tasks i ⟨process, q⟩ } := by
    intro q hq
    refine invariant_quiet h ⟨rfl, rfl, rfl, rfl⟩ (hphase w q) (taskSound_bare hq)
      (fun _ _ hheld => hheld) hrenewed fun token ht => ?_
    rw [hq.pending] at ht
    cases ht
  cases caller with
  | refresh mode expected => exact hbare _ ⟨rfl, rfl, rfl, rfl⟩
  | resolve => exact hbare _ ⟨rfl, rfl, rfl, rfl⟩
  | probe clientId => exact hbare _ ⟨rfl, rfl, rfl, rfl⟩
  | logout => exact hbare _ ⟨rfl, rfl, rfl, rfl⟩
  | login result grantType clientId =>
    have hnew := hfresh result grantType clientId rfl
    have hnext := hphase (w.issues result)
      (.loginLock (tokenResultToTokenData result grantType w.now clientId))
    have hlogin : TaskSound (w.issues result) i
        (.loginLock (tokenResultToTokenData result grantType w.now clientId)) :=
      taskSound_silent ⟨rfl, rfl, rfl, rfl, rfl⟩ nofun fun token ht => fresh_issued h hnew ht
    exact invariant_issues h hnew hrenewed hlogin (fun _ ht => ht) hnext

theorem invariant_next (e : Event) (he : Enabled w e) : Invariant (next w e) := by
  cases e with
  | tick secs => exact ⟨fun i => ⟨(h.tasks i).lock, (h.tasks i).read, (h.tasks i).client,
      (h.tasks i).returned, (h.tasks i).shown, (h.tasks i).fresh, (h.tasks i).last⟩, h.apart,
      h.issued, h.known, h.stored⟩
  | configure configured => exact ⟨fun i => ⟨(h.tasks i).lock, (h.tasks i).read,
      (h.tasks i).client, (h.tasks i).returned, (h.tasks i).shown, (h.tasks i).fresh,
      (h.tasks i).last⟩, h.apart, h.issued, h.known, h.stored⟩
  | begin i process caller =>
    cases caller with
    | login result grantType clientId =>
      refine invariant_start h he.1 process (.login result grantType clientId) ?_
      intro result' _ _ heq
      cases heq
      exact he.2
    | refresh mode expected =>
      exact invariant_start h he process (.refresh mode expected) nofun
    | resolve => exact invariant_start h he process .resolve nofun
    | probe clientId => exact invariant_start h he process (.probe clientId) nofun
    | logout => exact invariant_start h he process .logout nofun
  | peek i fails => exact invariant_peek h i fails
  | assess i => exact invariant_assess h i
  | lockMutex i => exact invariant_lockMutex h i
  | lockFile i => exact invariant_lockFile h he i
  | reread i fails => exact invariant_reread h i fails
  | request i => exact invariant_request h i
  | respond i response =>
    refine invariant_respond h i response fun result heq => ?_
    subst heq
    exact he.1
  | write i => exact invariant_write h i
  | proceed i canRemint => exact invariant_proceed h i canRemint
  | erase i => exact invariant_erase h i
  | fail i =>
    refine invariant_fail h ?_
    simp only [Enabled] at he
    split at he
    · exact he.elim
    · rename_i hnot
      cases hphase : w.phase i with
      | received job read result renewed => exact absurd hphase (hnot job read result renewed)
      | _ => rfl

end Events

theorem invariant_of_start (store : Option TokenData) (configured : Nat → Option String)
    (now : Nat) : Invariant (start store configured now) where
  tasks _ := taskSound_bare ⟨rfl, rfl, rfl, rfl⟩
  apart := nofun
  issued token ht := by
    have hmem : (start store configured now).issued = (storedRefresh
      (start store configured now)).toList := rfl
    rw [hmem, ht]
    exact List.mem_singleton.mpr rfl
  known := nofun
  stored _ := ⟨rfl, nofun⟩

section Runs

variable {store : Option TokenData} {configured : Nat → Option String} {now : Nat} {w : World}

theorem invariant_reaches (h : system.Reaches Events.System.free (start store configured now) w) :
    Invariant w :=
  system.invariant Invariant (fun _ e hw _ he => invariant_next hw e he) h
    (invariant_of_start store configured now)

/-- While a task holds the lock with nothing to write, the store is up to date. -/
theorem upToDate_of_lock (h : Invariant w) {i : Nat} (hlock : holdsLock (w.phase i) = true)
    (hrenewed : renewed (w.phase i) = none) :
    w.latest = storedRefresh w ∧ ∀ token, storedRefresh w = some token → token ∉ w.spent := by
  refine h.stored fun j => ?_
  cases hj : renewed (w.phase j) with
  | none => rfl
  | some d =>
    have hheld : w.fileLock = some j := (h.tasks j).lock (holdsLock_of_renewed hj)
    rw [(h.tasks i).lock hlock] at hheld
    cases hheld
    rw [hrenewed] at hj
    cases hj

/-- A refresh request carries the refresh token last issued, of the client's session as it was read
under the lock; a probe sends it for a stale session only, and a token is returned from a read of
the client's session only. -/
theorem refresh_rotation
    (h : system.Reaches Events.System.free (start store configured now) w) :
    (∀ i job read clientId sentAt token, w.phase i = .requested job read clientId sentAt token →
      w.latest = some token ∧ token ∉ w.spent ∧ w.fileLock = some i ∧ w.store = some read ∧
        clientMatches job.expected read = .ok ()) ∧
    (∀ i job read token, w.phase i = .reread job read →
      assess job.mode job.expected read w.now = .refresh token →
      w.latest = some token ∧ token ∉ w.spent ∧ w.fileLock = some i ∧ w.store = read ∧
        ∃ d, read = some d ∧ clientMatches job.expected d = .ok () ∧
          (job.mode = .probe → isFresh d w.now = false)) ∧
    ∀ i job token source secs read,
      w.phase i = .settled job (.refreshed token source secs) read →
      ∃ d, read = some d ∧ clientMatches job.expected d = .ok () := by
  have hw := invariant_reaches h
  refine ⟨fun i job read clientId sentAt token hphase => ?_,
    fun i job read token hphase hassess => ?_,
    fun i job token source secs read hphase => ?_⟩
  · have hsound := hw.tasks i
    obtain ⟨hlatest, hunspent⟩ := upToDate_of_lock hw (by rw [hphase]; rfl) (by rw [hphase]; rfl)
    rw [hphase] at hsound
    have hstored : storedRefresh w = some token := hsound.shown token rfl
    exact ⟨hlatest.trans hstored, hunspent token hstored, hsound.lock rfl, hsound.read _ rfl,
      hsound.client _ _ rfl⟩
  · have hsound := hw.tasks i
    obtain ⟨hlatest, hunspent⟩ := upToDate_of_lock hw (by rw [hphase]; rfl) (by rw [hphase]; rfl)
    rw [hphase] at hsound
    obtain ⟨d, rfl, hclient, htoken, hstale⟩ := assess_refresh hassess
    have hstore : w.store = some d := hsound.read _ rfl
    have hstored : storedRefresh w = some token := by
      rw [storedRefresh, hstore]
      exact htoken
    exact ⟨hlatest.trans hstored, hunspent token hstored, hsound.lock rfl, hstore, d, rfl, hclient,
      hstale⟩
  · have hsound := hw.tasks i
    rw [hphase] at hsound
    exact hsound.returned _ _ rfl

end Runs

/-- Stale from second 40 on, with a refresh token. -/
def session : TokenData :=
  { accessToken := "a", expiresAt := 100, refreshToken := some "r", refreshExpiresAt := none
    grantType := some .authorizationCode, clientId := some "c" }

/-- Two forced refreshes have read the session before the second one replaces it. -/
def contention : List Event :=
  [.tick 100, .begin 0 0 (.refresh .force (some "c")), .begin 1 1 (.refresh .force (some "c")),
    .peek 0 false, .peek 1 false, .assess 0, .assess 1, .lockMutex 1, .lockFile 1,
    .reread 1 false, .assess 1, .respond 1 (.granted ⟨"b", 3600, some "s", none⟩), .write 1,
    .lockMutex 0, .lockFile 0, .reread 0 false, .assess 0]

theorem refresh_rotation_contention :
    let w := system.follow (start (some session) (fun _ => some "c") 0) contention
    w.spent = ["r"] ∧ w.latest = some "s" ∧ "s" ∉ w.spent ∧ w.fileLock = some 0 := by
  have hadmits : system.Admits Events.System.free
      (start (some session) (fun _ => some "c") 0) contention :=
    ⟨trivial, trivial, trivial, rfl, trivial, rfl, trivial, trivial, trivial, trivial, trivial,
      trivial, trivial, trivial, trivial, rfl, trivial, rfl, trivial, trivial, trivial, trivial,
      trivial, ⟨by decide, nofun⟩, trivial, trivial, trivial, rfl, trivial, rfl, trivial,
      trivial, trivial, trivial, trivial⟩
  obtain ⟨hlatest, hunspent, hlock, -⟩ := (refresh_rotation
    (Events.System.reaches_follow hadmits)).1 0 _ _ _ _ "s" rfl
  exact ⟨rfl, hlatest, hunspent, hlock⟩

/-- A probe has read a fresh session when a login of another client replaces it. -/
def overtaken : List Event :=
  [.begin 0 0 (.refresh .probe (some "c")), .peek 0 false,
    .begin 1 1 (.login ⟨"b", 3600, none, none⟩ .authorizationCode "d"), .lockFile 1, .write 1,
    .assess 0]

/-- The fast path returns a token with no read under the lock, when the store has another client's
one. -/
theorem fast_path_unlocked :
    let w := system.follow (start (some session) (fun _ => some "c") 0) overtaken
    system.Admits Events.System.free (start (some session) (fun _ => some "c") 0) overtaken ∧
      .reread 0 false ∉ overtaken ∧
      w.phase 0 = .settled ⟨.probe, some "c", .direct⟩ (.refreshed "a" .stored 100) (some session) ∧
      ¬ ∃ d, w.store = some d ∧ clientMatches (some "c") d = .ok () := by
  refine ⟨⟨trivial, rfl, trivial, trivial, trivial, ⟨rfl, by decide⟩, trivial, rfl, trivial,
    trivial, trivial, trivial, trivial⟩, by simp [overtaken], rfl, ?_⟩
  rintro ⟨d, hd, hclient⟩
  cases hd
  cases hclient

end RefreshRotation
