import AgsCli.Auth.Session
import AgsCli.Library.Events
import Mathlib.Logic.Function.Basic

/-! # Concurrent sessions

Any number of calls on one profile, in any number of processes: token resolution, refreshes, login
probes, stores of new logins and removals. Every read, lock, request and write is a step of its own,
and any read may fail. The server issues refresh tokens it has not issued before and spends the one
it is shown. -/
namespace SessionRaces

open AuthToken AuthSession ConfigStore

inductive Purpose
  | direct
  | resolve (isAuthorizationCode : Bool)
  | probe
  deriving DecidableEq

structure Job where
  mode : RefreshMode
  expected : Option String
  purpose : Purpose
  deriving DecidableEq

/-- `requested` has sent the refresh token and waits; `settled` keeps the read its outcome is
from; `deleteLock` what its caller has seen rejected. -/
inductive Phase
  | idle
  | grant
  | client (isAuthorizationCode : Bool)
  | probing (clientId : String)
  | unlocked (job : Job)
  | peeked (job : Job) (read : Option TokenData)
  | mutexWait (job : Job)
  | lockWait (job : Job)
  | locked (job : Job)
  | reread (job : Job) (read : Option TokenData)
  | requested (job : Job) (read : TokenData) (clientId : String) (sentAt : Nat)
      (presented : String)
  | received (job : Job) (read : TokenData) (result : TokenResult) (renewed : TokenData)
  | settled (job : Job) (outcome : RefreshOutcome) (read : Option TokenData)
  | credentials (job : Job)
  | mintMutex (clientId : String)
  | mintLock (clientId : String)
  | mint (clientId : String)
  | minting (clientId : String)
  | minted (tokenData : TokenData)
  | loginLock (tokenData : TokenData)
  | login (tokenData : TokenData)
  | deleteLock (rejected : Option TokenData)
  | deleting (rejected : Option TokenData)
  deriving DecidableEq

structure Task where
  process : Nat
  phase : Phase
  deriving DecidableEq

/-- `configured` is the client each process resolves; `latest` is the refresh token last issued for
the stored session. -/
structure World where
  store : Option TokenData
  fileLock : Option Nat
  mutexes : Nat → Option Nat
  tasks : Nat → Task
  configured : Nat → Option String
  now : Nat
  issued : List String
  spent : List String
  latest : Option String

inductive Caller
  | refresh (mode : RefreshMode) (expected : Option String)
  | resolve
  | probe (clientId : String)
  | login (result : TokenResult) (grantType : GrantType) (clientId : String)
  | logout
  deriving DecidableEq

inductive Response
  | granted (result : TokenResult)
  | rejected (message : String)
  deriving DecidableEq

inductive Event
  | tick (secs : Nat)
  | configure (configured : Nat → Option String)
  | begin (i process : Nat) (caller : Caller)
  | peek (i : Nat) (fails : Bool)
  | assess (i : Nat)
  | lockMutex (i : Nat)
  | lockFile (i : Nat)
  | reread (i : Nat) (fails : Bool)
  | request (i : Nat)
  | respond (i : Nat) (response : Response)
  | write (i : Nat)
  | proceed (i : Nat) (canRemint : Bool)
  | erase (i : Nat)
  | fail (i : Nat)

namespace World

variable (w : World)

def phase (i : Nat) : Phase := (w.tasks i).phase

def goes (i : Nat) (phase : Phase) : World :=
  { w with tasks := Function.update w.tasks i { w.tasks i with phase } }

def release (i : Nat) : World :=
  { w with
    fileLock := if w.fileLock = some i then none else w.fileLock
    mutexes := fun p => if w.mutexes p = some i then none else w.mutexes p }

def stores (tokenData : TokenData) : World :=
  { w with store := some tokenData, latest := tokenData.refreshToken }

def issues (result : TokenResult) : World :=
  { w with issued := result.refreshToken.toList ++ w.issued }

def process (i : Nat) : Nat := (w.tasks i).process

def start (i process : Nat) : Caller → World
  | .refresh mode expected => { w with
      tasks := Function.update w.tasks i ⟨process, .unlocked ⟨mode, expected, .direct⟩⟩ }
  | .resolve => { w with tasks := Function.update w.tasks i ⟨process, .grant⟩ }
  | .probe clientId => { w with tasks := Function.update w.tasks i ⟨process, .probing clientId⟩ }
  | .login result grantType clientId => { w.issues result with
      tasks := Function.update w.tasks i
        ⟨process, .loginLock (tokenResultToTokenData result grantType w.now clientId)⟩ }
  | .logout => { w with tasks := Function.update w.tasks i ⟨process, .deleteLock none⟩ }

/-- What a read of the store gives: one that fails finds no token data (`.ok().flatten()`). -/
def reads (fails : Bool) : Option TokenData := if fails then none else w.store

def peek (i : Nat) (fails : Bool) : World :=
  match w.phase i with
  | .grant => w.goes i (.client (isAuthorizationCode (w.reads fails)))
  | .client isAuthorizationCode =>
    w.goes i (.unlocked ⟨.probe, w.configured (w.process i), .resolve isAuthorizationCode⟩)
  | .probing clientId =>
    if existingAccessTokenStillValid clientId (w.reads fails) w.now then w.goes i .idle
    else w.goes i (.unlocked ⟨.probe, some clientId, .probe⟩)
  | .unlocked job => w.goes i (.peeked job (w.reads fails))
  | _ => w

/-- A read settles the call, or it goes for the locks, or with both held to the server. -/
def assess (i : Nat) : World :=
  match w.phase i with
  | .peeked job read =>
    match AuthSession.assess job.mode job.expected read w.now with
    | .settle outcome => w.goes i (.settled job outcome read)
    | .refresh _ => w.goes i (.mutexWait job)
  | .reread job read =>
    match AuthSession.assess job.mode job.expected read w.now, read, w.configured (w.process i) with
    | .settle outcome, _, _ => (w.release i).goes i (.settled job outcome read)
    | .refresh token, some tokenData, some clientId =>
      w.goes i (.requested job tokenData clientId w.now token)
    | .refresh _, _, _ => (w.release i).goes i .idle
  | _ => w

def lockMutex (i : Nat) : World :=
  let held := { w with mutexes := Function.update w.mutexes (w.process i) (some i) }
  match w.phase i with
  | .mutexWait job => held.goes i (.lockWait job)
  | .mintMutex clientId => held.goes i (.mintLock clientId)
  | _ => w

def lockFile (i : Nat) : World :=
  let held := { w with fileLock := some i }
  match w.phase i with
  | .lockWait job => held.goes i (.locked job)
  | .mintLock clientId => held.goes i (.mint clientId)
  | .loginLock tokenData => held.goes i (.login tokenData)
  | .deleteLock rejected => held.goes i (.deleting rejected)
  | _ => w

def reread (i : Nat) (fails : Bool) : World :=
  match w.phase i with
  | .locked job => w.goes i (.reread job (w.reads fails))
  | _ => w

def request (i : Nat) : World :=
  match w.phase i with
  | .mint clientId => w.goes i (.minting clientId)
  | _ => w

def respond (i : Nat) (response : Response) : World :=
  match w.phase i, response with
  | .requested job read clientId sentAt presented, .granted result =>
    let renewed := tokenResultToTokenData result (read.grantType.getD .authorizationCode) sentAt
      clientId
    { (w.issues result).goes i (.received job read result renewed) with
      spent := presented :: w.spent
      latest := result.refreshToken }
  | .requested job read _ _ _, .rejected message =>
    (w.release i).goes i (.settled job (.rejected message) (some read))
  | .minting clientId, .granted result =>
    (w.issues result).goes i
      (.minted (tokenResultToTokenData result .clientCredentials w.now clientId))
  | .minting _, .rejected _ => (w.release i).goes i .idle
  | _, _ => w

def write (i : Nat) : World :=
  match w.phase i with
  | .received job read result renewed =>
    ((w.stores renewed).release i).goes i
      (.settled job (.refreshed result.accessToken .refreshed result.expiresIn.toNat) (some read))
  | .minted tokenData | .login tokenData => ((w.stores tokenData).release i).goes i .idle
  | _ => w

def proceed (i : Nat) (canRemint : Bool) : World :=
  match w.phase i with
  | .settled job outcome read =>
    match job.purpose, outcome with
    | .resolve isAuthorizationCode, outcome =>
      if remints isAuthorizationCode canRemint outcome then w.goes i (.credentials job)
      else w.goes i .idle
    | .probe, .rejected _ => w.goes i (.deleteLock read)
    | _, _ => w.goes i .idle
  | .credentials _ =>
    match w.configured (w.process i) with
    | some clientId => w.goes i (.mintMutex clientId)
    | none => w.goes i .idle
  | _ => w

def erase (i : Nat) : World :=
  match w.phase i with
  | .deleting _ => ({ w with store := none, latest := none }.release i).goes i .idle
  | _ => w

end World

section Machine

def next (w : World) : Event → World
  | .tick secs => { w with now := w.now + secs }
  | .configure configured => { w with configured }
  | .begin i process caller => w.start i process caller
  | .peek i fails => w.peek i fails
  | .assess i => w.assess i
  | .lockMutex i => w.lockMutex i
  | .lockFile i => w.lockFile i
  | .reread i fails => w.reread i fails
  | .request i => w.request i
  | .respond i response => w.respond i response
  | .write i => w.write i
  | .proceed i canRemint => w.proceed i canRemint
  | .erase i => w.erase i
  | .fail i => (w.release i).goes i .idle

/-- The server has not issued this refresh token before. -/
def FreshlyIssued (w : World) (result : TokenResult) : Prop :=
  ∀ token ∈ result.refreshToken, token ∉ w.issued

instance (w : World) (result : TokenResult) : Decidable (FreshlyIssued w result) :=
  inferInstanceAs (Decidable (∀ token ∈ result.refreshToken, token ∉ w.issued))

/-- Locks are taken when they are free, and a refreshed token is stored. -/
def Enabled (w : World) : Event → Prop
  | .tick _ | .configure _ => True
  | .begin i _ (.login result _ _) => w.phase i = .idle ∧ FreshlyIssued w result
  | .begin i _ _ => w.phase i = .idle
  | .lockMutex i => w.mutexes (w.process i) = none
  | .lockFile _ => w.fileLock = none
  | .respond i (.granted result) => FreshlyIssued w result ∧
      match w.phase i with
      | .requested .. => result.refreshToken ≠ none
      | _ => True
  | .fail i =>
    match w.phase i with
    | .received .. => False
    | _ => True
  | _ => True

def system : Events.System World Event := ⟨Enabled, next⟩

/-- Any stored session, whose refresh token the server has issued. -/
def start (store : Option TokenData) (configured : Nat → Option String) (now : Nat) : World :=
  { store, configured, now
    fileLock := none
    mutexes := fun _ => none
    tasks := fun _ => ⟨0, .idle⟩
    issued := (store.bind TokenData.refreshToken).toList
    spent := []
    latest := store.bind TokenData.refreshToken }

end Machine

end SessionRaces
