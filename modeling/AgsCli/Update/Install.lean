import AgsCli.Library.Runs
import AgsCli.Support.Strings
import Mathlib.Order.Defs.LinearOrder

/-! # In-place upgrade

`handle_install` from `preserve_previous_binary` on. File operations, the installer, the version
probe and Ctrl-C answer freely. Once started the installer, or a process it has left running, may
write to the binary at any time: a cancelled step only begins to kill the shell. Versions are any
linear order with a parser. -/
namespace UpdateInstall

inductive CliError
  | usage (message : String)
  | auth (message : String)
  | api (message : String)
  | network (message : String)
  | internal (message : String)
  deriving DecidableEq

def CliError.message : CliError → String
  | .usage message | .auth message | .api message | .network message | .internal message => message

inductive InstallMethod
  | installer
  | homebrew
  | manual
  deriving DecidableEq

inductive UpdateInstallAction
  | installed
  | alreadyCurrent
  | dryRun
  deriving DecidableEq

structure UpdateInstallOutput where
  action : UpdateInstallAction
  binaryPath : String
  installMethod : InstallMethod
  installerUrl : Option String
  latest : Option String
  previous : String
  installerEnv : List (String × String)
  deriving DecidableEq

/-- `parse`, `display` and `debug` are the version parser and the two ways texts are shown. -/
structure Upgrade (V : Type) where
  windows : Bool
  binaryPath : String
  method : InstallMethod
  url : String
  previousStr : String
  previous : V
  latest : V
  healthTimeoutSecs : Nat
  parse : String → Option V
  display : V → String
  debug : String → String

/-- What `<binary_path> version` comes to; no exit code is a signal. -/
inductive Probe
  | spawnFailed (reason : String)
  | waitFailed (reason : String)
  | timedOut
  | exited (code : Option Int) (stdout : String)
  deriving DecidableEq

def exitText (code : Option Int) : String := (code.map toString).getD "signal"

def firstLine (stdout : List Char) : Option (List Char) :=
  if stdout = [] then none
  else
    let line := stdout.takeWhile (· ≠ '\n')
    if line.length < stdout.length ∧ line.getLast? = some '\r' then some line.dropLast
    else some line

def firstToken (s : List Char) : Option (List Char) :=
  let token := (s.dropWhile Strings.isWhiteSpace).takeWhile fun c => !Strings.isWhiteSpace c
  if token = [] then none else some token

def reportedVersion (stdout : String) : String :=
  let token := do
    let line ← firstLine stdout.toList
    if "ags ".toList.isPrefixOf line then firstToken (line.drop 4) else none
  String.ofList (token.getD [])

example : reportedVersion "ags 0.5.2 (workflow protocol 1.0.0)\n" = "0.5.2" := by decide

section Verify

variable {V : Type} [LinearOrder V] (u : Upgrade V)

def acceptInstalledVersion (reported : String) : Except String V :=
  match u.parse reported with
  | none => .error s!"The new binary reported {u.debug reported}, which is not a valid version"
  | some version =>
    if version ≤ u.previous then
      .error (s!"The new binary reported {reported}, which is not newer than the previous " ++
        s!"version {u.display u.previous}")
    else if version < u.latest then
      .error (s!"The new binary reported {reported}, which is older than the latest " ++
        s!"release {u.display u.latest}")
    else .ok version

def verifyInstalledVersion : Probe → Except CliError V
  | .spawnFailed reason => .error (.internal s!"Failed to run {u.binaryPath} version: {reason}")
  | .waitFailed reason =>
    .error (.internal s!"Failed to wait for {u.binaryPath} version: {reason}")
  | .timedOut =>
    .error (.internal (s!"The new binary at {u.binaryPath} did not answer `version` within " ++
      s!"{u.healthTimeoutSecs} seconds"))
  | .exited code stdout =>
    if code = some 0 then
      (acceptInstalledVersion u (reportedVersion stdout)).mapError .internal
    else
      .error (.internal (s!"The new binary at {u.binaryPath} exited with status {exitText code}" ++
        " on `version`"))

/-- An accepted version is newer than the previous one and no older than the latest. -/
theorem accept_ok {reported : String} {version : V}
    (h : acceptInstalledVersion u reported = .ok version) :
    u.parse reported = some version ∧ u.previous < version ∧ u.latest ≤ version := by
  rw [acceptInstalledVersion] at h
  cases hparse : u.parse reported with
  | none =>
    rw [hparse] at h
    cases h
  | some parsed =>
    simp only [hparse] at h
    by_cases hprevious : parsed ≤ u.previous
    · rw [if_pos hprevious] at h
      cases h
    · by_cases hlatest : parsed < u.latest
      · rw [if_neg hprevious, if_pos hlatest] at h
        cases h
      · rw [if_neg hprevious, if_neg hlatest] at h
        obtain rfl := Except.ok.inj h
        exact ⟨rfl, not_le.mp hprevious, not_lt.mp hlatest⟩

/-- A verified binary exited with 0 and reported an accepted version. -/
theorem verify_ok {probe : Probe} {version : V} (h : verifyInstalledVersion u probe = .ok version) :
    ∃ stdout, probe = .exited (some 0) stdout ∧
      u.parse (reportedVersion stdout) = some version ∧ u.previous < version ∧
      u.latest ≤ version := by
  cases probe with
  | spawnFailed reason => cases h
  | waitFailed reason => cases h
  | timedOut => cases h
  | exited code stdout =>
    rw [verifyInstalledVersion] at h
    by_cases hcode : code = some 0
    · rw [if_pos hcode] at h
      cases haccept : acceptInstalledVersion u (reportedVersion stdout) with
      | error reason =>
        rw [haccept] at h
        cases h
      | ok accepted =>
        rw [haccept] at h
        obtain rfl := Except.ok.inj h
        exact ⟨stdout, by rw [hcode], accept_ok u haccept⟩
    · rw [if_neg hcode] at h
      cases h

end Verify

structure Files (B : Type) where
  binary : Option B
  old : Option B
  deriving DecidableEq

inductive Cause
  | tempDir (reason : String)
  | client (error : CliError)
  | download (error : CliError)
  | run (error : CliError)
  | status (code : Option Int)
  | verify (error : CliError)
  | interrupt
  deriving DecidableEq

def Cause.headline : Cause → String
  | .tempDir reason => s!"Could not create temporary directory: {reason}"
  | .client error | .download error | .run error | .verify error => error.message
  | .status code => s!"The installer exited with code {exitText code}"
  | .interrupt => "Cancelled"

inductive Returned
  | complete (output : UpdateInstallOutput)
  | cancelled
  | failed (error : CliError)
  deriving DecidableEq

inductive Phase (V : Type)
  | preserving
  | creatingTempDir
  | buildingClient
  | downloading
  | running
  | verifying
  | cleaning (installed : V)
  | rendering (installed : V)
  | restoring (cause : Cause)
  | removing (cause : Cause) (attempts : Nat)
  | renaming (cause : Cause) (attempts : Nat)
  | leaving (result : Returned)
  | returned (result : Returned)
  deriving DecidableEq

/-- `interrupted` is the cancellation token, `launched` whether the installer was started, `probed`
the binary that was asked for its version and its answer, `reported` the frontend's answer to the
final output. -/
structure State (B V : Type) where
  phase : Phase V
  files : Files B
  interrupted : Bool
  launched : Bool
  probed : Option (B × Probe)
  reported : Option (Except CliError Unit)

inductive Event (B : Type)
  | preserved (removed : Bool) (answer : Except String Unit)
  | interrupt
  | tempDir (answer : Except String Unit)
  | client (answer : Except CliError Unit)
  | downloaded (answer : Except CliError Unit)
  | installs (left : Option B)
  | exited (answer : Except CliError (Option Int))
  | probed (probe : Probe)
  | cancelled
  | exists (present : Bool)
  | removed (answer : Except String Unit)
  | renamed (answer : Except String Unit)
  | cleaned (answer : Except String Unit)
  | rendered (answer : Except CliError Unit)
  | leaves

section Machine

variable {B V : Type}

/-- The handler holds the lock; a stale `.old` may be there. -/
def State.init (files : Files B) : State B V := ⟨.preserving, files, false, false, none, none⟩

namespace Upgrade

variable (u : Upgrade V)

def previousBinaryPath : String := u.binaryPath ++ ".old"

def wasRestored : String := s!"The previous ags binary was restored at {u.binaryPath}."

def restoreFailed (reason : String) : String :=
  s!"Restoring the previous ags binary at {u.binaryPath} failed: {reason}. " ++
    "Reinstall it with the command from ags update or from " ++
    "https://github.com/AccelByte/accelbyte-ags-cli/releases/latest"

def restored (cause : Cause) : Returned :=
  match cause with
  | .client error | .download error | .run error => .failed error
  | .verify error => .failed (.internal s!"{error.message} {u.wasRestored}")
  | .tempDir _ | .status _ => .failed (.internal s!"{cause.headline}. {u.wasRestored}")
  | .interrupt => .cancelled

/-- What it returns when the restore fails. -/
def unrestored (cause : Cause) (reason : String) : Returned :=
  .failed (.internal s!"{cause.headline}. {u.restoreFailed reason}")

def unpreserved (reason : String) : Returned :=
  .failed (.internal (s!"Could not preserve the current binary as {u.previousBinaryPath}: " ++
    s!"{reason}. Nothing has changed."))

def output (installed : V) : UpdateInstallOutput :=
  { action := .installed, binaryPath := u.binaryPath, installMethod := u.method
    installerUrl := some u.url, latest := some (u.display installed), previous := u.previousStr
    installerEnv := [] }

def afterRender (installed : V) : Except CliError Unit → Returned
  | .ok () => .complete (u.output installed)
  | .error error => .failed error

end Upgrade

def restoreRetryAttempts : Nat := 10

namespace State

variable (u : Upgrade V) (s : State B V)

/-- `restore_previous_binary`: only Windows removes the new binary first, and retries. -/
def restores (cause : Cause) : State B V :=
  { s with phase := if u.windows then .restoring cause else .renaming cause 1 }

/-- A step that goes on, or restores because of its error. -/
def continues {α : Type} (phase : α → Phase V) (cause : CliError → Cause) :
    Except CliError α → State B V
  | .ok value => { s with phase := phase value }
  | .error error => s.restores u (cause error)

def exits : Except CliError (Option Int) → State B V
  | .ok code =>
    if code = some 0 then { s with phase := .verifying } else s.restores u (.status code)
  | .error error => s.restores u (.run error)

/-- `retry_transient_io` after a failed attempt. -/
def retries (cause : Cause) (attempts : Nat) (again : Nat → Phase V) (reason : String) :
    State B V :=
  { s with phase :=
      if attempts ≤ 1 then .leaving (u.unrestored cause reason) else again (attempts - 1) }

/-- Windows keeps `.old` for the next start; elsewhere a failed removal is ignored. -/
def cleans (installed : V) (answer : Except String Unit) : State B V :=
  { s with
    phase := .rendering installed
    files := if u.windows ∨ answer.toBool = false then s.files else ⟨s.files.binary, none⟩ }

end State

section Next

variable [LinearOrder V] (u : Upgrade V) (s : State B V)

def State.asks (probe : Probe) : State B V :=
  { s with probed := s.files.binary.map fun binary => (binary, probe) }

/-- Only a failed spawn answers for a file that is not there. -/
def State.verifies (probe : Probe) : Option (State B V) :=
  match s.files.binary, probe with
  | none, .spawnFailed _ | some _, _ =>
    some ((s.asks probe).continues u .cleaning .verify (verifyInstalledVersion u probe))
  | none, _ => none

def next (event : Event B) : Option (State B V) :=
  match s.phase, event with
  | .returned _, _ => none
  | _, .interrupt => some { s with interrupted := true }
  | _, .installs left => if s.launched then some { s with files := ⟨left, s.files.old⟩ } else none
  | .preserving, .preserved _ (.ok ()) =>
    s.files.binary.map fun binary =>
      { s with phase := .creatingTempDir, files := ⟨none, some binary⟩ }
  | .preserving, .preserved removed (.error reason) => some
      { s with
        phase := .leaving (u.unpreserved reason)
        files := if removed then ⟨s.files.binary, none⟩ else s.files }
  | .creatingTempDir, .tempDir (.ok ()) => some { s with phase := .buildingClient }
  | .creatingTempDir, .tempDir (.error reason) => some (s.restores u (.tempDir reason))
  | .buildingClient, .client answer => some (s.continues u (fun _ => .downloading) .client answer)
  | .downloading, .downloaded answer => some
      ({ s with launched := answer.toBool }.continues u (fun _ => .running) .download answer)
  | .running, .exited answer => some (s.exits u answer)
  | .verifying, .probed probe => s.verifies u probe
  | .downloading, .cancelled | .running, .cancelled | .verifying, .cancelled =>
    if s.interrupted then some (s.restores u .interrupt) else none
  | .cleaning installed, .cleaned answer => some (s.cleans u installed answer)
  | .rendering installed, .rendered answer => some
      { s with phase := .leaving (u.afterRender installed answer), reported := some answer }
  | .restoring cause, .exists present =>
    if present && s.files.binary.isNone then none
    else if present then some { s with phase := .removing cause restoreRetryAttempts }
    else some { s with phase := .renaming cause restoreRetryAttempts }
  | .removing cause _, .removed (.ok ()) => some
      { s with phase := .renaming cause restoreRetryAttempts, files := ⟨none, s.files.old⟩ }
  | .removing cause attempts, .removed (.error reason) =>
    some (s.retries u cause attempts (.removing cause) reason)
  | .renaming cause _, .renamed (.ok ()) =>
    s.files.old.map fun old =>
      { s with phase := .leaving (u.restored cause), files := ⟨some old, none⟩ }
  | .renaming cause attempts, .renamed (.error reason) =>
    some (s.retries u cause attempts (.renaming cause) reason)
  | .leaving result, .leaves => some { s with phase := .returned result }
  | _, _ => none

/-- The installer has exited with success, or the restore is over. -/
def Phase.settled : Phase V → Bool
  | .verifying | .cleaning _ | .rendering _ | .leaving _ => true
  | _ => false

/-- Something the installer has left running writes over a settled binary. -/
def Late : Event B → Prop
  | .installs _ => s.phase.settled = true
  | _ => False

instance (event : Event B) : Decidable (Late s event) :=
  match event with
  | .installs _ => inferInstanceAs (Decidable (s.phase.settled = true))
  | .preserved _ _ | .interrupt | .tempDir _ | .client _ | .downloaded _ | .exited _ | .probed _
  | .cancelled | .exists _ | .removed _ | .renamed _ | .cleaned _ | .rendered _ | .leaves =>
    inferInstanceAs (Decidable False)

/-- The steps other than late writes. -/
def timely (event : Event B) : Option (State B V) :=
  if Late s event then none else next u s event

/-- The states that a step function reaches in an upgrade whose binary is `original`. -/
def Reached (step : State B V → Event B → Option (State B V)) (original : B) (s : State B V) :
    Prop :=
  ∃ stale, Runs.Reaches (Runs.Moves step) (.init ⟨some original, stale⟩) s

end Next

end Machine

end UpdateInstall
