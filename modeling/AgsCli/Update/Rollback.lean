import AgsCli.Update.Install
import Mathlib.Data.Prod.Lex

/-! # Rollback of an upgrade

Wherever the upgrade stops, and whatever the installer does before it has exited with success or the
restore is over, the new binary is verified, the previous one is back, or the error says that
restoring it failed. -/
namespace UpdateInstall

section Outcomes

variable {B V : Type} [LinearOrder V] (u : Upgrade V)

/-- The binary in place exited with 0 and reported `version`, an accepted one. -/
def Verified (s : State B V) (version : V) : Prop :=
  ∃ binary stdout, s.files.binary = some binary ∧
    s.probed = some (binary, .exited (some 0) stdout) ∧
    u.parse (reportedVersion stdout) = some version ∧ u.previous < version ∧
    u.latest ≤ version

def Installed (s : State B V) (result : Returned) : Prop :=
  ∃ version, Verified u s version ∧ result = .complete (u.output version)

def Done (s : State B V) (result : Returned) : Prop :=
  ∃ version answer, Verified u s version ∧ s.reported = some answer ∧
    result = u.afterRender version answer

def SaysRestoreFailed (result : Returned) : Prop :=
  ∃ cause reason, result = u.unrestored cause reason

/-- An upgrade may end with `success`, with the previous binary in place, or by saying that it is
not; unless it ends with `success`, the previous binary is kept. -/
structure SafeReturn (success : Prop) (original : B) (files : Files B) (result : Returned) :
    Prop where
  outcome : success ∨ files.binary = some original ∨ SaysRestoreFailed u result
  kept : ¬success → files.binary = some original ∨ files.old = some original

omit [LinearOrder V] in
theorem SafeReturn.of_binary {success : Prop} {original : B} {files : Files B} {result : Returned}
    (h : files.binary = some original) : SafeReturn u success original files result :=
  ⟨Or.inr (Or.inl h), fun _ => Or.inl h⟩

/-- From the rename to the verification the previous binary is at its `.old` path. -/
def Invariant (original : B) (s : State B V) : Prop :=
  match s.phase with
  | .preserving => s.files.binary = some original ∧ s.launched = false
  | .cleaning version | .rendering version => Verified u s version
  | .leaving result | .returned result =>
    SafeReturn u (Done u s result) original s.files result
  | _ => s.files.old = some original

end Outcomes

section Steps

variable {B V : Type} [LinearOrder V] {u : Upgrade V} {original : B} {s t : State B V}

theorem invariant_restores (h : s.files.old = some original) (cause : Cause) :
    Invariant u original (s.restores u cause) := by
  rw [State.restores]
  by_cases hwindows : u.windows = true
  · rw [if_pos hwindows]
    exact h
  · rw [if_neg hwindows]
    exact h

theorem invariant_retries (h : s.files.old = some original) {cause : Cause}
    {again : Nat → Phase V} (hagain : ∀ n, Invariant u original { s with phase := again n })
    (attempts : Nat) (reason : String) :
    Invariant u original (s.retries u cause attempts again reason) := by
  rw [State.retries]
  by_cases hlast : attempts ≤ 1
  · rw [if_pos hlast]
    exact ⟨Or.inr (Or.inr ⟨cause, reason, rfl⟩), fun _ => Or.inr h⟩
  · rw [if_neg hlast]
    exact hagain _

theorem invariant_continues {α : Type} {phase : α → Phase V} {cause : CliError → Cause}
    {answer : Except CliError α} (h : s.files.old = some original)
    (hok : ∀ value, answer = .ok value → Invariant u original { s with phase := phase value }) :
    Invariant u original (s.continues u phase cause answer) := by
  cases answer with
  | ok value => exact hok value rfl
  | error error => exact invariant_restores h (cause error)

theorem invariant_exits (h : s.files.old = some original)
    (answer : Except CliError (Option Int)) : Invariant u original (s.exits u answer) := by
  cases answer with
  | error error => exact invariant_restores h (.run error)
  | ok code =>
    rw [State.exits]
    by_cases hcode : code = some 0
    · rw [if_pos hcode]
      exact h
    · rw [if_neg hcode]
      exact invariant_restores h (.status code)

/-- The probe is of the binary in place. -/
theorem invariant_asks (h : s.files.old = some original) {probe : Probe}
    (hanswers : s.files.binary = none → ∃ reason, probe = .spawnFailed reason) :
    Invariant u original
      ((s.asks probe).continues u .cleaning .verify (verifyInstalledVersion u probe)) := by
  apply invariant_continues (s := s.asks probe) h
  intro version hverify
  obtain ⟨stdout, rfl, haccepted⟩ := verify_ok u hverify
  cases hbinary : s.files.binary with
  | none =>
    obtain ⟨reason, hfailed⟩ := hanswers hbinary
    cases hfailed
  | some binary =>
    have hprobed : (s.asks (.exited (some 0) stdout)).probed =
        some (binary, .exited (some 0) stdout) := by rw [State.asks, hbinary]; rfl
    exact ⟨binary, stdout, hbinary, hprobed, haccepted⟩

theorem invariant_verifies (h : s.files.old = some original) {probe : Probe}
    (hstep : s.verifies u probe = some t) : Invariant u original t := by
  unfold State.verifies at hstep
  split at hstep
  · next reason hbinary =>
    obtain rfl := Option.some.inj hstep
    exact invariant_asks h fun _ => ⟨reason, rfl⟩
  · next binary hbinary =>
    obtain rfl := Option.some.inj hstep
    apply invariant_asks h
    intro hnone
    rw [hnone] at hbinary
    cases hbinary
  · cases hstep

theorem invariant_cancelled (h : s.files.old = some original)
    (hstep : (if s.interrupted then some (s.restores u .interrupt) else none) = some t) :
    Invariant u original t := by
  by_cases htoken : s.interrupted = true
  · rw [if_pos htoken] at hstep
    obtain rfl := Option.some.inj hstep
    exact invariant_restores h .interrupt
  · rw [if_neg htoken] at hstep
    cases hstep

theorem invariant_cleans {version : V} (h : Verified u s version) (answer : Except String Unit) :
    Invariant u original (s.cleans u version answer) := by
  obtain ⟨binary, stdout, hbinary, hprobed, haccepted⟩ := h
  refine ⟨binary, stdout, ?_, hprobed, haccepted⟩
  by_cases hkept : u.windows = true ∨ answer.toBool = false
  · rw [State.cleans, if_pos hkept]
    exact hbinary
  · rw [State.cleans, if_neg hkept]
    exact hbinary

/-- A write that is not late finds the previous binary at its `.old` path. -/
theorem invariant_installs (h : Invariant u original s) (hlaunched : s.launched = true)
    (hsettled : ¬s.phase.settled = true) (hrunning : ∀ result, s.phase ≠ .returned result)
    (left : Option B) : Invariant u original { s with files := ⟨left, s.files.old⟩ } := by
  unfold Invariant at h ⊢
  cases hphase : s.phase with
  | preserving =>
    rw [hphase] at h
    rw [h.2] at hlaunched
    cases hlaunched
  | cleaning version | rendering version | leaving result =>
    rw [hphase] at hsettled
    exact absurd rfl hsettled
  | returned result => exact absurd hphase (hrunning result)
  | _ =>
    rw [hphase] at h
    exact h

theorem invariant_next {event : Event B} (h : Invariant u original s) (htimely : ¬Late s event)
    (hstep : next u s event = some t) : Invariant u original t := by
  unfold next at hstep
  split at hstep
  · cases hstep
  · next hphase =>
    obtain rfl := Option.some.inj hstep
    exact h
  · next _ left hrunning =>
    by_cases hlaunched : s.launched = true
    · rw [if_pos hlaunched] at hstep
      obtain rfl := Option.some.inj hstep
      exact invariant_installs h hlaunched htimely (fun result hphase => hrunning result hphase) left
    · rw [if_neg hlaunched] at hstep
      cases hstep
  all_goals try (rename_i hphase; rw [Invariant, hphase] at h)
  · rw [h.1] at hstep
    obtain rfl := Option.some.inj hstep
    rfl
  · next removed reason =>
    obtain rfl := Option.some.inj hstep
    apply SafeReturn.of_binary
    cases removed with
    | false => exact h.1
    | true => exact h.1
  · obtain rfl := Option.some.inj hstep
    exact h
  · obtain rfl := Option.some.inj hstep
    exact invariant_restores h _
  · obtain rfl := Option.some.inj hstep
    exact invariant_continues h fun _ _ => h
  · obtain rfl := Option.some.inj hstep
    exact invariant_continues h fun _ _ => h
  · obtain rfl := Option.some.inj hstep
    exact invariant_exits h _
  · exact invariant_verifies h hstep
  · exact invariant_cancelled h hstep
  · exact invariant_cancelled h hstep
  · exact invariant_cancelled h hstep
  · obtain rfl := Option.some.inj hstep
    exact invariant_cleans h _
  · next installed answer =>
    obtain rfl := Option.some.inj hstep
    have hdone : Done u { s with reported := some answer } (u.afterRender installed answer) :=
      ⟨installed, answer, h, rfl, rfl⟩
    exact ⟨Or.inl hdone, fun hnot => absurd hdone hnot⟩
  · next cause present =>
    split_ifs at hstep
    · obtain rfl := Option.some.inj hstep
      exact h
    · obtain rfl := Option.some.inj hstep
      exact h
  · obtain rfl := Option.some.inj hstep
    exact h
  · next cause attempts reason =>
    obtain rfl := Option.some.inj hstep
    have hagain : ∀ n, Invariant u original { s with phase := .removing cause n } := fun _ => h
    exact invariant_retries h hagain attempts reason
  · rw [h] at hstep
    obtain rfl := Option.some.inj hstep
    exact SafeReturn.of_binary u rfl
  · next cause attempts reason =>
    obtain rfl := Option.some.inj hstep
    have hagain : ∀ n, Invariant u original { s with phase := .renaming cause n } := fun _ => h
    exact invariant_retries h hagain attempts reason
  · obtain rfl := Option.some.inj hstep
    exact h
  · cases hstep

theorem invariant_timely {event : Event B} (h : Invariant u original s)
    (hstep : timely u s event = some t) : Invariant u original t := by
  unfold timely at hstep
  by_cases hlate : Late s event
  · rw [if_pos hlate] at hstep
    cases hstep
  · rw [if_neg hlate] at hstep
    exact invariant_next h hlate hstep

theorem invariant_of_reached (h : Reached (timely u) original s) : Invariant u original s := by
  obtain ⟨stale, hreaches⟩ := h
  refine Runs.invariant_of_step (Invariant u original) ?_ hreaches ⟨rfl, rfl⟩
  rintro a b hinv ⟨event, hstep⟩
  exact invariant_timely hinv hstep

/-- Every upgrade that returns has its binary verified and installed, though reporting it may have
failed; or has the previous binary in place; or says that restoring it failed. -/
theorem upgrade_safe (h : Reached (timely u) original s) {result : Returned}
    (hphase : s.phase = .returned result) :
    SafeReturn u (Done u s result) original s.files result := by
  have hinv := invariant_of_reached h
  rw [Invariant, hphase] at hinv
  exact hinv

/-- A cancelled upgrade leaves the previous binary in place. -/
theorem cancelled_restored (h : Reached (timely u) original s) (hphase : s.phase = .returned .cancelled) :
    s.files.binary = some original := by
  have hinv := invariant_of_reached h
  rw [Invariant, hphase] at hinv
  rcases hinv.outcome with hdone | hbinary | hsays
  · obtain ⟨version, answer, -, -, hresult⟩ := hdone
    cases answer with
    | error error => cases hresult
    | ok _ => cases hresult
  · exact hbinary
  · obtain ⟨cause, reason, hresult⟩ := hsays
    cases hresult

end Steps

section Concrete

/-- 0.5.2 to 0.6.0 on Unix. -/
def upgrade060 : Upgrade (ℕ ×ₗ ℕ ×ₗ ℕ) :=
  { windows := false, binaryPath := "/usr/local/bin/ags", method := .installer
    url := "https://github.com/AccelByte/accelbyte-ags-cli/releases/latest/download/install.sh"
    previousStr := "0.5.2", previous := toLex (0, toLex (5, 2)), latest := toLex (0, toLex (6, 0))
    healthTimeoutSecs := 15
    parse := fun s => if s = "0.6.0" then some (toLex (0, toLex (6, 0))) else none
    display := fun v => s!"{(ofLex v).1}.{(ofLex (ofLex v).2).1}.{(ofLex (ofLex v).2).2}"
    debug := fun s => s!"\"{s}\"" }

/-- On Windows; Ctrl-C comes while the installer has written half a file, which is busy at first and
which a process of the installer goes on with until the restore is over. -/
def cancelledEvents : List (Event String) :=
  [.preserved true (.ok ()), .tempDir (.ok ()), .client (.ok ()), .downloaded (.ok ()),
    .installs (some "ags"), .interrupt, .cancelled, .exists true,
    .removed (.error "The process cannot access the file. (os error 32)"), .removed (.ok ()),
    .installs (some "ags 0.6.0"), .renamed (.ok ()), .leaves]

def cancelledState : State String (ℕ ×ₗ ℕ ×ₗ ℕ) :=
  { phase := .returned .cancelled, files := ⟨some "ags 0.5.2", none⟩, interrupted := true
    launched := true, probed := none, reported := none }

theorem cancelled_reached :
    Reached (timely { upgrade060 with windows := true }) "ags 0.5.2" cancelledState := by
  have hfollow : Runs.follow (timely { upgrade060 with windows := true }) cancelledEvents
      (.init ⟨some "ags 0.5.2", some "ags 0.5.1"⟩) = some cancelledState := rfl
  exact ⟨some "ags 0.5.1", Runs.reaches_of_follow hfollow⟩

theorem upgrade_safe_cancelled :
    SafeReturn { upgrade060 with windows := true }
      (Done { upgrade060 with windows := true } cancelledState .cancelled) "ags 0.5.2"
      cancelledState.files .cancelled :=
  upgrade_safe cancelled_reached rfl

/-- Everything succeeds but the last write to a full disk. -/
def unreportedEvents : List (Event String) :=
  [.preserved false (.ok ()), .tempDir (.ok ()), .client (.ok ()), .downloaded (.ok ()),
    .installs (some "ags 0.6.0"), .exited (.ok (some 0)),
    .probed (.exited (some 0) "ags 0.6.0 (workflow protocol 1.0.0)\n"), .cleaned (.ok ()),
    .rendered (.error (.usage "Cannot write to stdout: No space left on device (os error 28).")),
    .leaves]

def unreported : State String (ℕ ×ₗ ℕ ×ₗ ℕ) :=
  { phase := .returned
      (.failed (.usage "Cannot write to stdout: No space left on device (os error 28)."))
    files := ⟨some "ags 0.6.0", none⟩, interrupted := false, launched := true
    probed := some ("ags 0.6.0", .exited (some 0) "ags 0.6.0 (workflow protocol 1.0.0)\n")
    reported := some
      (.error (.usage "Cannot write to stdout: No space left on device (os error 28).")) }

theorem unreported_reached : Reached (timely upgrade060) "ags 0.5.2" unreported := by
  have hfollow : Runs.follow (timely upgrade060) unreportedEvents
      (.init ⟨some "ags 0.5.2", none⟩) = some unreported := rfl
  exact ⟨none, Runs.reaches_of_follow hfollow⟩

/-- Ctrl-C kills the shell; the `tar` it had started writes half a file over the restored binary. -/
def overwrittenEvents : List (Event String) :=
  [.preserved false (.ok ()), .tempDir (.ok ()), .client (.ok ()), .downloaded (.ok ()),
    .interrupt, .cancelled, .renamed (.ok ()), .installs (some "ags"), .leaves]

def overwritten : State String (ℕ ×ₗ ℕ ×ₗ ℕ) :=
  { phase := .returned .cancelled, files := ⟨some "ags", none⟩, interrupted := true
    launched := true, probed := none, reported := none }

theorem overwritten_reached : Reached (next upgrade060) "ags 0.5.2" overwritten := by
  have hfollow : Runs.follow (next upgrade060) overwrittenEvents
      (.init ⟨some "ags 0.5.2", none⟩) = some overwritten := rfl
  exact ⟨none, Runs.reaches_of_follow hfollow⟩

/-- An upgrade that could not be reported is not `Installed`, and nothing was restored; and a late
write leaves neither the previous nor a verified binary. -/
theorem unsafe_unreported_or_late :
    (¬ ∀ (s : State String (ℕ ×ₗ ℕ ×ₗ ℕ)) (result : Returned),
      Reached (timely upgrade060) "ags 0.5.2" s → s.phase = .returned result →
        SafeReturn upgrade060 (Installed upgrade060 s result) "ags 0.5.2" s.files result) ∧
    ¬ ∀ (s : State String (ℕ ×ₗ ℕ ×ₗ ℕ)) (result : Returned),
      Reached (next upgrade060) "ags 0.5.2" s → s.phase = .returned result →
        SafeReturn upgrade060 (Done upgrade060 s result) "ags 0.5.2" s.files result := by
  constructor
  · intro hclaim
    have hsafe := hclaim unreported _ unreported_reached rfl
    rcases hsafe.outcome with hinstalled | hbinary | hsays
    · obtain ⟨version, -, hresult⟩ := hinstalled
      cases hresult
    · exact absurd hbinary (by decide)
    · obtain ⟨cause, reason, hresult⟩ := hsays
      cases hresult
  · intro hclaim
    have hsafe := hclaim overwritten _ overwritten_reached rfl
    rcases hsafe.outcome with hdone | hbinary | hsays
    · obtain ⟨version, answer, -, hreported, -⟩ := hdone
      cases hreported
    · exact absurd hbinary (by decide)
    · obtain ⟨cause, reason, hresult⟩ := hsays
      cases hresult

end Concrete

end UpdateInstall
