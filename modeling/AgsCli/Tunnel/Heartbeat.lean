import AgsCli.Library.Events
import AgsCli.Tunnel.Session

/-! # Heartbeat

The heartbeat loop of a session next to its reader: PING and PONG with a deadline on the monotone
clock, and the idle check on the wall clock. One event is one step of one task between two locks,
loads or awaits, and the tasks interleave in any order. -/
namespace Heartbeat

open Session

/-- Durations and instants of the monotone clock are nanoseconds. -/
structure Config where
  role : SessionRole
  interval : Nat
  pongTimeout : Nat
  idleTimeout : Nat

namespace Config

def pings (config : Config) : Bool := config.role = .server && 0 < config.interval

/-- A zero `pong_timeout` stands for five seconds. -/
def pongDuration (config : Config) : Nat :=
  if config.pongTimeout = 0 then 5 * 10 ^ 9 else config.pongTimeout

def idleMillis (config : Config) : Nat := config.idleTimeout / 10 ^ 6

end Config

/-- `now_millis` of a wall clock in milliseconds since the epoch; earlier it panics. -/
def nowMillis (clock : Int) : Option Int :=
  if clock < 0 then none else some (clock.bmod (2 ^ 64))

def saturatingSub (a b : Int) : Int := max (-2 ^ 63) (min (a - b) (2 ^ 63 - 1))

/-- An `i64` cast to `u64`. -/
def asU64 (n : Int) : Nat := (n % 2 ^ 64).toNat

inductive LoopPoint
  | waiting
  | pinging (now : Nat)
  | sending
  | idling
  | comparing (now : Int)
  | returned
  deriving DecidableEq, Repr

/-- `killed` tells that the loop cancelled the session, `inFlight` lists the deadlines of the PINGs
sent that no PONG has answered. -/
structure State where
  awaitingPong : Bool
  pongDeadline : Nat
  lastActivity : Int
  point : LoopPoint
  writerRunning : Bool
  cancelled : Bool
  killed : Bool
  inFlight : List Nat
  deriving DecidableEq, Repr

def initial (created : Int) (deadline : Nat) : State :=
  { awaitingPong := false, pongDeadline := deadline, lastActivity := created, point := .waiting
    writerRunning := true, cancelled := false, killed := false, inFlight := [] }

inductive Event
  | tick (now : Nat)
  | arm
  | send
  | readClock (clock : Int)
  | compare
  | stop
  | frame (clock : Int)
  | pong
  | writerEnds
  | cancel
  deriving DecidableEq, Repr

def Enabled (s : State) : Event → Prop
  | .tick _ => s.point = .waiting
  | .arm => ∃ now, s.point = .pinging now
  | .send => s.point = .sending
  | .readClock _ => s.point = .idling
  | .compare => ∃ now, s.point = .comparing now
  | .stop => s.point = .waiting ∧ s.cancelled = true
  | .frame clock => 0 ≤ clock
  | .pong | .writerEnds | .cancel => True

def State.kill (s : State) : State :=
  { s with cancelled := true, killed := true, point := .returned }

def ackPong (config : Config) (s : State) : State :=
  if config.role ≠ .server then s
  else if !s.awaitingPong then s
  else { s with awaitingPong := false }

/-- The tick of a loop that pings: a late PONG ends it, one awaited skips the rest of the body. -/
def checkPong (config : Config) (s : State) (now : Nat) : State :=
  if config.pings then
    if s.awaitingPong && s.pongDeadline ≤ now then s.kill
    else if s.awaitingPong then s
    else { s with point := .pinging now }
  else { s with point := .idling }

def arm (config : Config) (s : State) : State :=
  match s.point with
  | .pinging now => { s with
      awaitingPong := true, pongDeadline := now + config.pongDuration, point := .sending }
  | _ => s

def sendPing (s : State) : State :=
  if s.writerRunning then
    { s with inFlight := s.inFlight ++ [s.pongDeadline], point := .idling }
  else s.kill

def readClock (s : State) (clock : Int) : State :=
  match nowMillis clock with
  | some now => { s with point := .comparing now }
  | none => { s with point := .returned }

def checkIdle (config : Config) (s : State) : State :=
  match s.point with
  | .comparing now =>
    if config.idleTimeout ≠ 0 &&
        config.idleMillis % 2 ^ 64 < asU64 (saturatingSub now s.lastActivity) then s.kill
    else { s with point := .waiting }
  | _ => s

def recordFrame (s : State) (clock : Int) : State :=
  match nowMillis clock with
  | some now => { s with lastActivity := now }
  | none => s

/-- A PONG answers the oldest PING in flight, whatever the flag says. -/
def next (config : Config) (s : State) : Event → State
  | .tick now => checkPong config s now
  | .arm => arm config s
  | .send => sendPing s
  | .readClock clock => readClock s clock
  | .compare => checkIdle config s
  | .stop => { s with point := .returned }
  | .frame clock => recordFrame s clock
  | .pong => { ackPong config s with inFlight := s.inFlight.tail }
  | .writerEnds => { s with writerRunning := false }
  | .cancel => { s with cancelled := true }

def system (config : Config) : Events.System State Event := ⟨Enabled, next config⟩

/-- The tick finds a PING in flight whose deadline has passed. -/
def Unanswered (config : Config) (s : State) (e : Event) : Prop :=
  config.pings = true ∧ ∃ now, e = .tick now ∧ ∃ deadline ∈ s.inFlight, deadline ≤ now

/-- More than the idle timeout lies between the last frame and the clock reading. -/
def Idle (config : Config) (s : State) (e : Event) : Prop :=
  e = .compare ∧ ∃ now, s.point = .comparing now ∧
    (config.idleTimeout : Int) < (now - s.lastActivity) * 10 ^ 6

/-- The clock reading of an idle check is not below the last activity, with a timeout that fits in
64 bits of milliseconds; a PING finds the writer running; and no PONG comes between the arming of
a PING and its sending. -/
def Sound (config : Config) (s : State) : Event → Prop
  | .compare => config.idleTimeout = 0 ∨ config.idleMillis < 2 ^ 64 ∧
      ∀ now, s.point = .comparing now → s.lastActivity ≤ now
  | .send => s.writerRunning = true
  | .pong => s.point ≠ .sending
  | _ => True

/-- The flag says whether a PING is in flight, but for a PING that is armed and not yet sent. -/
structure Invariant (config : Config) (s : State) : Prop where
  clear : s.awaitingPong = false → s.inFlight = []
  armed : s.point = .sending → s.awaitingPong = true ∧ s.inFlight = []
  awaited : s.awaitingPong = true → s.point ≠ .sending → s.inFlight = [s.pongDeadline]
  unarmed : ∀ now, s.point = .pinging now → s.awaitingPong = false
  role : s.awaitingPong = true ∨ (∃ now, s.point = .pinging now) → config.role = .server

variable {config : Config} {s : State}

theorem initial_invariant (created : Int) (deadline : Nat) :
    Invariant config (initial created deadline) := by
  constructor <;> simp [initial]

/-- Leaving a point where no PING is armed or about to be. -/
theorem Invariant.move (h : Invariant config s) (point : LoopPoint) (hfrom : s.point ≠ .sending)
    (hsending : point ≠ .sending) (hpinging : ∀ now, point ≠ .pinging now) :
    Invariant config { s with point := point } where
  clear := h.clear
  armed hbad := absurd hbad hsending
  awaited ha _ := h.awaited ha hfrom
  unarmed now hbad := absurd hbad (hpinging now)
  role hor := h.role (Or.inl (hor.resolve_right fun ⟨now, hbad⟩ => hpinging now hbad))

theorem Invariant.kill (h : Invariant config s) (hfrom : s.point ≠ .sending) :
    Invariant config s.kill := by
  obtain ⟨hclear, harmed, hawaited, hunarmed, hrole⟩ :=
    h.move .returned hfrom nofun nofun
  exact ⟨hclear, harmed, hawaited, hunarmed, hrole⟩

theorem checkPong_invariant (h : Invariant config s) (hpoint : s.point = .waiting) (now : Nat) :
    Invariant config (checkPong config s now) := by
  have hfrom : s.point ≠ .sending := by
    rw [hpoint]
    exact nofun
  unfold checkPong
  split_ifs with hpings hlate hwait
  · exact h.kill hfrom
  · exact h
  · have hclear : s.awaitingPong = false := by simpa using hwait
    refine ⟨h.clear, nofun, fun ha _ => h.awaited ha hfrom, fun _ _ => hclear, fun _ => ?_⟩
    simp only [Config.pings, Bool.and_eq_true, decide_eq_true_eq] at hpings
    exact hpings.1
  · exact h.move _ hfrom nofun nofun

theorem arm_invariant (h : Invariant config s) {now : Nat} (hpoint : s.point = .pinging now) :
    Invariant config (arm config s) := by
  have hempty := h.clear (h.unarmed now hpoint)
  unfold arm
  rw [hpoint]
  exact ⟨nofun, fun _ => ⟨rfl, hempty⟩, fun _ hbad => absurd rfl hbad, nofun,
    fun _ => h.role (Or.inr ⟨now, hpoint⟩)⟩

theorem sendPing_invariant (h : Invariant config s) (hpoint : s.point = .sending)
    (hrunning : s.writerRunning = true) : Invariant config (sendPing s) := by
  obtain ⟨hawaiting, hempty⟩ := h.armed hpoint
  unfold sendPing
  rw [if_pos hrunning]
  refine ⟨fun hclear => ?_, nofun, fun _ _ => by simp [hempty], nofun, fun _ => ?_⟩
  · rw [hawaiting] at hclear
    cases hclear
  · exact h.role (Or.inl hawaiting)

theorem readClock_invariant (h : Invariant config s) (hpoint : s.point = .idling) (clock : Int) :
    Invariant config (readClock s clock) := by
  have hfrom : s.point ≠ .sending := by
    rw [hpoint]
    exact nofun
  unfold readClock
  split
  · exact h.move _ hfrom nofun nofun
  · exact h.move _ hfrom nofun nofun

theorem checkIdle_invariant (h : Invariant config s) {now : Int}
    (hpoint : s.point = .comparing now) : Invariant config (checkIdle config s) := by
  have hfrom : s.point ≠ .sending := by
    rw [hpoint]
    exact nofun
  unfold checkIdle
  rw [hpoint]
  dsimp only
  split_ifs
  · exact h.kill hfrom
  · exact h.move _ hfrom nofun nofun

/-- Away from an armed PING, a PONG finds the flag and the PINGs in flight in step. -/
theorem pong_invariant (h : Invariant config s) (hpoint : s.point ≠ .sending) :
    Invariant config (next config s .pong) := by
  by_cases hawaiting : s.awaitingPong = true
  · have hrole := h.role (Or.inl hawaiting)
    have hflight := h.awaited hawaiting hpoint
    simp only [next, ackPong, hrole, hawaiting, hflight, ne_eq, not_true_eq_false, if_false,
      Bool.not_true, Bool.false_eq_true, List.tail_cons]
    exact ⟨fun _ => rfl, fun hbad => absurd hbad hpoint, nofun, fun _ _ => rfl, fun _ => hrole⟩
  · have hclear : s.awaitingPong = false := by simpa using hawaiting
    have hempty := h.clear hclear
    have hack : ackPong config s = s := by
      unfold ackPong
      split_ifs <;> simp_all
    simp only [next, hack, hempty, List.tail_nil]
    exact ⟨fun _ => rfl, fun hbad => absurd hbad hpoint, fun ha => absurd ha hawaiting, h.unarmed,
      h.role⟩

theorem step_invariant {e : Event} (h : Invariant config s) (hsound : Sound config s e)
    (henabled : Enabled s e) : Invariant config (next config s e) := by
  cases e with
  | tick now => exact checkPong_invariant h henabled now
  | arm =>
    obtain ⟨now, hpoint⟩ := henabled
    exact arm_invariant h hpoint
  | send => exact sendPing_invariant h henabled hsound
  | readClock clock => exact readClock_invariant h henabled clock
  | compare =>
    obtain ⟨now, hpoint⟩ := henabled
    exact checkIdle_invariant h hpoint
  | stop =>
    have hfrom : s.point ≠ .sending := by
      rw [henabled.1]
      exact nofun
    exact h.move _ hfrom nofun nofun
  | frame clock =>
    change Invariant config (recordFrame s clock)
    unfold recordFrame
    split
    · exact ⟨h.clear, h.armed, h.awaited, h.unarmed, h.role⟩
    · exact h
  | pong => exact pong_invariant h hsound
  | writerEnds => exact ⟨h.clear, h.armed, h.awaited, h.unarmed, h.role⟩
  | cancel => exact ⟨h.clear, h.armed, h.awaited, h.unarmed, h.role⟩

theorem reachable_invariant {created : Int} {deadline : Nat}
    (h : (system config).Reaches (Sound config) (initial created deadline) s) :
    Invariant config s :=
  (system config).invariant (Invariant config) (fun _ _ => step_invariant) h
    (initial_invariant created deadline)

theorem Invariant.one_in_flight (h : Invariant config s) : s.inFlight.length ≤ 1 := by
  by_cases hawaiting : s.awaitingPong = true
  · by_cases hpoint : s.point = .sending
    · rw [(h.armed hpoint).2]
      exact Nat.zero_le 1
    · rw [h.awaited hawaiting hpoint]
      exact Nat.le_refl 1
  · rw [h.clear (by simpa using hawaiting)]
    exact Nat.zero_le 1

/-- A difference that is not negative survives the casts. -/
theorem asU64_saturatingSub {now last : Int} (h : last ≤ now) :
    (asU64 (saturatingSub now last) : Int) ≤ now - last := by
  have hrange : 0 ≤ saturatingSub now last ∧ saturatingSub now last ≤ now - last ∧
      saturatingSub now last < 2 ^ 64 := by
    unfold saturatingSub
    omega
  obtain ⟨hnonneg, hle, hlt⟩ := hrange
  rw [asU64, Int.emod_eq_of_lt hnonneg hlt, Int.toNat_of_nonneg hnonneg]
  exact hle

theorem checkIdle_killed (hfits : config.idleMillis < 2 ^ 64)
    {now : Int} (hpoint : s.point = .comparing now) (hbefore : s.lastActivity ≤ now)
    (hkilled : s.killed = false) (h : (checkIdle config s).killed = true) :
    Idle config s .compare := by
  unfold checkIdle at h
  rw [hpoint] at h
  dsimp only at h
  split_ifs at h with hexceeded
  · refine ⟨rfl, now, hpoint, ?_⟩
    simp only [Bool.and_eq_true, decide_eq_true_eq] at hexceeded
    have hlt := hexceeded.2
    rw [Nat.mod_eq_of_lt hfits] at hlt
    have hle := asU64_saturatingSub hbefore
    unfold Config.idleMillis at hlt
    omega
  · rw [hkilled] at h
    cases h

theorem checkPong_killed (hinv : Invariant config s) {now : Nat} (hpoint : s.point = .waiting)
    (hkilled : s.killed = false) (h : (checkPong config s now).killed = true) :
    Unanswered config s (.tick now) := by
  unfold checkPong at h
  split_ifs at h with hpings hlate
  · simp only [Bool.and_eq_true, decide_eq_true_eq] at hlate
    have hflight := hinv.awaited hlate.1 (by rw [hpoint]; exact nofun)
    refine ⟨hpings, now, rfl, s.pongDeadline, ?_, hlate.2⟩
    rw [hflight]
    exact List.mem_singleton_self _
  all_goals
    have hbad : s.killed = true := h
    rw [hkilled] at hbad
    cases hbad

theorem checkIdle_disabled (h : config.idleTimeout = 0) :
    (checkIdle config s).killed = s.killed := by
  unfold checkIdle
  split
  · simp [h]
  · rfl

/-- In every run of sound steps the loop cancels the session only for an overdue PING or an idle
time above the timeout, at most one PING is in flight, and a zero timeout never cancels. -/
theorem heartbeat_justified {created : Int} {deadline : Nat} {e : Event}
    (h : (system config).Reaches (Sound config) (initial created deadline) s)
    (hsound : Sound config s e) (henabled : Enabled s e) :
    (s.killed = false → (next config s e).killed = true →
      Unanswered config s e ∨ Idle config s e) ∧
    s.inFlight.length ≤ 1 ∧ (next config s e).inFlight.length ≤ 1 ∧
    (config.idleTimeout = 0 → e = .compare → (next config s e).killed = s.killed) := by
  have hinv := reachable_invariant h
  refine ⟨fun hkilled hkills => ?_, hinv.one_in_flight,
    (step_invariant hinv hsound henabled).one_in_flight, ?_⟩
  · have hsame : (next config s e).killed = s.killed → False := by
      intro hsame
      rw [hsame, hkilled] at hkills
      cases hkills
    cases e with
    | tick now => exact Or.inl (checkPong_killed hinv henabled hkilled hkills)
    | compare =>
      obtain ⟨now, hpoint⟩ := henabled
      rcases hsound with hzero | ⟨hfits, hbefore⟩
      · exact absurd (checkIdle_disabled hzero) hsame
      · exact Or.inr (checkIdle_killed hfits hpoint (hbefore now hpoint) hkilled hkills)
    | arm =>
      obtain ⟨now, hpoint⟩ := henabled
      exact absurd (by simp [next, arm, hpoint]) hsame
    | send =>
      have hrunning : s.writerRunning = true := hsound
      exact absurd (by simp [next, sendPing, hrunning]) hsame
    | readClock clock => exact absurd (by simp only [next, readClock]; split <;> rfl) hsame
    | frame clock => exact absurd (by simp only [next, recordFrame]; split <;> rfl) hsame
    | pong => exact absurd (by simp only [next, ackPong]; split_ifs <;> rfl) hsame
    | stop => exact absurd rfl hsame
    | writerEnds => exact absurd rfl hsame
    | cancel => exact absurd rfl hsame
  · rintro hzero rfl
    exact checkIdle_disabled hzero

def serverConfig : Config :=
  { role := .server, interval := 10 ^ 9, pongTimeout := 0, idleTimeout := 60 * 10 ^ 9 }

/-- A PING sent at one second finds no PONG until its deadline at six. -/
theorem heartbeat_justified_overdue :
    let s := (system serverConfig).follow (initial 1000 0)
      [.tick (10 ^ 9), .arm, .send, .readClock 2000, .compare]
    (next serverConfig s (.tick (6 * 10 ^ 9))).killed = true ∧
      (Unanswered serverConfig s (.tick (6 * 10 ^ 9)) ∨
        Idle serverConfig s (.tick (6 * 10 ^ 9))) := by
  have hadmits : (system serverConfig).Admits (Sound serverConfig) (initial 1000 0)
      [.tick (10 ^ 9), .arm, .send, .readClock 2000, .compare] := by
    refine ⟨trivial, rfl, trivial, ⟨_, rfl⟩, rfl, rfl, trivial, rfl, Or.inr ⟨by decide, ?_⟩,
      ⟨_, rfl⟩, trivial⟩
    intro now hpoint
    obtain rfl := LoopPoint.comparing.inj hpoint
    decide
  exact ⟨rfl, (heartbeat_justified (e := .tick (6 * 10 ^ 9)) (Events.System.reaches_follow hadmits)
    trivial rfl).1 rfl rfl⟩

def clientConfig : Config :=
  { role := .client, interval := 0, pongTimeout := 0, idleTimeout := 60 * 10 ^ 9 }

/-- What the idle check must not do: cancel a session whose last frame is newer than the clock. -/
def KilledFresh (events : List Event) : Prop :=
  let s := (system clientConfig).follow (initial 5000 0) events
  (system clientConfig).Reaches Events.System.free (initial 5000 0) s ∧ Enabled s .compare ∧
    s.killed = false ∧ (next clientConfig s .compare).killed = true ∧
    ¬(Unanswered clientConfig s .compare ∨ Idle clientConfig s .compare)

/-- A clock set back by a millisecond does it; so does a frame recorded between the reading of a
clock that never goes back and the check. -/
theorem fresh_session_killed : KilledFresh [.frame 5000, .tick 0, .readClock 4999] ∧
    KilledFresh [.tick 0, .readClock 5000, .frame 5001] := by
  have hnot : ∀ {s : State} (now : Int), s.point = .comparing now → now < s.lastActivity →
      ¬(Unanswered clientConfig s .compare ∨ Idle clientConfig s .compare) := by
    rintro s now hpoint hlt (⟨hpings, -⟩ | ⟨-, now', hpoint', hidle⟩)
    · cases hpings
    · rw [hpoint] at hpoint'
      obtain rfl := LoopPoint.comparing.inj hpoint'
      omega
  constructor
  · refine ⟨Events.System.reaches_follow ⟨trivial, Int.natCast_nonneg 5000, trivial, rfl,
      trivial, rfl, trivial⟩,
      ⟨4999, rfl⟩, rfl, rfl, ?_⟩
    exact hnot 4999 rfl (by decide)
  · refine ⟨Events.System.reaches_follow ⟨trivial, rfl, trivial, rfl, trivial,
      Int.natCast_nonneg 5001, trivial⟩,
      ⟨5000, rfl⟩, rfl, rfl, ?_⟩
    exact hnot 5000 rfl (by decide)

end Heartbeat
