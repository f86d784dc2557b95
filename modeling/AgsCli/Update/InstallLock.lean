import AgsCli.Library.Events
import AgsCli.Update.Install
import Mathlib.Data.Fintype.Basic
import Mathlib.Logic.Function.Basic

/-! # Install lock

`InstallLock::acquire`, its heartbeat and its `Drop` over one lock file, for any number of
processes. Each file-system call and each look at the clock is a step of its own; the stale check
reads the time of the file there and then the clock, the rename that follows goes by name. A process
holds the lock from the creation of its file on. -/
namespace InstallLock

open UpdateInstall (CliError)

structure Lock where
  path : String
  staleAfter : Nat

def Lock.concurrent (l : Lock) : CliError :=
  .usage s!"Another ags update --install is running (lock: {l.path})."

def Lock.createFailed (l : Lock) (reason : String) : CliError :=
  .internal s!"Failed to create lock file {l.path}: {reason}"

structure LockFile where
  id : Nat
  modified : Nat
  deriving DecidableEq

/-- `dated` keeps the metadata that was read, `stale` those found stale; `released true` has a beat in
flight. -/
inductive Proc
  | idle
  | exists
  | dated (read : LockFile)
  | stale (read : LockFile)
  | renamed
  | recreating
  | created (own : Nat)
  | holding (own : Nat)
  | refused (error : CliError)
  | released (beating : Bool)
  | crashed
  deriving DecidableEq

/-- The file a live process made and holds the lock by. -/
def Proc.own : Proc → Option Nat
  | .created own | .holding own => some own
  | _ => none

structure State (P : Type) where
  proc : P → Proc
  file : Option LockFile
  nextId : Nat
  now : Nat

inductive Event (P : Type)
  | tick (elapsed : Nat)
  | create (p : P)
  | inspect (p : P)
  | judge (p : P)
  | rename (p : P)
  | clean (p : P)
  | recreate (p : P)
  | write (p : P)
  | beat (p : P)
  | drop (p : P) (removed beating : Bool)
  | crash (p : P)
  | fail (p : P) (reason : String)

section Machine

variable {P : Type} [DecidableEq P] (l : Lock) (s : State P)

/-- A lock file of an earlier run may be there. -/
def State.init (left : Option LockFile) (now : Nat) : State P :=
  ⟨fun _ => .idle, left, (left.map (·.id + 1)).getD 0, now⟩

def State.sets (p : P) (x : Proc) : State P := { s with proc := Function.update s.proc p x }

@[simp] theorem State.sets_self (p : P) (x : Proc) : (s.sets p x).proc p = x := by
  simp [State.sets]

theorem State.sets_of_ne {p q : P} (h : q ≠ p) (x : Proc) : (s.sets p x).proc q = s.proc q := by
  simp [State.sets, h]

/-- `create_new` where no file is. -/
def State.creates (p : P) : State P :=
  { s.sets p (.created s.nextId) with
    file := some ⟨s.nextId, s.now⟩
    nextId := s.nextId + 1 }

/-- `modified.elapsed()` is over the threshold, whatever has become of the file by then. -/
def State.judges (p : P) (read : LockFile) : State P :=
  if l.staleAfter < s.now - read.modified then s.sets p (.stale read)
  else s.sets p (.refused l.concurrent)

/-- The process id goes into the file that was created, wherever it is now. -/
def State.writes (p : P) (own : Nat) : State P :=
  { s.sets p (.holding own) with
    file := s.file.map fun f => if f.id = own then { f with modified := s.now } else f }

/-- `fs::write` of the heartbeat: the file at the path is rewritten, or made. -/
def State.beats : State P :=
  match s.file with
  | some f => { s with file := some { f with modified := s.now } }
  | none => { s with file := some ⟨s.nextId, s.now⟩, nextId := s.nextId + 1 }

/-- What a failed call does; only `create_new` and the rename matter. -/
def Proc.failed (reason : String) : Proc → Proc
  | .idle => .refused (l.createFailed reason)
  | .exists | .dated _ | .stale _ | .recreating => .refused l.concurrent
  | .renamed => .recreating
  | .created own => .holding own
  | x => x

/-- A process whose file system calls fail or whose turn it is not stays as it is. -/
def next : Event P → State P
  | .tick elapsed => { s with now := s.now + elapsed }
  | .create p => if s.file = none then s.creates p else s.sets p .exists
  | .inspect p =>
    match s.file with
    | some f => s.sets p (.dated f)
    | none => s.sets p (.refused l.concurrent)
  | .judge p =>
    match s.proc p with
    | .dated read => s.judges l p read
    | _ => s
  | .rename p =>
    if s.file = none then s.sets p (.refused l.concurrent)
    else { s.sets p .renamed with file := none }
  | .clean p => s.sets p .recreating
  | .recreate p => if s.file = none then s.creates p else s.sets p (.refused l.concurrent)
  | .write p =>
    match s.proc p with
    | .created own => s.writes p own
    | _ => s
  | .beat p =>
    match s.proc p with
    | .holding _ => s.beats
    | _ => s.beats.sets p (.released false)
  | .drop p removed beating =>
    { s.sets p (.released beating) with file := if removed then none else s.file }
  | .crash p => s.sets p .crashed
  | .fail p reason => s.sets p ((s.proc p).failed l reason)

omit [DecidableEq P] in
def Enabled : Event P → Prop
  | .tick _ | .fail _ _ | .crash _ => True
  | .create p => s.proc p = .idle
  | .inspect p => s.proc p = .exists
  | .judge p => ∃ read, s.proc p = .dated read
  | .rename p => ∃ read, s.proc p = .stale read
  | .clean p => s.proc p = .renamed
  | .recreate p => s.proc p = .recreating
  | .write p => ∃ own, s.proc p = .created own
  | .beat p => (∃ own, s.proc p = .holding own) ∨ s.proc p = .released true
  | .drop p _ _ => ∃ own, s.proc p = .holding own

def system : Events.System (State P) (Event P) := ⟨Enabled, next l⟩

end Machine

section Safety

variable {P : Type} (l : Lock) (s : State P)

/-- The file of a live holder is younger than the threshold. -/
def KeptFresh : Prop :=
  ∀ p f, s.file = some f → (s.proc p).own = some f.id → s.now - f.modified < l.staleAfter

instance [Fintype P] : Decidable (KeptFresh l s) :=
  match hfile : s.file with
  | none => isTrue fun p f hf => by
      rw [hfile] at hf
      cases hf
  | some f => decidable_of_iff
      (∀ p, (s.proc p).own = some f.id → s.now - f.modified < l.staleAfter)
      ⟨fun h p f' hf => by
        obtain rfl := Option.some.inj (hfile.symm.trans hf)
        exact h p, fun h p => h p f hfile⟩

/-- A rename takes the file that was found stale as it was read then, or one that no live process
holds. -/
def TakesStale : Event P → Prop
  | .rename p => ∀ f, s.file = some f →
    s.proc p = .stale f ∨ ∀ q, (s.proc q).own ≠ some f.id
  | _ => True

/-- At most one live process holds the lock, and what a drop would remove is its own file. -/
structure Safe : Prop where
  exclusive : ∀ p q, (s.proc p).own.isSome → (s.proc q).own.isSome → p = q
  drops : ∀ p own, s.proc p = .holding own → ∀ f, s.file = some f → f.id = own

/-- The file at the path is the one of the live holder, and what was found stale stays stale. -/
structure Invariant : Prop where
  fresh : ∀ f, s.file = some f → f.id < s.nextId
  owned : ∀ p own, (s.proc p).own = some own → ∃ f, s.file = some f ∧ f.id = own
  distinct : ∀ p q own, (s.proc p).own = some own → (s.proc q).own = some own → p = q
  stale : ∀ p read, s.proc p = .stale read → l.staleAfter < s.now - read.modified

end Safety

section Steps

variable {P : Type} {l : Lock} {s : State P}

theorem holders_eq (h : Invariant l s) {p q : P} {own own' : Nat}
    (hp : (s.proc p).own = some own) (hq : (s.proc q).own = some own') : p = q := by
  obtain ⟨f, hf, rfl⟩ := h.owned p own hp
  obtain ⟨f', hf', rfl⟩ := h.owned q own' hq
  have heq : f = f' := Option.some.inj (hf.symm.trans hf')
  subst heq
  exact h.distinct p q f.id hp hq

theorem not_owned_of_no_file (h : Invariant l s) (hfile : s.file = none) (q : P) (own : Nat) :
    (s.proc q).own ≠ some own := by
  intro hq
  obtain ⟨f, hf, -⟩ := h.owned q own hq
  rw [hfile] at hf
  cases hf

theorem safe_of_invariant (h : Invariant l s) : Safe s := by
  constructor
  · intro p q hp hq
    obtain ⟨own, hown⟩ := Option.isSome_iff_exists.mp hp
    obtain ⟨own', hown'⟩ := Option.isSome_iff_exists.mp hq
    exact holders_eq h hown hown'
  · intro p own hp f hf
    obtain ⟨f', hf', rfl⟩ := h.owned p own (by rw [hp]; rfl)
    rw [Option.some.inj (hf.symm.trans hf')]

theorem invariant_init (left : Option LockFile) (now : Nat) :
    Invariant l (State.init left now : State P) where
  fresh f hf := by
    have hleft : left = some f := hf
    subst hleft
    exact Nat.lt_succ_self f.id
  owned p own hp := by cases hp
  distinct p q own hp := by cases hp
  stale p read hp := by cases hp

variable [DecidableEq P]

/-- A process that takes no file of its own; the files of others stay. -/
theorem invariant_update (h : Invariant l s) {p : P} {x : Proc} {file : Option LockFile}
    (hown : ∀ own, x.own = some own → (s.proc p).own = some own)
    (hstale : ∀ read, x = .stale read → l.staleAfter < s.now - read.modified)
    (hfresh : ∀ f, file = some f → f.id < s.nextId)
    (hkept : ∀ q own, (s.proc q).own = some own → (q = p → x.own = some own) →
      ∃ f, file = some f ∧ f.id = own) :
    Invariant l { s.sets p x with file := file } := by
  have hback : ∀ q own, (Function.update s.proc p x q).own = some own →
      (s.proc q).own = some own ∧ (q = p → x.own = some own) := by
    intro q own hq
    by_cases hqp : q = p
    · subst q
      rw [Function.update_self] at hq
      exact ⟨hown own hq, fun _ => hq⟩
    · rw [Function.update_of_ne hqp] at hq
      exact ⟨hq, fun heq => absurd heq hqp⟩
  constructor
  · exact hfresh
  · intro q own hq
    exact hkept q own (hback q own hq).1 (hback q own hq).2
  · intro q q' own hq hq'
    exact h.distinct q q' own (hback q own hq).1 (hback q' own hq').1
  · intro q read hq
    change Function.update s.proc p x q = .stale read at hq
    by_cases hqp : q = p
    · subst q
      rw [Function.update_self] at hq
      exact hstale read hq
    · rw [Function.update_of_ne hqp] at hq
      exact h.stale q read hq

/-- A process gives up or goes on, the file as it was. -/
theorem invariant_sets (h : Invariant l s) {p : P} {x : Proc}
    (hown : ∀ own, x.own = some own → (s.proc p).own = some own)
    (hstale : ∀ read, x = .stale read → l.staleAfter < s.now - read.modified) :
    Invariant l (s.sets p x) :=
  invariant_update h hown hstale h.fresh fun q own hq _ => h.owned q own hq

/-- A process without a file and without a finding. -/
theorem invariant_quits (h : Invariant l s) (p : P) {x : Proc} (hown : x.own = none)
    (hstale : ∀ read, x ≠ .stale read) : Invariant l (s.sets p x) := by
  refine invariant_sets h (fun own hx => ?_) fun read hx => absurd hx (hstale read)
  rw [hown] at hx
  cases hx

/-- A new file where none is: nobody held the lock. -/
theorem invariant_creates (h : Invariant l s) (hfile : s.file = none) (p : P) :
    Invariant l (s.creates p) := by
  have hnone := not_owned_of_no_file h hfile
  have howner : ∀ q own, (Function.update s.proc p (.created s.nextId) q).own = some own →
      q = p ∧ own = s.nextId := by
    intro q own hq
    by_cases hqp : q = p
    · subst q
      rw [Function.update_self] at hq
      exact ⟨rfl, (Option.some.inj hq).symm⟩
    · rw [Function.update_of_ne hqp] at hq
      exact absurd hq (hnone q own)
  constructor
  · intro f hf
    obtain rfl := Option.some.inj hf
    exact Nat.lt_succ_self _
  · intro q own hq
    obtain ⟨-, rfl⟩ := howner q own hq
    exact ⟨_, rfl, rfl⟩
  · intro q q' own hq hq'
    rw [(howner q own hq).1, (howner q' own hq').1]
  · intro q read hq
    change Function.update s.proc p (.created s.nextId) q = .stale read at hq
    by_cases hqp : q = p
    · subst q
      rw [Function.update_self] at hq
      cases hq
    · rw [Function.update_of_ne hqp] at hq
      exact h.stale q read hq

omit [DecidableEq P] in
/-- A beat keeps the file of a holder; it only makes one when there is none. -/
theorem invariant_beats (h : Invariant l s) : Invariant l s.beats := by
  unfold State.beats
  split
  · next f hf =>
    refine ⟨?_, ?_, h.distinct, h.stale⟩
    · intro f' hf'
      obtain rfl := Option.some.inj hf'
      exact h.fresh f hf
    · intro p own hp
      obtain ⟨f', hf', hid⟩ := h.owned p own hp
      rw [hf] at hf'
      obtain rfl := Option.some.inj hf'
      exact ⟨_, rfl, hid⟩
  · next hf =>
    have hnone := not_owned_of_no_file h hf
    refine ⟨?_, fun p own hp => absurd hp (hnone p own), h.distinct, h.stale⟩
    intro f' hf'
    obtain rfl := Option.some.inj hf'
    exact Nat.lt_succ_self _

theorem invariant_judges (h : Invariant l s) (p : P) (read : LockFile) :
    Invariant l (s.judges l p read) := by
  unfold State.judges
  by_cases hage : l.staleAfter < s.now - read.modified
  · rw [if_pos hage]
    refine invariant_sets h (fun own hx => by cases hx) fun read' hx => ?_
    obtain rfl := Proc.stale.inj hx
    exact hage
  · rw [if_neg hage]
    exact invariant_quits h p rfl fun read' hx => by cases hx

omit [DecidableEq P] in
/-- What was found stale and is there as it was read is the file of no live holder. -/
theorem unheld_of_stale (h : Invariant l s) (hkept : KeptFresh l s) {p : P} {f : LockFile}
    (hp : s.proc p = .stale f) (hf : s.file = some f) (q : P) : (s.proc q).own ≠ some f.id := by
  intro hq
  have hyoung := hkept q f hf hq
  have hold := h.stale p f hp
  omega

theorem invariant_rename (h : Invariant l s) (hkept : KeptFresh l s) {p : P}
    (htakes : TakesStale s (.rename p)) : Invariant l { s.sets p .renamed with file := none } := by
  refine invariant_update h (fun own hx => by cases hx) (fun read hx => by cases hx)
    (fun f hf => by cases hf) ?_
  intro q own hq _
  obtain ⟨f, hf, rfl⟩ := h.owned q own hq
  rcases htakes f hf with hread | hunheld
  · exact absurd hq (unheld_of_stale h hkept hread hf q)
  · exact absurd hq (hunheld q)

theorem invariant_writes (h : Invariant l s) {p : P} {own : Nat} (hp : s.proc p = .created own) :
    Invariant l (s.writes p own) := by
  have hids : ∀ f, s.file = some f → ∃ f', (s.file.map fun f =>
      if f.id = own then { f with modified := s.now } else f) = some f' ∧ f'.id = f.id := by
    intro f hf
    rw [hf]
    refine ⟨_, rfl, ?_⟩
    by_cases hid : f.id = own
    · simp [hid]
    · simp [hid]
  refine invariant_update h ?_ (fun read hx => by cases hx) ?_ ?_
  · intro own' hx
    rw [hp]
    exact hx
  · intro f' hf'
    obtain ⟨f, hf, -⟩ := Option.map_eq_some_iff.mp hf'
    obtain ⟨f'', hf'', hid⟩ := hids f hf
    rw [Option.some.inj (hf'.symm.trans hf''), hid]
    exact h.fresh f hf
  · intro q own' hq _
    obtain ⟨f, hf, rfl⟩ := h.owned q own' hq
    exact hids f hf

/-- The only holder goes, with its file or without. -/
theorem invariant_drop (h : Invariant l s) {p : P} {own : Nat} (hp : s.proc p = .holding own)
    (removed beating : Bool) : Invariant l { s.sets p (.released beating) with
      file := if removed then none else s.file } := by
  refine invariant_update h (fun own hx => by cases hx) (fun read hx => by cases hx) ?_ ?_
  · intro f hf
    cases removed with
    | false => exact h.fresh f hf
    | true => cases hf
  · intro q own' hq hleft
    have hpown : (s.proc p).own = some own := by rw [hp]; rfl
    cases hleft (holders_eq h hq hpown)

omit [DecidableEq P] in
theorem failed_own {x : Proc} {reason : String} {own : Nat}
    (h : (x.failed l reason).own = some own) : x.own = some own := by
  cases x with
  | created _ => exact h
  | holding _ => exact h
  | _ => cases h

omit [DecidableEq P] in
theorem failed_stale (x : Proc) (reason : String) (read : LockFile) :
    x.failed l reason ≠ .stale read := by
  intro h
  cases x <;> cases h

theorem invariant_next {event : Event P} (h : Invariant l s) (hkept : KeptFresh l s)
    (htakes : TakesStale s event) (henabled : Enabled s event) :
    Invariant l (next l s event) := by
  cases event with
  | tick elapsed =>
    refine ⟨h.fresh, h.owned, h.distinct, fun p read hp => ?_⟩
    have hold := h.stale p read hp
    simp only [next]
    omega
  | create p =>
    by_cases hfile : s.file = none
    · rw [next, if_pos hfile]
      exact invariant_creates h hfile p
    · rw [next, if_neg hfile]
      exact invariant_quits h p rfl fun read hx => by cases hx
  | inspect p =>
    cases hfile : s.file with
    | none =>
      simp only [next, hfile]
      exact invariant_quits h p rfl fun read hx => by cases hx
    | some f =>
      simp only [next, hfile]
      exact invariant_quits h p rfl fun read hx => by cases hx
  | judge p =>
    obtain ⟨read, hp⟩ := henabled
    simp only [next, hp]
    exact invariant_judges h p read
  | rename p =>
    by_cases hfile : s.file = none
    · rw [next, if_pos hfile]
      exact invariant_quits h p rfl fun read hx => by cases hx
    · rw [next, if_neg hfile]
      exact invariant_rename h hkept htakes
  | clean p => exact invariant_quits h p rfl fun read hx => by cases hx
  | recreate p =>
    by_cases hfile : s.file = none
    · rw [next, if_pos hfile]
      exact invariant_creates h hfile p
    · rw [next, if_neg hfile]
      exact invariant_quits h p rfl fun read hx => by cases hx
  | write p =>
    obtain ⟨own, hp⟩ := henabled
    simp only [next, hp]
    exact invariant_writes h hp
  | beat p =>
    have hbeats := invariant_beats h
    rcases henabled with ⟨own, hp⟩ | hp
    · simp only [next, hp]
      exact hbeats
    · simp only [next, hp]
      exact invariant_quits hbeats p rfl fun read hx => by cases hx
  | drop p removed beating =>
    obtain ⟨own, hp⟩ := henabled
    exact invariant_drop h hp removed beating
  | crash p => exact invariant_quits h p rfl fun read hx => by cases hx
  | fail p reason =>
    exact invariant_sets h (fun own => failed_own) fun read hx =>
      absurd hx (failed_stale _ reason read)

/-- In every run whose renames take the file found stale, not replaced or rewritten since it was read,
or one nobody holds, and whose holders keep their files fresh, at most one live process holds the
lock and a drop removes its own file. -/
theorem lock_safe {left : Option LockFile} {now : Nat}
    (h : (system l).Reaches (fun s event => KeptFresh l s ∧ TakesStale s event) (.init left now) s) :
    Safe s := by
  apply safe_of_invariant
  refine (system l).invariant (Invariant l) ?_ h (invariant_init left now)
  intro s event hinv hallowed henabled
  exact invariant_next hinv hallowed.1 hallowed.2 henabled

omit [DecidableEq P] in
theorem keptFresh_of_no_file (hfile : s.file = none) : KeptFresh l s := by
  intro p f hf
  rw [hfile] at hf
  cases hf

/-- A rename of a live holder's file lets its process create another one and hold the lock too. -/
theorem unsafe_of_replaced (hkept : KeptFresh l s) {p q : P} {read f : LockFile}
    (hp : s.proc p = .stale read) (hf : s.file = some f) (hq : (s.proc q).own = some f.id) :
    ∃ t, (system l).Reaches (fun s _ => KeptFresh l s) s t ∧ ¬Safe t := by
  have hne : q ≠ p := by
    intro heq
    rw [heq, hp] at hq
    cases hq
  let renamed : State P := { s.sets p .renamed with file := none }
  let recreating := renamed.sets p .recreating
  have hrenamed : (system l).next s (.rename p) = renamed :=
    if_neg (by rw [hf]; exact Option.some_ne_none f)
  have h0 : (system l).Reaches (fun s _ => KeptFresh l s) s s := .refl s
  have h1 := h0.event (e := .rename p) hkept ⟨read, hp⟩
  rw [hrenamed] at h1
  have h2 : (system l).Reaches (fun s _ => KeptFresh l s) s recreating :=
    h1.event (e := .clean p) (keptFresh_of_no_file rfl) (s.sets_self p .renamed)
  have h3 : (system l).Reaches (fun s _ => KeptFresh l s) s (recreating.creates p) :=
    h2.event (e := .recreate p) (keptFresh_of_no_file rfl) (renamed.sets_self p .recreating)
  have hfirst : (recreating.creates p).proc q = s.proc q :=
    (recreating.sets_of_ne hne _).trans ((renamed.sets_of_ne hne _).trans (s.sets_of_ne hne _))
  have hsecond : (recreating.creates p).proc p = .created s.nextId := recreating.sets_self p _
  refine ⟨_, h3, fun hsafe => hne (hsafe.exclusive q p ?_ ?_)⟩
  · rw [hfirst, hq]
    rfl
  · rw [hsecond]
    rfl

end Steps

section Stolen

def lock : Lock := ⟨"/home/me/.cache/ags/update-install.lock", 600⟩

/-- Both find the file of a crashed run stale before the first one replaces it. -/
def bothStale : List (Event (Fin 2)) :=
  [.create 0, .create 1, .inspect 0, .judge 0, .inspect 1, .judge 1, .rename 0, .clean 0,
    .recreate 0, .write 0]

def crashedRun : State (Fin 2) := .init (some ⟨0, 0⟩) 1000

/-- The second one still has the old file's age when the first one holds the lock. -/
def replaced : State (Fin 2) := (system lock).follow crashedRun bothStale

theorem bothStale_admitted :
    (system lock).Admits (fun s _ => KeptFresh lock s) crashedRun bothStale :=
  ⟨by decide, rfl, by decide, rfl, by decide, rfl, by decide, ⟨⟨0, 0⟩, rfl⟩, by decide, rfl,
    by decide, ⟨⟨0, 0⟩, rfl⟩, by decide, ⟨⟨0, 0⟩, rfl⟩, by decide, rfl, by decide, rfl, by decide,
    ⟨1, rfl⟩, trivial⟩

theorem replaced_first : replaced.proc 0 = .holding 1 := rfl

theorem replaced_second : replaced.proc 1 = .stale ⟨0, 0⟩ := rfl

theorem replaced_file : replaced.file = some ⟨1, 1000⟩ := rfl

/-- The second one renames the first one's new file by name, and holds the lock as well. -/
theorem lock_not_exclusive :
    ¬ ∀ s, (system lock).Reaches (fun s _ => KeptFresh lock s) crashedRun s → Safe s := by
  intro hclaim
  have hreached := Events.System.reaches_follow bothStale_admitted
  have hkept : KeptFresh lock replaced := by decide
  obtain ⟨t, ht, hunsafe⟩ := unsafe_of_replaced hkept replaced_second replaced_file
    (by rw [replaced_first]; rfl)
  exact hunsafe (hclaim t (hreached.trans ht))

/-- One process finds the old file stale, replaces it and keeps its own fresh. -/
def takeover : List (Event (Fin 2)) :=
  [.create 0, .inspect 0, .judge 0, .rename 0, .clean 0, .recreate 0, .write 0, .tick 60, .beat 0]

theorem takeover_admitted : (system lock).Admits
    (fun s event => KeptFresh lock s ∧ TakesStale s event) crashedRun takeover :=
  ⟨⟨by decide, trivial⟩, rfl, ⟨by decide, trivial⟩, rfl, ⟨by decide, trivial⟩, ⟨⟨0, 0⟩, rfl⟩,
    ⟨by decide, fun f hf => Or.inl (by obtain rfl := Option.some.inj hf; rfl)⟩, ⟨⟨0, 0⟩, rfl⟩,
    ⟨by decide, trivial⟩, rfl, ⟨by decide, trivial⟩, rfl, ⟨by decide, trivial⟩, ⟨1, rfl⟩,
    ⟨by decide, trivial⟩, trivial, ⟨by decide, trivial⟩, Or.inl ⟨1, rfl⟩, trivial⟩

theorem takeover_safe : Safe ((system lock).follow crashedRun takeover) :=
  lock_safe (Events.System.reaches_follow takeover_admitted)

end Stolen

end InstallLock
