import AgsCli.Library.Events
import Mathlib.Data.List.Basic

/-! # Starting the read pump

The first statement of `read_pump`: every invocation locks and takes the read half, then locks and
takes the cancel receiver, and goes on only with both. The guards are temporaries of the whole
statement, so the first lock is held until the second take is done. -/
namespace PumpStart

/-- How far an invocation has come, with what it took. -/
inductive PumpCall
  | spawned
  | readTaken (read : Bool)
  | bothTaken (read cancel : Bool)
  | pumping
  | returned (read cancel : Bool)
  deriving DecidableEq, Repr

/-- The two resources of a stream, their locks by holder, and the invocations. -/
structure State where
  readHalf : Bool
  cancelRx : Bool
  readLock : Option Nat
  cancelLock : Option Nat
  calls : List PumpCall

def initial : State :=
  { readHalf := true, cancelRx := true, readLock := none, cancelLock := none, calls := [] }

inductive Event
  | call
  | takeRead (i : Nat)
  | takeCancel (i : Nat)
  | decide (i : Nat)

def Enabled (s : State) : Event → Prop
  | .call => True
  | .takeRead i => s.calls[i]? = some .spawned ∧ s.readLock = none
  | .takeCancel i => (∃ read, s.calls[i]? = some (.readTaken read)) ∧ s.cancelLock = none
  | .decide i => ∃ read cancel, s.calls[i]? = some (.bothTaken read cancel)

/-- The guards are released when the statement is done. -/
def next (s : State) : Event → State
  | .call => { s with calls := s.calls ++ [.spawned] }
  | .takeRead i => { s with
      readHalf := false, readLock := some i, calls := s.calls.set i (.readTaken s.readHalf) }
  | .takeCancel i =>
    match s.calls[i]? with
    | some (.readTaken read) => { s with
        cancelRx := false, cancelLock := some i
        calls := s.calls.set i (.bothTaken read s.cancelRx) }
    | _ => s
  | .decide i =>
    match s.calls[i]? with
    | some (.bothTaken read cancel) => { s with
        readLock := none, cancelLock := none
        calls := s.calls.set i (if read && cancel then .pumping else .returned read cancel) }
    | _ => s

def system : Events.System State Event := ⟨Enabled, next⟩

namespace PumpCall

/-- The invocation is in the read loop or has returned. -/
def isOver : PumpCall → Bool
  | .pumping | .returned _ _ => true
  | _ => false

def holdsRead : PumpCall → Bool
  | .readTaken _ | .bothTaken _ _ => true
  | _ => false

def holdsCancel : PumpCall → Bool
  | .bothTaken _ _ => true
  | _ => false

def empty : PumpCall → Bool
  | .spawned | .readTaken false | .bothTaken false false | .returned false false => true
  | _ => false

end PumpCall

/-- Where the invocation that took the read half is, with the state of the other resource. -/
def Winner (s : State) (w : Nat) : Prop :=
  (s.calls[w]? = some (.readTaken true) ∧ s.cancelRx = true) ∨
    (s.calls[w]? = some (.bothTaken true true) ∧ s.cancelRx = false) ∨
    (s.calls[w]? = some .pumping ∧ s.cancelRx = false)

/-- The locks are held by the invocations inside the statement. Either nobody has taken anything,
or one invocation has taken what is gone and the others have nothing. -/
structure Invariant (s : State) : Prop where
  readLock : ∀ i, s.readLock = some i ↔ ∃ c, s.calls[i]? = some c ∧ c.holdsRead = true
  cancelLock : ∀ i, s.cancelLock = some i ↔ ∃ c, s.calls[i]? = some c ∧ c.holdsCancel = true
  untouched : s.readHalf = true → s.cancelRx = true ∧
    ∀ (i : Nat) (c : PumpCall), s.calls[i]? = some c → c = .spawned
  taken : s.readHalf = false → ∃ w, Winner s w ∧
    ∀ (i : Nat) (c : PumpCall), s.calls[i]? = some c → i ≠ w → c.empty = true

variable {s : State} {i : Nat}

section Calls

variable {l : List PumpCall} {j : Nat} {c d : PumpCall}

theorem get_set (hc : l[i]? = some c) (d : PumpCall) (j : Nat) :
    (l.set i d)[j]? = if i = j then some d else l[j]? := by
  have hlt : i < l.length := (List.getElem?_eq_some_iff.mp hc).1
  rw [List.getElem?_set]
  split_ifs with hij
  · rfl
  · rfl

/-- A property of the calls after one of them moved. -/
theorem exists_set {P : PumpCall → Prop} (hc : l[i]? = some c) (hij : i ≠ j) :
    (∃ e, (l.set i d)[j]? = some e ∧ P e) ↔ ∃ e, l[j]? = some e ∧ P e := by
  rw [get_set hc d j, if_neg hij]

theorem exists_set_self {P : PumpCall → Prop} (hc : l[i]? = some c) :
    (∃ e, (l.set i d)[i]? = some e ∧ P e) ↔ P d := by
  rw [get_set hc d i, if_pos rfl]
  constructor
  · rintro ⟨e, he, hP⟩
    exact Option.some.inj he ▸ hP
  · intro hP
    exact ⟨d, rfl, hP⟩

theorem get_append (h : (l ++ [d])[j]? = some c) : l[j]? = some c ∨ c = d := by
  rw [List.getElem?_append] at h
  split at h
  · exact Or.inl h
  · rw [List.getElem?_singleton] at h
    split at h
    · exact Or.inr (Option.some.inj h).symm
    · cases h

theorem get_append_of_get (h : l[j]? = some c) : (l ++ [d])[j]? = some c := by
  have hlt : j < l.length := (List.getElem?_eq_some_iff.mp h).1
  exact (List.getElem?_append_left hlt).trans h

end Calls

theorem Invariant.holder (hs : Invariant s) {j : Nat} {c d : PumpCall}
    (hc : s.calls[i]? = some c) (hd : s.calls[j]? = some d) (hci : c.holdsRead = true)
    (hdj : d.holdsRead = true) : i = j := by
  have hi := (hs.readLock i).mpr ⟨c, hc, hci⟩
  have hj := (hs.readLock j).mpr ⟨d, hd, hdj⟩
  exact Option.some.inj (hi.symm.trans hj)

theorem invariant_initial : Invariant initial := by
  constructor
  · simp [initial]
  · simp [initial]
  · simp [initial]
  · intro h
    cases h

theorem invariant_call (hs : Invariant s) : Invariant (next s .call) := by
  have hholds : ∀ (P : PumpCall → Bool), P .spawned = false → ∀ j : Nat,
      (∃ c, (s.calls ++ [.spawned])[j]? = some c ∧ P c = true) ↔
        ∃ c, s.calls[j]? = some c ∧ P c = true := by
    intro P hP j
    constructor
    · rintro ⟨c, hc, hPc⟩
      rcases get_append hc with hc | rfl
      · exact ⟨c, hc, hPc⟩
      · rw [hP] at hPc
        cases hPc
    · rintro ⟨c, hc, hPc⟩
      exact ⟨c, get_append_of_get hc, hPc⟩
  constructor
  · intro j
    rw [show (next s .call).calls = s.calls ++ [.spawned] from rfl, hholds _ rfl]
    exact hs.readLock j
  · intro j
    rw [show (next s .call).calls = s.calls ++ [.spawned] from rfl, hholds _ rfl]
    exact hs.cancelLock j
  · intro hread
    obtain ⟨hcancel, hall⟩ := hs.untouched hread
    refine ⟨hcancel, fun j c hc => ?_⟩
    rcases get_append hc with hc | rfl
    · exact hall j c hc
    · rfl
  · intro hread
    obtain ⟨w, hw, hall⟩ := hs.taken hread
    refine ⟨w, ?_, fun j c hc hj => ?_⟩
    · rcases hw with ⟨hw, hc⟩ | ⟨hw, hc⟩ | ⟨hw, hc⟩
      · exact Or.inl ⟨get_append_of_get hw, hc⟩
      · exact Or.inr (Or.inl ⟨get_append_of_get hw, hc⟩)
      · exact Or.inr (Or.inr ⟨get_append_of_get hw, hc⟩)
    · rcases get_append hc with hc | rfl
      · exact hall j c hc hj
      · rfl

/-- The winner's place is kept by a step of another invocation. -/
theorem Winner.of_set {w : Nat} {c d : PumpCall} (hw : Winner s w) (hc : s.calls[i]? = some c)
    (hi : i ≠ w) {t : State} (hcalls : t.calls = s.calls.set i d)
    (hcancel : t.cancelRx = s.cancelRx) : Winner t w := by
  have hget : t.calls[w]? = s.calls[w]? := by rw [hcalls, get_set hc d w, if_neg hi]
  unfold Winner
  rw [hget, hcancel]
  exact hw

theorem invariant_takeRead (hs : Invariant s) (hi : s.calls[i]? = some .spawned)
    (hlock : s.readLock = none) : Invariant (next s (.takeRead i)) := by
  have hfree : ∀ (j : Nat) (c : PumpCall), s.calls[j]? = some c → c.holdsRead = true → False := by
    intro j c hc hholds
    have hj := (hs.readLock j).mpr ⟨c, hc, hholds⟩
    rw [hlock] at hj
    cases hj
  constructor
  · intro j
    change some i = some j ↔ ∃ c, (s.calls.set i (.readTaken s.readHalf))[j]? = some c ∧ _
    by_cases hij : i = j
    · subst hij
      rw [exists_set_self hi]
      simp [PumpCall.holdsRead]
    · rw [exists_set hi hij]
      constructor
      · intro h
        exact absurd (Option.some.inj h) hij
      · rintro ⟨c, hc, hholds⟩
        exact (hfree j c hc hholds).elim
  · intro j
    change s.cancelLock = some j ↔ ∃ c, (s.calls.set i (.readTaken s.readHalf))[j]? = some c ∧ _
    rw [hs.cancelLock j]
    by_cases hij : i = j
    · subst hij
      rw [exists_set_self hi, hi]
      simp [PumpCall.holdsCancel]
    · rw [exists_set hi hij]
  · intro hread
    cases hread
  · intro _
    cases hread : s.readHalf with
    | true =>
      -- the read half was still there: this invocation is the one
      obtain ⟨hcancel, hall⟩ := hs.untouched hread
      refine ⟨i, Or.inl ⟨?_, hcancel⟩, fun j c hc hj => ?_⟩
      · change (s.calls.set i (.readTaken s.readHalf))[i]? = _
        rw [get_set hi, if_pos rfl, hread]
      · change (s.calls.set i (.readTaken s.readHalf))[j]? = some c at hc
        rw [get_set hi, if_neg (Ne.symm hj)] at hc
        rw [hall j c hc]
        rfl
    | false =>
      obtain ⟨w, hw, hall⟩ := hs.taken hread
      have hne : i ≠ w := by
        rintro rfl
        rcases hw with ⟨hw, -⟩ | ⟨hw, -⟩ | ⟨hw, -⟩ <;> rw [hi] at hw <;> cases hw
      refine ⟨w, hw.of_set hi hne rfl rfl, fun j c hc hj => ?_⟩
      change (s.calls.set i (.readTaken s.readHalf))[j]? = some c at hc
      rw [get_set hi] at hc
      split at hc
      · rw [hread] at hc
        obtain rfl := Option.some.inj hc
        rfl
      · exact hall j c hc hj

/-- An invocation that has passed the first lock: the read half is gone. -/
theorem Invariant.readHalf_gone (hs : Invariant s) {c : PumpCall} (hc : s.calls[i]? = some c)
    (hpassed : c ≠ .spawned) : s.readHalf = false := by
  by_contra hread
  exact hpassed ((hs.untouched (by simpa using hread)).2 i c hc)

theorem invariant_takeCancel (hs : Invariant s) {read : Bool}
    (hi : s.calls[i]? = some (.readTaken read)) (hlock : s.cancelLock = none) :
    Invariant (next s (.takeCancel i)) := by
  have hstep : next s (.takeCancel i) = { s with
      cancelRx := false, cancelLock := some i
      calls := s.calls.set i (.bothTaken read s.cancelRx) } := by
    simp only [next, hi]
  rw [hstep]
  have hread : s.readHalf = false := hs.readHalf_gone hi (by simp)
  constructor
  · intro j
    change s.readLock = some j ↔ ∃ c, (s.calls.set i (.bothTaken read s.cancelRx))[j]? = some c ∧ _
    rw [hs.readLock j]
    by_cases hij : i = j
    · subst hij
      rw [exists_set_self hi, hi]
      simp [PumpCall.holdsRead]
    · rw [exists_set hi hij]
  · intro j
    change some i = some j ↔ ∃ c, (s.calls.set i (.bothTaken read s.cancelRx))[j]? = some c ∧ _
    by_cases hij : i = j
    · subst hij
      rw [exists_set_self hi]
      simp [PumpCall.holdsCancel]
    · rw [exists_set hi hij, ← hs.cancelLock j, hlock]
      simp [hij]
  · intro h
    rw [hread] at h
    cases h
  · intro _
    obtain ⟨w, hw, hall⟩ := hs.taken hread
    by_cases hiw : i = w
    · subst hiw
      have hwon : read = true ∧ s.cancelRx = true := by
        rcases hw with ⟨hw, hcancel⟩ | ⟨hw, -⟩ | ⟨hw, -⟩ <;> rw [hi] at hw
        · simp only [Option.some.injEq, PumpCall.readTaken.injEq] at hw
          exact ⟨hw, hcancel⟩
        · cases hw
        · cases hw
      refine ⟨i, Or.inr (Or.inl ⟨?_, rfl⟩), fun j c hc hj => ?_⟩
      · change (s.calls.set i (.bothTaken read s.cancelRx))[i]? = _
        rw [get_set hi, if_pos rfl, hwon.1, hwon.2]
      · change (s.calls.set i (.bothTaken read s.cancelRx))[j]? = some c at hc
        rw [get_set hi, if_neg (Ne.symm hj)] at hc
        exact hall j c hc hj
    · -- the winner cannot still be between its two takes: this invocation holds the first lock
      have hcancel : s.cancelRx = false := by
        rcases hw with ⟨hw, -⟩ | ⟨-, hcancel⟩ | ⟨-, hcancel⟩
        · exact absurd (hs.holder hi hw rfl rfl) hiw
        · exact hcancel
        · exact hcancel
      have hnothing : read = false := by
        have hempty := hall i _ hi hiw
        cases read with
        | true => cases hempty
        | false => rfl
      refine ⟨w, hw.of_set hi hiw rfl hcancel.symm, fun j c hc hj => ?_⟩
      change (s.calls.set i (.bothTaken read s.cancelRx))[j]? = some c at hc
      rw [get_set hi] at hc
      split at hc
      · rw [hnothing, hcancel] at hc
        obtain rfl := Option.some.inj hc
        rfl
      · exact hall j c hc hj

theorem invariant_decide (hs : Invariant s) {read cancel : Bool}
    (hi : s.calls[i]? = some (.bothTaken read cancel)) : Invariant (next s (.decide i)) := by
  have hstep : next s (.decide i) = { s with
      readLock := none, cancelLock := none
      calls := s.calls.set i (if read && cancel then .pumping else .returned read cancel) } := by
    simp only [next, hi]
  rw [hstep]
  have hread : s.readHalf = false := hs.readHalf_gone hi (by simp)
  generalize hd : (if read && cancel then PumpCall.pumping else .returned read cancel) = d
  have hout : d.holdsRead = false ∧ d.holdsCancel = false := by
    rw [← hd]
    split <;> exact ⟨rfl, rfl⟩
  constructor
  · intro j
    change none = some j ↔ ∃ c, (s.calls.set i d)[j]? = some c ∧ _
    by_cases hij : i = j
    · subst hij
      rw [exists_set_self hi, hout.1]
      simp
    · rw [exists_set hi hij]
      constructor
      · intro h
        cases h
      · rintro ⟨c, hc, hholds⟩
        exact absurd (hs.holder hi hc rfl hholds) hij
  · intro j
    change none = some j ↔ ∃ c, (s.calls.set i d)[j]? = some c ∧ _
    by_cases hij : i = j
    · subst hij
      rw [exists_set_self hi, hout.2]
      simp
    · rw [exists_set hi hij]
      constructor
      · intro h
        cases h
      · rintro ⟨c, hc, hholds⟩
        have hj := (hs.cancelLock j).mpr ⟨c, hc, hholds⟩
        have hi' := (hs.cancelLock i).mpr ⟨_, hi, rfl⟩
        exact absurd (Option.some.inj (hi'.symm.trans hj)) hij
  · intro h
    rw [hread] at h
    cases h
  · intro _
    obtain ⟨w, hw, hall⟩ := hs.taken hread
    by_cases hiw : i = w
    · subst hiw
      have hwon : d = .pumping ∧ s.cancelRx = false := by
        rcases hw with ⟨hw, -⟩ | ⟨hw, hcancel⟩ | ⟨hw, -⟩ <;> rw [hi] at hw
        · cases hw
        · simp only [Option.some.injEq, PumpCall.bothTaken.injEq] at hw
          rw [hw.1, hw.2] at hd
          exact ⟨hd.symm, hcancel⟩
        · cases hw
      refine ⟨i, Or.inr (Or.inr ⟨?_, hwon.2⟩), fun j c hc hj => ?_⟩
      · change (s.calls.set i d)[i]? = _
        rw [get_set hi, if_pos rfl, hwon.1]
      · change (s.calls.set i d)[j]? = some c at hc
        rw [get_set hi, if_neg (Ne.symm hj)] at hc
        exact hall j c hc hj
    · have hnothing : d.empty = true := by
        have hempty := hall i _ hi hiw
        rw [← hd]
        cases read <;> cases cancel <;> first | rfl | cases hempty
      refine ⟨w, hw.of_set hi hiw rfl rfl, fun j c hc hj => ?_⟩
      change (s.calls.set i d)[j]? = some c at hc
      rw [get_set hi] at hc
      split at hc
      · exact Option.some.inj hc ▸ hnothing
      · exact hall j c hc hj

theorem invariant_next (hs : Invariant s) {e : Event} (he : Enabled s e) :
    Invariant (next s e) := by
  cases e with
  | call => exact invariant_call hs
  | takeRead i => exact invariant_takeRead hs he.1 he.2
  | takeCancel i =>
    obtain ⟨⟨read, hi⟩, hlock⟩ := he
    exact invariant_takeCancel hs hi hlock
  | decide i =>
    obtain ⟨read, cancel, hi⟩ := he
    exact invariant_decide hs hi

theorem invariant_reaches (h : system.Reaches Events.System.free initial s) : Invariant s :=
  system.invariant Invariant (fun _ _ hs _ he => invariant_next hs he) h invariant_initial

/-- An invocation that is not over waits for a lock whose holder can go on, or can go on itself. -/
theorem Invariant.progress (hs : Invariant s) {c : PumpCall} (hc : s.calls[i]? = some c)
    (hover : c.isOver = false) : ∃ e, e ≠ .call ∧ Enabled s e := by
  have hinside : ∀ {j : Nat} {d : PumpCall}, s.calls[j]? = some d → d.holdsRead = true →
      ∃ e, e ≠ .call ∧ Enabled s e := by
    intro j d hd hholds
    cases d with
    | readTaken read =>
      refine ⟨.takeCancel j, by simp, ⟨read, hd⟩, ?_⟩
      cases hlock : s.cancelLock with
      | none => rfl
      | some k =>
        obtain ⟨d', hd', hholds'⟩ := (hs.cancelLock k).mp hlock
        cases d' with
        | bothTaken r c =>
          obtain rfl := hs.holder hd hd' rfl rfl
          rw [hd] at hd'
          cases hd'
        | _ => cases hholds'
    | bothTaken read cancel => exact ⟨.decide j, by simp, read, cancel, hd⟩
    | _ => cases hholds
  cases hlock : s.readLock with
  | some k =>
    obtain ⟨d, hd, hholds⟩ := (hs.readLock k).mp hlock
    exact hinside hd hholds
  | none =>
    cases c with
    | spawned => exact ⟨.takeRead i, by simp, hc, hlock⟩
    | readTaken read => exact hinside hc rfl
    | bothTaken read cancel => exact hinside hc rfl
    | _ => cases hover

/-- At most one invocation is in the read loop and a returned one has taken nothing; as long as
some invocation is not over another step is possible; and when there are invocations and all are
over, exactly one is in the read loop and the others have returned with nothing. -/
theorem one_read_pump (h : system.Reaches Events.System.free initial s) :
    (∀ i j : Nat, s.calls[i]? = some .pumping → s.calls[j]? = some .pumping → i = j) ∧
    (∀ (i : Nat) (r c : Bool), s.calls[i]? = some (.returned r c) → r = false ∧ c = false) ∧
    ((∃ c ∈ s.calls, c.isOver = false) → ∃ e, e ≠ .call ∧ Enabled s e) ∧
    (s.calls ≠ [] → (∀ c ∈ s.calls, c.isOver = true) →
      ∃ w, s.calls[w]? = some .pumping ∧ ∀ (i : Nat) (c : PumpCall), s.calls[i]? = some c →
        i ≠ w → c = .returned false false) := by
  have hs := invariant_reaches h
  have hnothing : ∀ (c : PumpCall), c.isOver = true → c.empty = true → c = .returned false false := by
    intro c hover hempty
    cases c with
    | returned r c => cases r <;> cases c <;> first | rfl | cases hempty
    | pumping => cases hempty
    | _ => cases hover
  refine ⟨?_, ?_, ?_, ?_⟩
  · intro i j hi hj
    have hread : s.readHalf = false := hs.readHalf_gone hi (by simp)
    obtain ⟨w, -, hall⟩ := hs.taken hread
    have heq : ∀ {k : Nat}, s.calls[k]? = some .pumping → k = w := by
      intro k hk
      by_contra hkw
      have hempty := hall k _ hk hkw
      cases hempty
    rw [heq hi, heq hj]
  · intro i r c hi
    have hread : s.readHalf = false := hs.readHalf_gone hi (by simp)
    obtain ⟨w, hw, hall⟩ := hs.taken hread
    have hiw : i ≠ w := by
      rintro rfl
      rcases hw with ⟨hw, -⟩ | ⟨hw, -⟩ | ⟨hw, -⟩ <;> rw [hi] at hw <;> cases hw
    have hreturned := hnothing _ rfl (hall i _ hi hiw)
    simpa using hreturned
  · rintro ⟨c, hmem, hover⟩
    obtain ⟨i, hi⟩ := List.mem_iff_getElem?.mp hmem
    exact hs.progress hi hover
  · intro hne hover
    obtain ⟨c, rest, hcons⟩ := List.exists_cons_of_ne_nil hne
    have hfirst : s.calls[0]? = some c := by rw [hcons]; rfl
    have hread : s.readHalf = false := by
      refine hs.readHalf_gone hfirst ?_
      rintro rfl
      cases hover _ (List.mem_of_getElem? hfirst)
    obtain ⟨w, hw, hall⟩ := hs.taken hread
    refine ⟨w, ?_, fun i c hi hiw => hnothing c (hover c (List.mem_of_getElem? hi)) (hall i c hi hiw)⟩
    rcases hw with ⟨hw, -⟩ | ⟨hw, -⟩ | ⟨hw, -⟩
    · cases hover _ (List.mem_of_getElem? hw)
    · cases hover _ (List.mem_of_getElem? hw)
    · exact hw

/-- Two invocations, the second queued behind the first. -/
theorem one_read_pump_twice :
    let s := system.follow initial [.call, .call, .takeRead 1, .takeCancel 1, .decide 1,
      .takeRead 0, .takeCancel 0, .decide 0]
    ∃ w, s.calls[w]? = some .pumping ∧ ∀ (i : Nat) (c : PumpCall), s.calls[i]? = some c →
      i ≠ w → c = .returned false false := by
  have hadmits : system.Admits Events.System.free initial [.call, .call, .takeRead 1,
      .takeCancel 1, .decide 1, .takeRead 0, .takeCancel 0, .decide 0] :=
    ⟨trivial, trivial, trivial, trivial, trivial, ⟨rfl, rfl⟩, trivial, ⟨⟨true, rfl⟩, rfl⟩, trivial,
      ⟨true, true, rfl⟩, trivial, ⟨rfl, rfl⟩, trivial, ⟨⟨false, rfl⟩, rfl⟩, trivial,
      ⟨false, false, rfl⟩, trivial⟩
  exact (one_read_pump (Events.System.reaches_follow hadmits)).2.2.2 (by decide) (by decide)

end PumpStart
