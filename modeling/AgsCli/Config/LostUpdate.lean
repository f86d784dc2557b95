import AgsCli.Config.Writers

/-! # Config updates of concurrent writers

What every state of a run keeps: the lock holder's document belongs to the file it replaces, and a
reader finds whole documents. While default snapshots only replace files without fields, a field
holds what its last writer in lock order left there. -/
namespace LostUpdate

open OrderedMap Json ConfigKeys ConfigStore ConfigRoundTrip FieldWrites ConfigWriters

section Definitions

def current (s : State) (f : FileId) : Option Value :=
  (s.files f).bind fun
    | .whole document => some document
    | .torn => none

def lastWrite (log : List Entry) (name : String) : Option (Option Held) :=
  log.reverse.findSome? fun e => Entries.lookup name e.writes

/-- Every field holds what its last writer in lock order left there, and else what it held. -/
def LastWriterHolds (files : FileId → Option Value) (s : State) : Prop :=
  ∀ f name, held (fieldsOf f) (current s f) name =
    (lastWrite (s.log f) name).getD (held (fieldsOf f) (files f) name)

def own (s : State) (p : Nat) (f : FileId) : List Entry := (s.log f).filter fun e => e.pid = p

def Fresh (s : State) (p : Nat) : Prop := ∀ f, own s p f = []

/-- The process wrote once, to the file of its command, what the command is to write. -/
def Recorded (s : State) (p : Nat) (c : Command) : Prop :=
  (∃ writes, c.Records writes ∧ own s p c.target = [⟨p, writes⟩]) ∧
    ∀ f, f ≠ c.target → own s p f = []

end Definitions

section Invariants

/-- A document that a started writer makes of what the file held. -/
def WrittenBy (s : State) (f : FileId) (document : Value) : Prop :=
  ∃ p c job before writes, (s.phase p).command = some c ∧ c.target = f ∧
    (job = .saveDefault ∨ job = c.job) ∧
      job.run (fieldsOf f) (textOf (fieldsOf f) before) = some (document, writes)

/-- A reader finds a complete document: the one that was there, or one a writer produced. -/
def CompleteReads (files : FileId → Option Value) (s : State) : Prop :=
  ∀ f content, s.files f = some content → ∃ document, content = .whole document ∧
    (files f = some document ∨ WrittenBy s f document)

def Plan (c : Command) (jobs : List Job) : Prop := jobs = [c.job] ∨ jobs = [.saveDefault, c.job]

/-- What holds of a process in a phase. -/
def PhaseOk (s : State) (p : Nat) : Phase → Prop
  | .idle | .checking _ | .creating _ | .failed _ => Fresh s p
  | .locking c jobs | .acquiring c jobs => Plan c jobs ∧ Fresh s p
  | .loading c job rest => Plan c (job :: rest) ∧ Fresh s p ∧ s.locks c.target = some p
  | .saving c job rest document writes temp => Plan c (job :: rest) ∧ Fresh s p ∧
      s.locks c.target = some p ∧
      job.run (fieldsOf c.target) (textOf (fieldsOf c.target) (current s c.target)) =
        some (document, writes) ∧
      ∀ written, temp = some (.whole written) → written = document
  | .releasing c rest => s.locks c.target = some p ∧
      ((rest = [] ∧ Recorded s p c) ∨ (rest = [c.job] ∧ Fresh s p))
  | .failing c => s.locks c.target = some p ∧ Fresh s p
  | .done c => Recorded s p c

structure Sound (files : FileId → Option Value) (s : State) : Prop where
  phases : ∀ p, PhaseOk s p (s.phase p)
  objects : ∀ f, Documented (current s f)
  reads : CompleteReads files s

variable {files : FileId → Option Value} {s t : State} {p q : Nat} {phase : Phase}

theorem lock_of_holds (h : PhaseOk s p phase) {f : FileId} (hf : phase.holds = some f) :
    s.locks f = some p := by
  cases phase with
  | idle | checking | creating | locking | acquiring | done | failed => cases hf
  | loading c job rest =>
    obtain rfl := Option.some.inj hf
    exact h.2.2
  | saving c job rest document writes temp =>
    obtain rfl := Option.some.inj hf
    exact h.2.2.1
  | releasing c rest =>
    obtain rfl := Option.some.inj hf
    exact h.1
  | failing c =>
    obtain rfl := Option.some.inj hf
    exact h.1

theorem Recorded.congr {c : Command} (hown : ∀ f, own t p f = own s p f) (h : Recorded s p c) :
    Recorded t p c := by
  obtain ⟨⟨writes, hrecords, hlog⟩, hothers⟩ := h
  exact ⟨⟨writes, hrecords, (hown _).trans hlog⟩, fun f hf => (hown f).trans (hothers f hf)⟩

/-- A phase depends on the process's entries, and on the lock and content of a held file. -/
theorem phaseOk_congr (hown : ∀ f, own t p f = own s p f)
    (hheld : ∀ f, phase.holds = some f → t.locks f = s.locks f ∧ t.files f = s.files f)
    (h : PhaseOk s p phase) : PhaseOk t p phase := by
  have hfresh : Fresh s p → Fresh t p := fun h f => (hown f).trans (h f)
  cases phase with
  | idle | checking | creating | failed => exact hfresh h
  | locking c jobs | acquiring c jobs => exact ⟨h.1, hfresh h.2⟩
  | done c => exact Recorded.congr hown h
  | loading c job rest =>
    have hlock := (hheld _ rfl).1
    exact ⟨h.1, hfresh h.2.1, hlock.trans h.2.2⟩
  | saving c job rest document writes temp =>
    obtain ⟨hplan, hf, hlock, hrun, htemp⟩ := h
    have hcurrent : current t c.target = current s c.target := by
      rw [current, current, (hheld _ rfl).2]
    exact ⟨hplan, hfresh hf, (hheld _ rfl).1.trans hlock, by rw [hcurrent, hrun], htemp⟩
  | releasing c rest =>
    refine ⟨(hheld _ rfl).1.trans h.1, ?_⟩
    rcases h.2 with ⟨hrest, hrecorded⟩ | ⟨hrest, hf⟩
    · exact Or.inl ⟨hrest, hrecorded.congr hown⟩
    · exact Or.inr ⟨hrest, hfresh hf⟩
  | failing c => exact ⟨(hheld _ rfl).1.trans h.1, hfresh h.2⟩

theorem WrittenBy.mono {f : FileId} {document : Value}
    (hcommand : ∀ p c, (s.phase p).command = some c → (t.phase p).command = some c)
    (h : WrittenBy s f document) : WrittenBy t f document := by
  obtain ⟨p, c, job, before, writes, hc, hrest⟩ := h
  exact ⟨p, c, job, before, writes, hcommand p c hc, hrest⟩

theorem command_update (hphase : t.phase = Function.update s.phase p phase)
    (hcommand : ∀ c, (s.phase p).command = some c → phase.command = some c) (r : Nat) (c : Command)
    (h : (s.phase r).command = some c) : (t.phase r).command = some c := by
  rw [hphase]
  by_cases hr : r = p
  · rw [hr, Function.update_self]
    exact hcommand c (hr ▸ h)
  · rw [Function.update_of_ne hr]
    exact h

/-- A step of one process keeps what holds when it leaves the others their entries and the files
they hold, and what it writes is a document of its own. -/
theorem Sound.update (hs : Sound files s) (hphase : t.phase = Function.update s.phase p phase)
    (hcommand : ∀ c, (s.phase p).command = some c → phase.command = some c)
    (hown : ∀ q, q ≠ p → ∀ f, own t q f = own s q f)
    (hheld : ∀ q, q ≠ p → ∀ f, s.locks f = some q →
      t.locks f = s.locks f ∧ t.files f = s.files f)
    (hok : PhaseOk t p phase)
    (hfiles : ∀ f content, t.files f = some content → s.files f = some content ∨
      ∃ document, content = .whole document ∧ (∃ members, document = .object members) ∧
        WrittenBy t f document) : Sound files t where
  phases q := by
    by_cases hq : q = p
    · rw [hphase, hq, Function.update_self]
      exact hok
    · rw [hphase, Function.update_of_ne hq]
      have hphaseOk := hs.phases q
      exact phaseOk_congr (hown q hq)
        (fun f hf => hheld q hq f (lock_of_holds hphaseOk hf)) hphaseOk
  objects f := by
    intro v hv
    obtain ⟨content, hcontent, hwhole⟩ := Option.bind_eq_some_iff.mp hv
    rcases hfiles f content hcontent with hsame | ⟨document, rfl, hobject, -⟩
    · exact hs.objects f v (Option.bind_eq_some_iff.mpr ⟨content, hsame, hwhole⟩)
    · rw [← Option.some.inj hwhole]
      exact hobject
  reads f content hcontent := by
    rcases hfiles f content hcontent with hsame | ⟨document, rfl, -, hwritten⟩
    · obtain ⟨document, rfl, hfrom⟩ := hs.reads f content hsame
      exact ⟨document, rfl, hfrom.imp_right (.mono (command_update hphase hcommand))⟩
    · exact ⟨document, rfl, Or.inr hwritten⟩

/-- A step that only moves a process on, or makes a directory. -/
theorem Sound.quiet (hs : Sound files s) (dirs : String → Bool)
    (hcommand : ∀ c, (s.phase p).command = some c → phase.command = some c)
    (hok : PhaseOk s p phase) : Sound files { s.move p phase with dirs := dirs } :=
  hs.update rfl hcommand (fun _ _ _ => rfl) (fun _ _ _ _ => ⟨rfl, rfl⟩)
    (phaseOk_congr (fun _ => rfl) (fun _ _ => ⟨rfl, rfl⟩) hok) fun _ _ h => Or.inl h

end Invariants

section Steps

variable {files : FileId → Option Value} {s : State} {p : Nat}

theorem readText_current (hs : Sound files s) (f : FileId) :
    readText f (s.files f) = textOf (fieldsOf f) (current s f) := by
  rw [current]
  cases hcontent : s.files f with
  | none => rfl
  | some content =>
    obtain ⟨document, rfl, -⟩ := hs.reads f content hcontent
    rfl

theorem sound_start {c : Command} (hs : Sound files s) (hphase : s.phase p = .idle) :
    Sound files (s.move p c.entry) := by
  have hp := hs.phases p
  rw [hphase] at hp
  refine hs.quiet s.dirs (fun c' hc' => by rw [hphase] at hc'; cases hc') ?_
  rw [Command.entry]
  cases c.checked with
  | some name => exact hp
  | none => exact ⟨Or.inl rfl, hp⟩

theorem command_same {phase : Phase} {c : Command} (hphase : (s.phase p).command = some c)
    (hc : phase.command = some c) (c' : Command) (h : (s.phase p).command = some c') :
    phase.command = some c' := by
  rw [hc, ← hphase, h]

theorem sound_isDir {c : Command} (hs : Sound files s) (hphase : s.phase p = .checking c)
    (exists' : Bool) : Sound files (s.move p (c.afterCheck exists')) := by
  have hp := hs.phases p
  rw [hphase] at hp
  have hcommand : (c.afterCheck exists').command = some c := by
    rw [Command.afterCheck]
    split_ifs
    · rfl
    · rfl
    · rfl
  refine hs.quiet s.dirs (command_same (by rw [hphase]; rfl) hcommand) ?_
  rw [Command.afterCheck]
  split_ifs
  · exact ⟨Or.inl rfl, hp⟩
  · exact hp
  · exact hp

theorem sound_load {c : Command} {job : Job} {rest : List Job} (hs : Sound files s)
    (hphase : s.phase p = .loading c job rest) :
    Sound files (s.move p (afterLoad c job rest (s.files c.target))) := by
  have hp := hs.phases p
  rw [hphase] at hp
  obtain ⟨hplan, hfresh, hlock⟩ := hp
  have hcommand : (s.phase p).command = some c := by rw [hphase]; rfl
  rw [afterLoad, readText_current hs]
  split
  · next document writes hrun =>
    exact hs.quiet s.dirs (command_same hcommand rfl)
      ⟨hplan, hfresh, hlock, hrun, nofun⟩
  · exact hs.quiet s.dirs (command_same hcommand rfl) ⟨hlock, hfresh⟩

theorem target_ne {c : Command} {q : Nat} (hq : q ≠ p)
    (hlock : s.locks c.target = some p ∨ s.locks c.target = none) {f : FileId}
    (hf : s.locks f = some q) : f ≠ c.target := by
  rintro rfl
  rcases hlock with hlock | hlock
  · exact hq (Option.some.inj (hf.symm.trans hlock))
  · exact nomatch hf.symm.trans hlock

theorem sound_acquire {c : Command} {job : Job} {rest : List Job} (hs : Sound files s)
    (hphase : s.phase p = .acquiring c (job :: rest)) (hfree : s.locks c.target = none) :
    Sound files { s.move p (.loading c job rest) with
      locks := Function.update s.locks c.target (some p) } := by
  have hp := hs.phases p
  rw [hphase] at hp
  refine hs.update rfl (command_same (by rw [hphase]; rfl) rfl) (fun _ _ _ => rfl) ?_
    ⟨hp.1, hp.2, Function.update_self ..⟩ fun _ _ h => Or.inl h
  intro q hq f hf
  exact ⟨Function.update_of_ne (target_ne hq (Or.inr hfree) hf) .., rfl⟩

/-- The lock of a held file is given up, and the process moves on. -/
theorem sound_release {c : Command} {phase : Phase} (hs : Sound files s)
    (hcommand : (s.phase p).command = some c) (hc : phase.command = some c)
    (hlock : s.locks c.target = some p) (hnone : phase.holds = none) (hok : PhaseOk s p phase) :
    Sound files { s.move p phase with locks := Function.update s.locks c.target none } := by
  refine hs.update rfl (command_same hcommand hc) (fun _ _ _ => rfl) ?_
    (phaseOk_congr (s := s) (fun _ => rfl) (fun f hf => nomatch hnone.symm.trans hf) hok)
    fun _ _ h => Or.inl h
  intro q hq f hf
  exact ⟨Function.update_of_ne (target_ne hq (Or.inl hlock) hf) .., rfl⟩

theorem sound_afterRelease {c : Command} {rest : List Job} (hs : Sound files s)
    (hphase : s.phase p = .releasing c rest) :
    Sound files { s.move p (afterRelease c rest) with
      locks := Function.update s.locks c.target none } := by
  have hp := hs.phases p
  rw [hphase] at hp
  have hcommand : (s.phase p).command = some c := by rw [hphase]; rfl
  rcases hp.2 with ⟨rfl, hrecorded⟩ | ⟨rfl, hfresh⟩
  · exact sound_release hs hcommand rfl hp.1 rfl hrecorded
  · exact sound_release hs hcommand rfl hp.1 rfl ⟨Or.inl rfl, hfresh⟩

theorem sound_failing {c : Command} (hs : Sound files s) (hphase : s.phase p = .failing c) :
    Sound files { s.move p (.failed c) with
      locks := Function.update s.locks c.target none } := by
  have hp := hs.phases p
  rw [hphase] at hp
  exact sound_release hs (by rw [hphase]; rfl) rfl hp.1 rfl hp.2

/-- The state after a document was renamed over the file of a command. -/
def persisted (s : State) (p : Nat) (c : Command) (job : Job) (rest : List Job) (writes : Writes)
    (document : Value) : State :=
  { s.move p (.releasing c rest) with
    files := Function.update s.files c.target (some (.whole document))
    log := if job.isDefault then s.log
      else Function.update s.log c.target (s.log c.target ++ [⟨p, writes⟩]) }

theorem log_persisted {c : Command} {job : Job} {rest : List Job} {writes : Writes}
    {document : Value} (f : FileId) : (persisted s p c job rest writes document).log f =
      if job.isDefault = false ∧ f = c.target then s.log f ++ [⟨p, writes⟩] else s.log f := by
  by_cases hdefault : job.isDefault = true
  · have hlog : (persisted s p c job rest writes document).log = s.log := if_pos hdefault
    rw [hlog, if_neg fun h => by rw [hdefault] at h; exact nomatch h.1]
  · have hlog : (persisted s p c job rest writes document).log =
        Function.update s.log c.target (s.log c.target ++ [⟨p, writes⟩]) := if_neg hdefault
    rw [hlog]
    by_cases hf : f = c.target
    · rw [if_pos ⟨Bool.not_eq_true _ ▸ hdefault, hf⟩, hf, Function.update_self]
    · rw [if_neg fun h => hf h.2, Function.update_of_ne hf]

theorem files_persisted {c : Command} {job : Job} {rest : List Job} {writes : Writes}
    {document : Value} (f : FileId) : (persisted s p c job rest writes document).files f =
      if f = c.target then some (.whole document) else s.files f := by
  rw [show (persisted s p c job rest writes document).files =
    Function.update s.files c.target (some (.whole document)) from rfl, Function.update_apply]

theorem own_persisted {c : Command} {job : Job} {rest : List Job} {writes : Writes}
    {document : Value} (q : Nat) (f : FileId) :
    own (persisted s p c job rest writes document) q f =
      if (job.isDefault = false ∧ f = c.target) ∧ p = q then own s q f ++ [⟨p, writes⟩]
      else own s q f := by
  rw [own, log_persisted]
  by_cases hlog : job.isDefault = false ∧ f = c.target
  · rw [if_pos hlog, List.filter_append]
    by_cases hpq : p = q
    · rw [if_pos ⟨hlog, hpq⟩, List.filter_singleton, decide_eq_true hpq]
      rfl
    · rw [if_neg fun h => hpq h.2, List.filter_singleton, decide_eq_false hpq]
      exact List.append_nil _
  · rw [if_neg hlog, if_neg fun h => hlog h.1]
    rfl

theorem job_cases {c : Command} {job : Job} {rest : List Job} (h : Plan c (job :: rest)) :
    (job = c.job ∧ rest = []) ∨ (job = .saveDefault ∧ rest = [c.job]) := by
  rcases h with h | h
  · exact Or.inl (List.cons.inj h)
  · exact Or.inr (List.cons.inj h)

theorem sound_persist {c : Command} {job : Job} {rest : List Job} {document written : Value}
    {writes : Writes} (hs : Sound files s)
    (hphase : s.phase p = .saving c job rest document writes (some (.whole written))) :
    Sound files (persisted s p c job rest writes written) := by
  have hp := hs.phases p
  rw [hphase] at hp
  obtain ⟨hplan, hfresh, hlock, hrun, htemp⟩ := hp
  obtain rfl := htemp written rfl
  have hcommand : (s.phase p).command = some c := by rw [hphase]; rfl
  have hfits : job.Fits (fieldsOf c.target) := by
    rcases job_cases hplan with ⟨rfl, -⟩ | ⟨rfl, -⟩
    · exact c.job_fits
    · trivial
  refine hs.update (p := p) rfl (command_same hcommand rfl) ?_ ?_ ⟨hlock, ?_⟩ ?_
  · intro q hq f
    rw [own_persisted, if_neg fun h => hq h.2.symm]
  · intro q hq f hf
    exact ⟨rfl, Function.update_of_ne (target_ne hq (Or.inl hlock) hf) ..⟩
  · rcases job_cases hplan with ⟨rfl, rfl⟩ | ⟨rfl, rfl⟩
    · refine Or.inl ⟨rfl, ⟨writes, Command.records_of_run hrun, ?_⟩, fun f hf => ?_⟩
      · rw [own_persisted, if_pos ⟨⟨c.job_not_default, rfl⟩, rfl⟩, hfresh]
        rfl
      · rw [own_persisted, if_neg fun h => hf h.1.2]
        exact hfresh f
    · refine Or.inr ⟨rfl, fun f => ?_⟩
      rw [own_persisted, if_neg fun h => nomatch h.1.1]
      exact hfresh f
  · intro f content hcontent
    rw [files_persisted] at hcontent
    by_cases hf : f = c.target
    · rw [if_pos hf] at hcontent
      subst hf
      have hstarted : ((persisted s p c job rest writes written).phase p).command = some c := by
        rw [show (persisted s p c job rest writes written).phase =
          Function.update s.phase p (.releasing c rest) from rfl, Function.update_self]
        rfl
      exact Or.inr ⟨written, (Option.some.inj hcontent).symm,
        run_object (fieldsOf_nodup _) (hs.objects _) hfits hrun,
        p, c, job, current s c.target, writes, hstarted, rfl,
        (job_cases hplan).symm.imp And.left And.left, hrun⟩
    · rw [if_neg hf] at hcontent
      exact Or.inl hcontent

end Steps

section Runs

variable {files : FileId → Option Value} {s : State}

theorem sound_next {e : Event} (hs : Sound files s) (he : Enabled s e) :
    Sound files (next s e) := by
  cases e with
  | start p c => exact sound_start hs he
  | isDir p =>
    obtain ⟨c, name, hphase, -⟩ := he
    simp only [next, hphase]
    exact sound_isDir hs hphase _
  | createDir p =>
    obtain ⟨c, hphase⟩ := he
    have hp := hs.phases p
    rw [hphase] at hp
    simp only [next, hphase]
    exact hs.quiet _ (command_same (by rw [hphase]; rfl) rfl) ⟨Or.inr rfl, hp⟩
  | createParent p =>
    obtain ⟨c, jobs, hphase⟩ := he
    have hp := hs.phases p
    rw [hphase] at hp
    simp only [next, hphase]
    exact hs.quiet _ (command_same (by rw [hphase]; rfl) rfl) hp
  | acquire p =>
    obtain ⟨c, job, rest, hphase, hfree⟩ := he
    simp only [next, hphase]
    exact sound_acquire hs hphase hfree
  | load p =>
    obtain ⟨c, job, rest, hphase⟩ := he
    simp only [next, hphase]
    exact sound_load hs hphase
  | createTemp p =>
    obtain ⟨c, job, rest, document, writes, hphase⟩ := he
    have hp := hs.phases p
    rw [hphase] at hp
    obtain ⟨hplan, hfresh, hlock, hrun, -⟩ := hp
    simp only [next, hphase]
    exact hs.quiet s.dirs (command_same (by rw [hphase]; rfl) rfl)
      ⟨hplan, hfresh, hlock, hrun, nofun⟩
  | writeTemp p =>
    obtain ⟨c, job, rest, document, writes, hphase⟩ := he
    have hp := hs.phases p
    rw [hphase] at hp
    obtain ⟨hplan, hfresh, hlock, hrun, -⟩ := hp
    simp only [next, hphase]
    refine hs.quiet s.dirs (command_same (by rw [hphase]; rfl) rfl)
      ⟨hplan, hfresh, hlock, hrun, fun written h => ?_⟩
    exact (Content.whole.inj (Option.some.inj h)).symm
  | persist p =>
    obtain ⟨c, job, rest, document, writes, written, hphase⟩ := he
    have hsound := sound_persist hs hphase
    simp only [next, hphase]
    exact hsound
  | release p =>
    rcases he with ⟨c, rest, hphase⟩ | ⟨c, hphase⟩
    · simp only [next, hphase]
      exact sound_afterRelease hs hphase
    · simp only [next, hphase]
      exact sound_failing hs hphase
  | fail p =>
    obtain ⟨c, hfail⟩ := he
    have hp := hs.phases p
    rcases hfail with hphase | hphase | ⟨jobs, hphase | hphase⟩ | ⟨job, rest, hphase⟩ |
      ⟨job, rest, document, writes, temp, hphase⟩
    · rw [hphase] at hp
      simp only [next, hphase]
      exact hs.quiet s.dirs (command_same (by rw [hphase]; rfl) rfl) hp
    · rw [hphase] at hp
      simp only [next, hphase]
      exact hs.quiet s.dirs (command_same (by rw [hphase]; rfl) rfl) hp
    · rw [hphase] at hp
      simp only [next, hphase]
      exact hs.quiet s.dirs (command_same (by rw [hphase]; rfl) rfl) hp.2
    · rw [hphase] at hp
      simp only [next, hphase]
      exact hs.quiet s.dirs (command_same (by rw [hphase]; rfl) rfl) hp.2
    · rw [hphase] at hp
      simp only [next, hphase]
      exact hs.quiet s.dirs (command_same (by rw [hphase]; rfl) rfl) ⟨hp.2.2, hp.2.1⟩
    · rw [hphase] at hp
      simp only [next, hphase]
      exact hs.quiet s.dirs (command_same (by rw [hphase]; rfl) rfl)
        ⟨hp.2.2.1, hp.2.1⟩

theorem current_initial (dirs : String → Bool) (f : FileId) :
    current (initial dirs files) f = files f := by
  change ((files f).map Content.whole).bind _ = files f
  cases files f with
  | none => rfl
  | some document => rfl

theorem sound_initial (dirs : String → Bool) (hdoc : ∀ f, Documented (files f)) :
    Sound files (initial dirs files) where
  phases p f := rfl
  objects f := by
    rw [current_initial]
    exact hdoc f
  reads f content hcontent := by
    obtain ⟨document, hdocument, rfl⟩ := Option.map_eq_some_iff.mp hcontent
    exact ⟨document, rfl, Or.inl hdocument⟩

theorem sound_run {allowed : State → Event → Prop} {dirs : String → Bool}
    (hdoc : ∀ f, Documented (files f))
    (h : system.Reaches allowed (initial dirs files) s) : Sound files s :=
  system.invariant (Sound files) (fun _ _ hs _ he => sound_next hs he) h (sound_initial dirs hdoc)

theorem lastWrite_append (log : List Entry) (e : Entry) (name : String) :
    lastWrite (log ++ [e]) name = (Entries.lookup name e.writes).or (lastWrite log name) := by
  rw [lastWrite, List.reverse_append, List.reverse_singleton, List.singleton_append,
    List.findSome?_cons, ← lastWrite]
  cases Entries.lookup name e.writes with
  | none => rfl
  | some w => rfl

/-- A writer leaves what it wrote in its fields, and in the others what was held. -/
theorem lastWriterHolds_persist {c : Command} {job : Job} {rest : List Job} {p : Nat}
    {document written : Value} {writes : Writes} (hs : Sound files s)
    (hlast : LastWriterHolds files s)
    (hphase : s.phase p = .saving c job rest document writes (some (.whole written)))
    (hdefault : job.isDefault = true → ∀ name, ∀ v, s.files c.target = some (.whole v) →
      heldIn (fieldsOf c.target) v name = none) :
    LastWriterHolds files (persisted s p c job rest writes written) := by
  have hp := hs.phases p
  rw [hphase] at hp
  obtain ⟨hplan, -, -, hrun, htemp⟩ := hp
  obtain rfl := htemp written rfl
  have hfits : job.Fits (fieldsOf c.target) := by
    rcases job_cases hplan with ⟨rfl, -⟩ | ⟨rfl, -⟩
    · exact c.job_fits
    · trivial
  have hempty : job.isDefault = true →
      ∀ name, held (fieldsOf c.target) (current s c.target) name = none := by
    intro h name
    rw [held, current]
    cases hcontent : s.files c.target with
    | none => rfl
    | some content =>
      cases content with
      | whole v => exact hdefault h name v hcontent
      | torn => rfl
  have hwrites := run_writes (fieldsOf_nodup _) (hs.objects _) hfits hrun hempty
  intro f name
  by_cases hf : f = c.target
  · subst hf
    have hcurrent : current (persisted s p c job rest writes written) c.target = some written := by
      rw [current, files_persisted, if_pos rfl]
      rfl
    rw [hcurrent, held, Option.bind_some, hwrites, overwrite, hlast, log_persisted]
    by_cases hjob : job.isDefault = false
    · rw [if_pos ⟨hjob, rfl⟩, lastWrite_append]
      cases Entries.lookup name writes with
      | none => rfl
      | some w => rfl
    · rw [if_neg fun h => hjob h.1]
      rcases job_cases hplan with ⟨rfl, -⟩ | ⟨rfl, -⟩
      · exact absurd c.job_not_default hjob
      · obtain ⟨-, rfl, -⟩ := run_saveDefault (fieldsOf_nodup _) hrun
        rfl
  · have hcurrent : current (persisted s p c job rest writes written) f = current s f := by
      rw [current, files_persisted, if_neg hf]
      rfl
    rw [hcurrent, log_persisted, if_neg fun h => hf h.2]
    exact hlast f name

theorem lastWriterHolds_next {e : Event} (hs : Sound files s) (hlast : LastWriterHolds files s)
    (hallowed : HarmlessDefault s e) (he : Enabled s e) : LastWriterHolds files (next s e) := by
  have hsame : ∀ t : State, t.files = s.files → t.log = s.log → LastWriterHolds files t := by
    intro t hfiles hlog f name
    rw [current, hfiles, hlog]
    exact hlast f name
  cases e with
  | persist p =>
    obtain ⟨c, job, rest, document, writes, written, hphase⟩ := he
    have hkept := lastWriterHolds_persist hs hlast hphase (hallowed c job rest _ _ _ hphase)
    simp only [next, hphase]
    exact hkept
  | start p c => exact hlast
  | isDir | createDir | createParent | load | createTemp | writeTemp | release | fail | acquire =>
    refine hsame _ ?_ ?_
    · rw [next]
      split <;> rfl
    · rw [next]
      split <;> rfl

/-- Where default snapshots only replace files without fields, every field holds what its last
writer in lock order left there, every writer that returned wrote its fields once, writers of a
file exclude each other, and readers find whole documents. -/
theorem no_lost_update {dirs : String → Bool} (hdoc : ∀ f, Documented (files f))
    (h : system.Reaches HarmlessDefault (initial dirs files) s) :
    LastWriterHolds files s ∧ (∀ p c, s.phase p = .done c → Recorded s p c) ∧
      (∀ p f, (s.phase p).holds = some f → s.locks f = some p) ∧ CompleteReads files s := by
  have hrun : Sound files s ∧ LastWriterHolds files s := by
    refine system.invariant (fun s => Sound files s ∧ LastWriterHolds files s) ?_ h ?_
    · intro u e hu hallowed he
      exact ⟨sound_next hu.1 he, lastWriterHolds_next hu.1 hu.2 hallowed he⟩
    · refine ⟨sound_initial dirs hdoc, fun f name => ?_⟩
      rw [current_initial]
      rfl
  obtain ⟨hsound, hlast⟩ := hrun
  refine ⟨hlast, fun p c hdone => ?_, fun p f hf => lock_of_holds (hsound.phases p) hf,
    hsound.reads⟩
  have hp := hsound.phases p
  rw [hdone] at hp
  exact hp

/-- In every run a reader finds a whole document, the first one or one a writer made. -/
theorem reads_complete {allowed : State → Event → Prop} {dirs : String → Bool}
    (hdoc : ∀ f, Documented (files f)) (h : system.Reaches allowed (initial dirs files) s) :
    CompleteReads files s := (sound_run hdoc h).reads

end Runs

section FirstUses

def lockedWrite (p : Nat) : List Event :=
  [.createParent p, .acquire p, .load p, .createTemp p, .writeTemp p, .persist p, .release p]

theorem lockedWrite_admitted {allowed : State → Event → Prop}
    (hother : ∀ t e, (∀ q, e ≠ .persist q) → allowed t e) {s : State} {p : Nat} {c : Command}
    {job : Job} {rest : List Job} {document : Value} {writes : Writes}
    (hphase : s.phase p = .locking c (job :: rest)) (hlock : s.locks c.target = none)
    (hrun : job.run (fieldsOf c.target) (readText c.target (s.files c.target)) =
      some (document, writes))
    (hpersist : ∀ t, t.files = s.files →
      t.phase p = .saving c job rest document writes (some (.whole document)) →
        allowed t (.persist p)) : system.Admits allowed s (lockedWrite p) := by
  refine ⟨hother _ _ nofun, ⟨c, job :: rest, hphase⟩, hother _ _ nofun, ⟨c, job, rest, ?_, ?_⟩,
    hother _ _ nofun, ⟨c, job, rest, ?_⟩, hother _ _ nofun, ⟨c, job, rest, document, writes, ?_⟩,
    hother _ _ nofun, ⟨c, job, rest, document, writes, ?_⟩, hpersist _ ?_ ?_,
    ⟨c, job, rest, document, writes, document, ?_⟩, hother _ _ nofun, Or.inl ⟨c, rest, ?_⟩,
    trivial⟩
  all_goals simp [system, next, hphase, hlock, State.move, afterLoad, hrun]

def noHome : State := initial (fun _ => false) fun _ => none

def setNamespace : Command :=
  .configSet "dev" ⟨⟨"namespace", "namespace", .profile⟩, by decide⟩ "acme"

def setClientId : Command :=
  .configSet "dev" ⟨⟨"client-id", "client_id", .profile⟩, by decide⟩
    "0123456789abcdef0123456789abcdef"

/-- Two first uses of a profile, the second after the first made the directory. -/
def oneAfterOther : List Event :=
  [.start 0 setNamespace, .start 1 setClientId, .isDir 0, .createDir 0] ++ lockedWrite 0 ++
    [.isDir 1] ++ lockedWrite 0 ++ lockedWrite 1

theorem no_lost_update_oneAfterOther :
    LastWriterHolds (fun _ => none) (system.follow noHome oneAfterOther) ∧
      (∀ p c, (system.follow noHome oneAfterOther).phase p = .done c →
        Recorded (system.follow noHome oneAfterOther) p c) ∧
      (∀ p f, ((system.follow noHome oneAfterOther).phase p).holds = some f →
        (system.follow noHome oneAfterOther).locks f = some p) ∧
      CompleteReads (fun _ => none) (system.follow noHome oneAfterOther) := by
  refine @no_lost_update (fun _ => none) _ (fun _ => false) (fun _ => nofun)
    (Events.System.reaches_follow ?_)
  have hother : ∀ t e, (∀ q, e ≠ .persist q) → HarmlessDefault t e := by
    intro t e he
    cases e with
    | persist p => exact absurd rfl (he p)
    | _ => trivial
  have hown : ∀ {t : State} {p : Nat} {c : Command} {job : Job} {rest : List Job}
      {document : Value} {writes : Writes} {temp : Option Content},
      t.phase p = .saving c job rest document writes temp → job.isDefault = false →
        HarmlessDefault t (.persist p) := by
    intro t p c job rest document writes temp hphase hjob c' job' rest' document' writes' temp' h
    rw [hphase] at h
    cases h
    rw [hjob]
    exact nofun
  refine Events.System.admits_append.mpr ⟨Events.System.admits_append.mpr
    ⟨Events.System.admits_append.mpr ⟨Events.System.admits_append.mpr ⟨?_, ?_⟩, ?_⟩, ?_⟩, ?_⟩
  · exact ⟨trivial, rfl, trivial, rfl, trivial, ⟨_, _, rfl, rfl⟩, trivial, ⟨_, rfl⟩, trivial⟩
  · refine lockedWrite_admitted hother rfl rfl rfl fun t hfiles hphase => ?_
    intro c job rest document writes temp h _ name v hv
    rw [hphase] at h
    cases h
    rw [hfiles] at hv
    cases hv
  · exact ⟨trivial, ⟨_, _, rfl, rfl⟩, trivial⟩
  · exact lockedWrite_admitted hother rfl rfl rfl fun t _ hphase => hown hphase rfl
  · exact lockedWrite_admitted hother rfl rfl rfl fun t _ hphase => hown hphase rfl

/-- Two first uses of a profile that both find no directory. -/
def bothFirst : List Event :=
  [.start 0 setNamespace, .start 1 setClientId, .isDir 0, .isDir 1, .createDir 0] ++
    lockedWrite 0 ++ lockedWrite 0 ++ [.createDir 1] ++ lockedWrite 1 ++ lockedWrite 1

/-- The default snapshot of the second replaces what the first has set. -/
theorem update_lost : ¬ ∀ (dirs : String → Bool) (files : FileId → Option Value),
    (∀ f, Documented (files f)) → ∀ s, system.Reaches Events.System.free (initial dirs files) s →
      (∀ p, s.phase p = .idle ∨ ∃ c, s.phase p = .done c) →
        LastWriterHolds files s ∧ CompleteReads files s := by
  intro h
  have hother : ∀ (t : State) (e : Event), (∀ q, e ≠ .persist q) → Events.System.free t e :=
    fun _ _ _ => trivial
  have hadmits : system.Admits Events.System.free noHome bothFirst := by
    refine Events.System.admits_append.mpr ⟨Events.System.admits_append.mpr
      ⟨Events.System.admits_append.mpr ⟨Events.System.admits_append.mpr
        ⟨Events.System.admits_append.mpr ⟨?_, ?_⟩, ?_⟩, ?_⟩, ?_⟩, ?_⟩
    · exact ⟨trivial, rfl, trivial, rfl, trivial, ⟨_, _, rfl, rfl⟩, trivial, ⟨_, _, rfl, rfl⟩,
        trivial, ⟨_, rfl⟩, trivial⟩
    · exact lockedWrite_admitted hother rfl rfl rfl fun _ _ _ => trivial
    · exact lockedWrite_admitted hother rfl rfl rfl fun _ _ _ => trivial
    · exact ⟨trivial, ⟨_, rfl⟩, trivial⟩
    · exact lockedWrite_admitted hother rfl rfl rfl fun _ _ _ => trivial
    · exact lockedWrite_admitted hother rfl rfl rfl fun _ _ _ => trivial
  have hdone : ∀ p, (system.follow noHome bothFirst).phase p = .idle ∨
      ∃ c, (system.follow noHome bothFirst).phase p = .done c := by
    intro p
    match p with
    | 0 => exact Or.inr ⟨setNamespace, rfl⟩
    | 1 => exact Or.inr ⟨setClientId, rfl⟩
    | n + 2 => exact Or.inl rfl
  have hlast := (h _ (fun _ => none) (fun _ => nofun) _
    (Events.System.reaches_follow hadmits) hdone).1
  have hlost : none = some (Held.typed (.string "acme")) := hlast (.profile "dev") "namespace"
  cases hlost

end FirstUses

end LostUpdate
