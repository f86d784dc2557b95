import AgsCli.Config.FieldWrites
import AgsCli.Library.Events

/-! # Concurrent config writers

Processes that write the config files of one home, by their file-system steps: the directory
check of a first use, the creation of directories, the default snapshot, and the locked
load, temporary file and rename. The log of a file keeps what was written in lock order. -/
namespace ConfigWriters

open OrderedMap Json ConfigKeys ConfigStore ConfigRoundTrip FieldWrites

inductive FileId
  | global
  | profile (name : String)
  deriving DecidableEq, Repr

def fieldsOf : FileId → Fields
  | .global => globalFields
  | .profile _ => profileFields

theorem fieldsOf_nodup (f : FileId) : ((fieldsOf f).map Prod.fst).Nodup := by
  cases f with
  | global => exact structOf_nodup .global
  | profile name => exact structOf_nodup .profile

section Commands

structure Mutation (fields : Fields) where
  names : List String
  closure : Typed → Option Typed
  lawful : Job.Lawful fields names closure

abbrev KnownKey := { keyDef : ConfigKeyDef // keyDef ∈ knownKeys }

/-- A writer; `configSet` with the value it saves. -/
inductive Command
  | configSet (profile : String) (key : KnownKey) (value : String)
  | configUnset (profile : String) (key : KnownKey)
  | profileUse (name : String)
  | profileUpdate (profile : String) (mutation : Mutation profileFields)

def activeProfile : String := "active_profile"

def setActiveProfile (name : String) (config : Typed) : Option Typed :=
  some (Entries.insert activeProfile (some (.string name)) config)

def fileFor (profile : String) : ConfigScope → FileId
  | .global => .global
  | .profile => .profile profile

namespace Command

def target : Command → FileId
  | .configSet profile key _ | .configUnset profile key => fileFor profile key.1.scope
  | .profileUse _ => .global
  | .profileUpdate profile _ => .profile profile

def job : Command → Job
  | .configSet _ key value => .set key.1.jsonName value
  | .configUnset _ key => .unset key.1.jsonName
  | .profileUse name => .update [activeProfile] (setActiveProfile name)
  | .profileUpdate _ mutation => .update mutation.names mutation.closure

/-- The directory whose existence is tested first. -/
def checked : Command → Option String
  | .configSet profile key _ =>
    match key.1.scope with
    | .global => none
    | .profile => some profile
  | .profileUse name => some name
  | _ => none

/-- A missing directory is created with a default config. -/
def creates : Command → Bool
  | .configSet _ _ _ => true
  | _ => false

def Records : Command → Writes → Prop
  | .configSet _ key value, writes =>
    writes = [(key.1.jsonName, heldValue (fieldTypeOf key.1) (some (parseJsonValue value)))]
  | .configUnset _ key, writes => writes = [(key.1.jsonName, none)]
  | .profileUse name, writes => writes = [(activeProfile, some (.typed (.string name)))]
  | .profileUpdate _ mutation, writes => ∃ config config',
    mutation.closure config = some config' ∧
      writes = mutation.names.map fun name => (name, (config'.field name).map .typed)

end Command

theorem lookup_fieldTypeOf (key : KnownKey) (profile : String) :
    Entries.lookup key.1.jsonName (fieldsOf (fileFor profile key.1.scope)) =
      some (fieldTypeOf key.1) := by
  have hmem := mem_structOf key.2
  have hfields : fieldsOf (fileFor profile key.1.scope) = structOf key.1.scope := by
    cases key.1.scope with
    | global => rfl
    | profile => rfl
  rw [hfields, fieldTypeOf]
  cases hlookup : Entries.lookup key.1.jsonName (structOf key.1.scope) with
  | some fieldType => rfl
  | none =>
    have hsome := Entries.lookup_isSome_iff.mpr ⟨fieldTypeOf key.1, hmem⟩
    rw [hlookup] at hsome
    cases hsome

theorem name_mem_fields (key : KnownKey) (profile : String) :
    key.1.jsonName ∈ (fieldsOf (fileFor profile key.1.scope)).map Prod.fst :=
  List.mem_map_of_mem (f := Prod.fst) (mem_of_lookup_fields (lookup_fieldTypeOf key profile))

theorem field_setActiveProfile (name other : String) (config : Typed) :
    Typed.field (Entries.insert activeProfile (some (.string name)) config) other =
      if other = activeProfile then some (.string name) else config.field other := by
  rw [Typed.field, Entries.lookup_insert]
  split_ifs
  · rfl
  · rfl

theorem setActiveProfile_lawful (name : String) :
    Job.Lawful globalFields [activeProfile] (setActiveProfile name) where
  known other hother := by
    rw [List.mem_singleton.mp hother]
    decide
  frame config config' h other hother := by
    rw [← Option.some.inj h, field_setActiveProfile, if_neg (by simpa using hother)]
  typed config config' h htyped e he v hv := by
    rw [← Option.some.inj h, field_setActiveProfile] at hv
    by_cases hname : e.1 = activeProfile
    · rw [if_pos hname] at hv
      have hall : ∀ e ∈ globalFields, e.1 = activeProfile → e.2 = .string := by decide
      rw [hall e he hname, ← Option.some.inj hv]
      trivial
    · rw [if_neg hname] at hv
      exact htyped e he v hv

namespace Command

/-- The command's own job writes a field of its file. -/
theorem job_fits (c : Command) : c.job.Fits (fieldsOf c.target) := by
  cases c with
  | configSet profile key value => exact name_mem_fields key profile
  | configUnset profile key => exact name_mem_fields key profile
  | profileUse name => exact setActiveProfile_lawful name
  | profileUpdate profile mutation => exact mutation.lawful

theorem job_not_default (c : Command) : c.job.isDefault = false := by
  cases c with
  | configSet | configUnset | profileUse | profileUpdate => rfl

/-- What the job of a command writes is what the command records. -/
theorem records_of_run {c : Command} {file : Option (FileText (fieldsOf c.target))}
    {document : Value} {writes : Writes}
    (h : c.job.run (fieldsOf c.target) file = some (document, writes)) : c.Records writes := by
  cases c with
  | configSet profile key value =>
    obtain ⟨written, -, heq⟩ := Option.map_eq_some_iff.mp h
    obtain ⟨-, rfl⟩ := Prod.mk.inj heq
    rw [Records, target, lookup_fieldTypeOf, Option.bind_some]
  | configUnset profile key =>
    obtain ⟨-, rfl⟩ := Prod.mk.inj (Option.some.inj h)
    rfl
  | profileUse name =>
    rw [job, Job.run] at h
    split at h
    · cases h
    · obtain ⟨config', hclosure, heq⟩ := Option.map_eq_some_iff.mp h
      obtain ⟨-, rfl⟩ := Prod.mk.inj heq
      rw [Records, ← Option.some.inj hclosure, List.map_singleton, field_setActiveProfile,
        if_pos rfl, Option.map_some]
  | profileUpdate profile mutation =>
    rw [job, Job.run] at h
    split at h
    · cases h
    · next config _ =>
      obtain ⟨config', hclosure, heq⟩ := Option.map_eq_some_iff.mp h
      obtain ⟨-, rfl⟩ := Prod.mk.inj heq
      exact ⟨config, config', hclosure, rfl⟩

end Command

end Commands

section States

inductive Content
  | whole (document : Value)
  | torn

inductive Phase
  | idle
  | checking (c : Command)
  | creating (c : Command)
  | locking (c : Command) (jobs : List Job)
  | acquiring (c : Command) (jobs : List Job)
  | loading (c : Command) (job : Job) (rest : List Job)
  | saving (c : Command) (job : Job) (rest : List Job) (document : Value) (writes : Writes)
      (temp : Option Content)
  | releasing (c : Command) (rest : List Job)
  | failing (c : Command)
  | done (c : Command)
  | failed (c : Command)

structure Entry where
  pid : Nat
  writes : Writes

/-- The profile directories, the files and locks of the home, the processes, and for each file
what was written to it under its lock, in that order. -/
structure State where
  dirs : String → Bool
  files : FileId → Option Content
  locks : FileId → Option Nat
  phase : Nat → Phase
  log : FileId → List Entry

def initial (dirs : String → Bool) (files : FileId → Option Value) : State :=
  { dirs, files := fun f => (files f).map .whole, locks := fun _ => none
    phase := fun _ => .idle, log := fun _ => [] }

inductive Event
  | start (p : Nat) (c : Command)
  | isDir (p : Nat)
  | createDir (p : Nat)
  | createParent (p : Nat)
  | acquire (p : Nat)
  | load (p : Nat)
  | createTemp (p : Nat)
  | writeTemp (p : Nat)
  | persist (p : Nat)
  | release (p : Nat)
  | fail (p : Nat)

def Phase.holds : Phase → Option FileId
  | .loading c _ _ | .saving c _ _ _ _ _ | .releasing c _ | .failing c => some c.target
  | _ => none

def Phase.command : Phase → Option Command
  | .idle => none
  | .checking c | .creating c | .locking c _ | .acquiring c _ | .loading c _ _
  | .saving c _ _ _ _ _ | .releasing c _ | .failing c | .done c | .failed c => some c

def Command.entry (c : Command) : Phase :=
  match c.checked with
  | some _ => .checking c
  | none => .locking c [c.job]

def Command.afterCheck (c : Command) (exists' : Bool) : Phase :=
  if exists' then .locking c [c.job] else if c.creates then .creating c else .failed c

def afterRelease (c : Command) (rest : List Job) : Phase :=
  if rest.isEmpty then .done c else .locking c rest

def readText (f : FileId) : Option Content → Option (FileText (fieldsOf f))
  | none => none
  | some (.whole document) => some (written (fieldsOf f) document)
  | some .torn => some ⟨.error "EOF while parsing", .error "EOF while parsing", nofun⟩

/-- After the file was read: the new document, or the error with the lock still held. -/
def afterLoad (c : Command) (job : Job) (rest : List Job) (content : Option Content) : Phase :=
  match job.run (fieldsOf c.target) (readText c.target content) with
  | some (document, writes) => .saving c job rest document writes none
  | none => .failing c

def State.move (s : State) (p : Nat) (phase : Phase) : State :=
  { s with phase := Function.update s.phase p phase }

def makeDir (dirs : String → Bool) : FileId → String → Bool
  | .global => dirs
  | .profile name => Function.update dirs name true

def Enabled (s : State) : Event → Prop
  | .start p _ => s.phase p = .idle
  | .isDir p => ∃ c name, s.phase p = .checking c ∧ c.checked = some name
  | .createDir p => ∃ c, s.phase p = .creating c
  | .createParent p => ∃ c jobs, s.phase p = .locking c jobs
  | .acquire p => ∃ c job rest, s.phase p = .acquiring c (job :: rest) ∧ s.locks c.target = none
  | .load p => ∃ c job rest, s.phase p = .loading c job rest
  | .createTemp p => ∃ c job rest document writes,
    s.phase p = .saving c job rest document writes none
  | .writeTemp p => ∃ c job rest document writes,
    s.phase p = .saving c job rest document writes (some .torn)
  | .persist p => ∃ c job rest document writes written,
    s.phase p = .saving c job rest document writes (some (.whole written))
  | .release p => (∃ c rest, s.phase p = .releasing c rest) ∨ ∃ c, s.phase p = .failing c
  | .fail p => ∃ c, s.phase p = .checking c ∨ s.phase p = .creating c ∨
    (∃ jobs, s.phase p = .locking c jobs ∨ s.phase p = .acquiring c jobs) ∨
    (∃ job rest, s.phase p = .loading c job rest) ∨
    ∃ job rest document writes temp, s.phase p = .saving c job rest document writes temp

def next (s : State) : Event → State
  | .start p c => s.move p c.entry
  | .isDir p =>
    match s.phase p with
    | .checking c => s.move p (c.afterCheck ((c.checked.map s.dirs).getD false))
    | _ => s
  | .createDir p =>
    match s.phase p with
    | .creating c =>
      { s.move p (.locking c [.saveDefault, c.job]) with dirs := makeDir s.dirs c.target }
    | _ => s
  | .createParent p =>
    match s.phase p with
    | .locking c jobs => { s.move p (.acquiring c jobs) with dirs := makeDir s.dirs c.target }
    | _ => s
  | .acquire p =>
    match s.phase p with
    | .acquiring c (job :: rest) => { s.move p (.loading c job rest) with
        locks := Function.update s.locks c.target (some p) }
    | _ => s
  | .load p =>
    match s.phase p with
    | .loading c job rest => s.move p (afterLoad c job rest (s.files c.target))
    | _ => s
  | .createTemp p =>
    match s.phase p with
    | .saving c job rest document writes _ =>
      s.move p (.saving c job rest document writes (some .torn))
    | _ => s
  | .writeTemp p =>
    match s.phase p with
    | .saving c job rest document writes _ =>
      s.move p (.saving c job rest document writes (some (.whole document)))
    | _ => s
  | .persist p =>
    match s.phase p with
    | .saving c job rest _ writes (some content) => { s.move p (.releasing c rest) with
        files := Function.update s.files c.target (some content)
        log := if job.isDefault then s.log
          else Function.update s.log c.target (s.log c.target ++ [⟨p, writes⟩]) }
    | _ => s
  | .release p =>
    match s.phase p with
    | .releasing c rest => { s.move p (afterRelease c rest) with
        locks := Function.update s.locks c.target none }
    | .failing c => { s.move p (.failed c) with
        locks := Function.update s.locks c.target none }
    | _ => s
  | .fail p =>
    match s.phase p with
    | .checking c | .creating c | .locking c _ | .acquiring c _ => s.move p (.failed c)
    | .loading c _ _ | .saving c _ _ _ _ _ => s.move p (.failing c)
    | _ => s

def system : Events.System State Event := ⟨Enabled, next⟩

/-- A default snapshot replaces a config file only while that holds no field. -/
def HarmlessDefault (s : State) : Event → Prop
  | .persist p => ∀ c job rest document writes temp,
    s.phase p = .saving c job rest document writes temp → job.isDefault = true →
      ∀ name, ∀ v, s.files c.target = some (.whole v) → heldIn (fieldsOf c.target) v name = none
  | _ => True

end States

end ConfigWriters
