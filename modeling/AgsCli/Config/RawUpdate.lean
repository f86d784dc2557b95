import AgsCli.Config.RoundTrip

/-! # The raw update of a config file on disk

`update_json_file_field` with the reads and writes that can fail under it: every file content,
every outcome, and what is left of the other settings. -/
namespace RawUpdate

open OrderedMap Json ProtocolError ConfigStore ConfigRoundTrip

variable {fields : Fields}

structure Disk where
  read : Option String
  write : Option String

inductive Outcome
  | returned (result : Except RuntimeError Unit)
  | panicked

/-- `write_file_restricted`: the file is replaced whole or left as it was. -/
def writeFile (disk : Disk) (file : Option (FileText fields)) (path : String)
    (data : FileText fields) : Outcome × Option (FileText fields) :=
  match disk.write with
  | some e => (.returned (.error (.internal s!"Failed to write '{path}': {e}")), file)
  | none => (.returned (.ok ()), some data)

def updateFile (disk : Disk) (file : Option (FileText fields)) (path label jsonName : String)
    (value : Option String) : Outcome × Option (FileText fields) :=
  match file, disk.read with
  | some _, some e => (.returned (.error (.internal s!"Failed to read {label}: {e}")), file)
  | _, _ =>
    match updateJsonFileField file jsonName value with
    | none => (.panicked, file)
    | some data => writeFile disk file path data

def loadFile (disk : Disk) (file : Option (FileText fields)) (label : String) :
    Except RuntimeError Typed :=
  match file, disk.read with
  | some _, some e => .error (.internal s!"Failed to read {label}: {e}")
  | _, _ => loadStruct file label

/-- `update_struct` on a disk, with the closure's work and how the result is written. -/
def updateStruct (disk : Disk) (file : Option (FileText fields)) (path label : String)
    (run : Typed → Except RuntimeError Typed) (save : Typed → FileText fields) :
    Outcome × Option (FileText fields) :=
  match (loadFile disk file label).bind run with
  | .error e => (.returned (.error e), file)
  | .ok config => writeFile disk file path (save config)

section Spec

/-- The members of the object a file holds; an absent file holds none. -/
def objectOf (file : Option (FileText fields)) : Option (List (String × Value)) :=
  match file with
  | none => some []
  | some text =>
    match text.value with
    | .ok (.object members) => some members
    | _ => none

structure SetOrRemoved (jsonName : String) (value : Option String)
    (before after : List (String × Value)) : Prop where
  field : Entries.lookup jsonName after = value.map parseJsonValue
  others : ∀ other, other ≠ jsonName → Entries.lookup other after = Entries.lookup other before

/-- Neither of the file's readers gets anything from it. -/
def Unreadable (disk : Disk) : Option (FileText fields) → Prop
  | none => False
  | some text => disk.read.isSome ∨ (∃ e, text.value = .error e) ∧ ∃ e, text.typed = .error e

/-- An update returns, and destroys nothing but what it is to set or remove. -/
structure Preserves (disk : Disk) (file : Option (FileText fields)) (jsonName : String)
    (value : Option String) (r : Outcome × Option (FileText fields)) : Prop where
  returns : r.1 ≠ .panicked
  failed : ∀ e, r.1 = .returned (.error e) → r.2 = file
  done : r.1 = .returned (.ok ()) → ∃ before after, objectOf file = some before ∧
    r.2 = some (written fields (.object after)) ∧ SetOrRemoved jsonName value before after
  refused : Unreadable disk file → ∃ e, r = (.returned (.error e), file)

/-- What is set has a place: the file holds an object or null, or nothing is set. -/
def Settable (file : Option (FileText fields)) (value : Option String) : Prop :=
  value.isSome → (∃ members, updateBase file = .object members) ∨ updateBase file = .null

/-- The file is absent, cannot be read or holds an object; or it would be changed in a way that
the failing write prevents. -/
def Safe (disk : Disk) (file : Option (FileText fields)) (value : Option String) : Prop :=
  (objectOf file).isSome ∨ disk.read.isSome ∨ (disk.write.isSome ∧ Settable file value)

end Spec

section Results

variable {disk : Disk} {file : Option (FileText fields)} {path label jsonName : String}
  {value : Option String} {before : List (String × Value)}

theorem updateBase_of_objectOf (h : objectOf file = some before) :
    updateBase file = .object before := by
  cases file with
  | none =>
    cases h
    rfl
  | some text =>
    rw [objectOf] at h
    rw [updateBase]
    cases hvalue : text.value with
    | error e =>
      rw [hvalue] at h
      cases h
    | ok v =>
      rw [hvalue] at h
      cases v with
      | object members =>
        cases h
        rfl
      | null | bool | number | string | array => cases h

theorem settable_of_objectOf (h : objectOf file = some before) : Settable file value :=
  fun _ => .inl ⟨before, updateBase_of_objectOf h⟩

theorem update_eq_none_iff :
    updateJsonFileField file jsonName value = none ↔ ¬Settable file value := by
  cases value with
  | none => simp [updateJsonFileField, Settable]
  | some value =>
    rw [updateJsonFileField, Option.map_eq_none_iff]
    cases hbase : updateBase file with
    | object members => simp [setMember, Settable, hbase]
    | null => simp [setMember, Settable, hbase]
    | bool | number | string | array => simp [setMember, Settable, hbase]

theorem update_of_objectOf {data : FileText fields} (h : objectOf file = some before)
    (hupdate : updateJsonFileField file jsonName value = some data) :
    ∃ after, data = written fields (.object after) ∧ SetOrRemoved jsonName value before after := by
  have hbase := updateBase_of_objectOf h
  cases value with
  | none =>
    rw [updateJsonFileField, hbase] at hupdate
    cases hupdate
    refine ⟨_, rfl, ?_, fun other hother => ?_⟩
    · rw [Entries.lookup_erase, if_pos rfl]
      rfl
    · rw [Entries.lookup_erase, if_neg hother]
  | some value =>
    obtain ⟨after, rfl, -, hfield, hothers⟩ := updated_members hupdate
    refine ⟨after, rfl, hfield, fun other hother => ?_⟩
    rw [hothers other hother, hbase]
    rfl

/-- Past a read that succeeds, an update panics or writes what it made. -/
theorem updateFile_eq (hread : file = none ∨ disk.read = none) :
    updateFile disk file path label jsonName value =
      match updateJsonFileField file jsonName value with
      | none => (.panicked, file)
      | some data => writeFile disk file path data := by
  cases file with
  | none => rfl
  | some text =>
    rcases hread with hfile | hread
    · cases hfile
    · unfold updateFile
      rw [hread]

theorem updateFile_unread {text : FileText fields} {e : String} (hread : disk.read = some e) :
    updateFile disk (some text) path label jsonName value =
      (.returned (.error (.internal s!"Failed to read {label}: {e}")), some text) := by
  unfold updateFile
  rw [hread]

theorem loadFile_unreadable (h : Unreadable disk file) (label : String) :
    ∃ e, loadFile disk file label = .error e := by
  cases file with
  | none => cases h
  | some text =>
    unfold loadFile
    cases hread : disk.read with
    | some e => exact ⟨_, rfl⟩
    | none =>
      rcases h with hsome | ⟨-, e, htyped⟩
      · rw [hread] at hsome
        cases hsome
      · dsimp only
        rw [loadStruct, htyped]
        exact ⟨_, rfl⟩

/-- The typed writer refuses what it cannot read. -/
theorem updateStruct_unreadable (h : Unreadable disk file)
    (run : Typed → Except RuntimeError Typed) (save : Typed → FileText fields) :
    ∃ e, updateStruct disk file path label run save = (.returned (.error e), file) := by
  obtain ⟨e, he⟩ := loadFile_unreadable h label
  unfold updateStruct
  rw [he]
  exact ⟨e, rfl⟩

theorem exists_update (h : Settable file value) (jsonName : String) :
    ∃ data, updateJsonFileField file jsonName value = some data := by
  rw [← Option.ne_none_iff_exists']
  exact fun hnone => update_eq_none_iff.mp hnone h

theorem not_unreadable (hread : file = none ∨ disk.read = none)
    (hobject : objectOf file = some before) : ¬Unreadable disk file := by
  intro hunreadable
  cases file with
  | none => exact hunreadable
  | some text =>
    rcases hunreadable with hsome | ⟨⟨e, hvalue⟩, -⟩
    · rcases hread with hfile | hread
      · cases hfile
      · rw [hread] at hsome
        cases hsome
    · rw [objectOf, hvalue] at hobject
      cases hobject

theorem preserves_of_error {e : RuntimeError} :
    Preserves disk file jsonName value (.returned (.error e), file) :=
  ⟨nofun, fun _ _ => rfl, nofun, fun _ => ⟨e, rfl⟩⟩

theorem preserves_of_object (hread : file = none ∨ disk.read = none)
    (hobject : objectOf file = some before) :
    Preserves disk file jsonName value (updateFile disk file path label jsonName value) := by
  obtain ⟨data, hdata⟩ := exists_update (settable_of_objectOf hobject) jsonName
  rw [updateFile_eq hread, hdata]
  dsimp only
  unfold writeFile
  cases disk.write with
  | some e => exact preserves_of_error
  | none =>
    obtain ⟨after, rfl, hset⟩ := update_of_objectOf hobject hdata
    refine ⟨nofun, nofun, fun _ => ⟨before, after, hobject, rfl, hset⟩, fun hunreadable => ?_⟩
    exact absurd hunreadable (not_unreadable hread hobject)

theorem preserves_of_write {e : String} (hread : file = none ∨ disk.read = none)
    (hwrite : disk.write = some e) (hset : Settable file value) :
    Preserves disk file jsonName value (updateFile disk file path label jsonName value) := by
  obtain ⟨data, hdata⟩ := exists_update hset jsonName
  rw [updateFile_eq hread, hdata]
  dsimp only
  unfold writeFile
  rw [hwrite]
  exact preserves_of_error

theorem safe_of_preserves
    (h : Preserves disk file jsonName value (updateFile disk file path label jsonName value)) :
    Safe disk file value := by
  by_contra hunsafe
  obtain ⟨hobject, hread, hwrite⟩ := by simpa only [Safe, not_or] using hunsafe
  have hread : disk.read = none := by simpa using hread
  rw [updateFile_eq (.inr hread)] at h
  by_cases hset : Settable file value
  · obtain ⟨data, hdata⟩ := exists_update hset jsonName
    have hwritten : disk.write = none := by
      cases hw : disk.write with
      | none => rfl
      | some e => exact absurd ⟨hw ▸ rfl, hset⟩ hwrite
    rw [hdata] at h
    dsimp only at h
    unfold writeFile at h
    rw [hwritten] at h
    obtain ⟨before, -, hbefore, -⟩ := h.done rfl
    rw [hbefore] at hobject
    exact hobject rfl
  · rw [update_eq_none_iff.mpr hset] at h
    exact h.returns rfl

/-- A raw update destroys no other setting exactly when the file is absent, holds an object or
cannot be read, or when writing the update fails. -/
theorem raw_update_preserves_iff (disk : Disk) (file : Option (FileText fields))
    (path label jsonName : String) (value : Option String) :
    Preserves disk file jsonName value (updateFile disk file path label jsonName value) ↔
      Safe disk file value := by
  refine ⟨safe_of_preserves, fun h => ?_⟩
  cases file with
  | none => exact preserves_of_object (.inl rfl) rfl
  | some text =>
    cases hread : disk.read with
    | some e =>
      rw [updateFile_unread hread]
      exact preserves_of_error
    | none =>
      rcases h with hobject | hfails | ⟨hwrite, hset⟩
      · obtain ⟨before, hbefore⟩ := Option.isSome_iff_exists.mp hobject
        exact preserves_of_object (.inr hread) hbefore
      · rw [hread] at hfails
        cases hfails
      · obtain ⟨e, he⟩ := Option.isSome_iff_exists.mp hwrite
        exact preserves_of_write (.inr hread) he hset

/-- A profile config cut off in the middle of a write by another program. -/
def cutOff : FileText profileFields where
  value := .error "EOF while parsing an object"
  typed := .error "EOF while parsing an object"
  coherent _ _ h := by cases h

/-- Setting one field replaces the text that `update_struct` refuses. -/
theorem cut_off_replaced :
    (∃ e, updateStruct ⟨none, none⟩ (some cutOff) "config.json" "profile config for 'default'" .ok
      (fun _ => cutOff) = (.returned (.error e), some cutOff)) ∧
    ¬Preserves ⟨none, none⟩ (some cutOff) "namespace" (some "demo")
      (updateFile ⟨none, none⟩ (some cutOff) "config.json" "profile config for 'default'"
        "namespace" (some "demo")) := by
  have hunreadable : Unreadable ⟨none, none⟩ (some cutOff) := .inr ⟨⟨_, rfl⟩, _, rfl⟩
  refine ⟨updateStruct_unreadable hunreadable _ _, fun h => ?_⟩
  obtain ⟨e, he⟩ := h.refused hunreadable
  cases he

end Results

end RawUpdate
