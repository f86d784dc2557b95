import AgsCli.Workflow.CompileFacts

/-! # External workflow store

`workflow_add` and `workflow_remove` on the workflows directory, and the registry a fresh process
builds from it. A scan lists the files in the directory's order; a write puts its file anywhere in
that order and leaves the other files as they are. -/
namespace ExternalStore

open OrderedMap CatalogueTypes ProtocolError WorkflowTypes

structure Entry where
  name : String
  text : Option String
  deriving DecidableEq

structure Directory where
  entries : List Entry
  distinct : (entries.map (·.name)).Nodup

structure ParsedWorkflow where
  definition : WorkflowDefinition
  workflowProtocolVersion : Option String

/-- The workflows directory's path, the YAML and version readers, the compiled-in workflows and
the catalogue. -/
structure Env where
  dir : String
  parse : String → Except String ParsedWorkflow
  isSemver : String → Bool
  builtins : BTreeMap String WorkflowDefinition
  catalogue : Catalogue

def extension? (name : String) : Option String :=
  let reversed := name.toList.reverse
  let suffix := reversed.takeWhile (· ≠ '.')
  match reversed.drop suffix.length with
  | [] | [_] => none
  | _ :: _ :: _ => some (String.ofList suffix.reverse)

def equalsIgnoreCase (a b : String) : Bool := Strings.asciiLower a = Strings.asciiLower b

def isYaml (name : String) : Bool :=
  match extension? name with
  | some ext => equalsIgnoreCase ext "yaml" || equalsIgnoreCase ext "yml"
  | none => false

/-- The definition an entry is loaded as: nothing for another extension or a file that does not
read or parse. -/
def definitionOf (env : Env) (entry : Entry) : Option WorkflowDefinition :=
  if isYaml entry.name then
    entry.text.bind fun text => (env.parse text).toOption.map (·.definition)
  else none

abbrev Registry := BTreeMap String WorkflowDefinition

def registerExternal (env : Env) (registry : Registry) (entry : Entry) : Registry :=
  match definitionOf env entry with
  | none => registry
  | some definition =>
    if registry.contains definition.id then registry
    else registry.insert definition.id definition

def registry (env : Env) (dir : Directory) : Registry :=
  dir.entries.foldl (registerExternal env) env.builtins

def resolve (env : Env) (dir : Directory) (id : String) : Option WorkflowDefinition :=
  (registry env dir).get? id

def findExternalWorkflowById (env : Env) (dir : Directory) (id : String) : Option Entry :=
  dir.entries.find? fun entry =>
    match definitionOf env entry with
    | some definition => equalsIgnoreCase definition.id id
    | none => false

def isIdChar (c : Char) : Bool :=
  Strings.isAsciiLower c || Strings.isAsciiUpper c || Strings.isAsciiDigit c ||
    c = '.' || c = '_' || c = '-'

def windowsReservedDeviceNames : List String :=
  ["CON", "PRN", "AUX", "NUL", "COM1", "COM2", "COM3", "COM4", "COM5", "COM6", "COM7", "COM8",
    "COM9", "LPT1", "LPT2", "LPT3", "LPT4", "LPT5", "LPT6", "LPT7", "LPT8", "LPT9"]

def withHint (message hint : String) : RuntimeError :=
  { RuntimeError.validation message with hint := some hint }

def validateWorkflowId (id : String) : Except RuntimeError Unit :=
  if id.isEmpty || !id.toList.all isIdChar then .error (withHint s!"Invalid workflow id '{id}'."
    ("Workflow ids may only contain letters, digits, '.', '_', and '-' " ++
      "(e.g. 'competitive-multiplayer')."))
  else if windowsReservedDeviceNames.any fun reserved =>
      equalsIgnoreCase reserved (String.ofList (id.toList.takeWhile (· ≠ '.'))) then
    .error (withHint s!"Invalid workflow id '{id}': reserved by Windows."
      ("Workflow ids may not use Windows-reserved device names (CON, PRN, AUX, NUL, " ++
        "COM1-9, LPT1-9), even as a prefix before '.'."))
  else .ok ()

def validateVersion (env : Env) (path : String) (version : Option String) :
    Except RuntimeError Unit :=
  match version with
  | none => .error (withHint
      s!"'{path}' is missing a required `workflow_protocol_version` field."
      ("Declare `workflow_protocol_version: \"<version>\"`, or run `ags workflow template` " ++
        "for a starter file with one already filled in."))
  | some declared =>
    if env.isSemver declared then .ok ()
    else .error (withHint
      (s!"'{path}' has an invalid `workflow_protocol_version`: '{declared}' is not a valid " ++
        "semver version.")
      ("Declare `workflow_protocol_version` as a semver string (e.g. \"1.0.0\"), or run " ++
        "`ags workflow template` for a starter file with one already filled in."))

/-- No registered id, whatever its case, is the new one. -/
def validateUnregistered (registry : Registry) (id : String) : Except RuntimeError Unit :=
  match registry.keys.find? (equalsIgnoreCase · id) with
  | none => .ok ()
  | some existing =>
    let message := if existing = id then s!"A workflow with id '{id}' is already registered."
      else s!"A workflow with id '{id}' is already registered as '{existing}'; ids are compared " ++
        "case-insensitively."
    .error (withHint message
      ("Choose a different id, or run `ags workflow remove <id>` to remove the existing " ++
        "workflow first (built-in workflows cannot be removed this way)."))

/-- The validation of `workflow_add`, in its order. -/
def validateAdd (env : Env) (dir : Directory) (path : String) (source : Except String String) :
    Except RuntimeError (String × WorkflowDefinition) := do
  let yaml ← source.mapError fun e => .validation s!"Cannot read '{path}': {e}"
  let parsed ← (env.parse yaml).mapError fun e =>
    .validation s!"'{path}' is not a valid workflow YAML: {e}"
  validateVersion env path parsed.workflowProtocolVersion
  validateWorkflowId parsed.definition.id
  let _ ← Compile.compileWorkflow parsed.definition env.catalogue
  validateUnregistered (registry env dir) parsed.definition.id
  .ok (yaml, parsed.definition)

/-- What the file system answers a call: errors, or where in the order a written file goes. -/
structure FileSystem where
  createDir : Except String Unit
  write : Except String Nat
  remove : Except String Unit

def fileName (id : String) : String := id ++ ".yaml"

def Directory.without (dir : Directory) (name : String) : Directory :=
  ⟨dir.entries.filter (·.name ≠ name), dir.distinct.sublist (List.filter_sublist.map _)⟩

theorem perm_place {α : Type*} (l : List α) (a : α) (position : Nat) :
    (l.take position ++ a :: l.drop position).Perm (a :: l) := by
  refine List.perm_middle.trans (List.Perm.cons _ ?_)
  rw [List.take_append_drop]

/-- `write_file_restricted`: a rename over the target's name. -/
def Directory.write (dir : Directory) (name text : String) (position : Nat) : Directory :=
  let others := (dir.without name).entries
  { entries := others.take position ++ ⟨name, some text⟩ :: others.drop position
    distinct := by
      refine ((perm_place others _ position).map (·.name)).nodup_iff.mpr ?_
      refine List.nodup_cons.mpr ⟨fun hmem => ?_, (dir.without name).distinct⟩
      obtain ⟨entry, hentry, hname⟩ := List.mem_map.mp hmem
      exact absurd hname (of_decide_eq_true (List.mem_filter.mp hentry).2) }

inductive Call
  | add (path : String) (source : Except String String) (validateOnly : Bool)
  | remove (id : String)

inductive Output
  | added (definition : WorkflowDefinition) (validatedOnly : Bool) (path : Option String)
  | removed (id path : String) (builtinStillRegistered : Bool)

def pathOf (env : Env) (name : String) : String := s!"{env.dir}/{name}"

def workflowAdd (env : Env) (io : FileSystem) (dir : Directory) (path : String)
    (source : Except String String) (validateOnly : Bool) :
    Except RuntimeError Output × Directory :=
  match validateAdd env dir path source with
  | .error e => (.error e, dir)
  | .ok (yaml, definition) =>
    if validateOnly then (.ok (.added definition true none), dir)
    else
      match io.createDir with
      | .error e => (.error (.internal s!"Cannot create workflows directory: {e}"), dir)
      | .ok () =>
        let target := fileName definition.id
        match io.write with
        | .error e => (.error (.internal s!"Failed to write '{pathOf env target}': {e}"), dir)
        | .ok position => (.ok (.added definition false (some (pathOf env target))),
            dir.write target yaml position)

def removeError (env : Env) (dir : Directory) (id : String) : RuntimeError :=
  if (registry env dir).keys.any (equalsIgnoreCase · id) then
    withHint s!"'{id}' is a built-in workflow and cannot be removed."
      "Only workflows installed via `ags workflow add` can be removed."
  else withHint s!"Unknown workflow: '{id}'."
    "Run `ags workflow list` to see available workflows."

def workflowRemove (env : Env) (io : FileSystem) (dir : Directory) (id : String) :
    Except RuntimeError Output × Directory :=
  match findExternalWorkflowById env dir id with
  | none => (.error (removeError env dir id), dir)
  | some entry =>
    match io.remove with
    | .error e => (.error (.internal s!"Failed to remove '{pathOf env entry.name}': {e}"), dir)
    | .ok () =>
      let left := dir.without entry.name
      (.ok (.removed id (pathOf env entry.name) (resolve env left id).isSome), left)

def runCall (env : Env) (io : FileSystem) (dir : Directory) :
    Call → Except RuntimeError Output × Directory
  | .add path source validateOnly => workflowAdd env io dir path source validateOnly
  | .remove id => workflowRemove env io dir id

def after (env : Env) (history : List (FileSystem × Call)) (dir : Directory) : Directory :=
  history.foldl (fun dir entry => (runCall env entry.1 dir entry.2).2) dir

section Resolving

variable {env : Env} {dir : Directory}

def provides (env : Env) (id : String) (entry : Entry) : Option WorkflowDefinition :=
  (definitionOf env entry).filter fun definition => definition.id = id

theorem provides_eq_some {entry : Entry} {id : String} {definition : WorkflowDefinition} :
    provides env id entry = some definition ↔
      definitionOf env entry = some definition ∧ definition.id = id := by
  rw [provides, Option.filter_eq_some_iff]
  exact and_congr_right fun _ => decide_eq_true_iff

theorem provides_eq_none {entry : Entry} {id : String}
    (h : ∀ definition, definitionOf env entry = some definition → definition.id ≠ id) :
    provides env id entry = none := by
  refine Option.eq_none_iff_forall_not_mem.mpr fun definition hmem => ?_
  obtain ⟨hdefinition, hid⟩ := provides_eq_some.mp hmem
  exact h definition hdefinition hid

theorem registerExternal_get? (registry : Registry) (entry : Entry) (id : String) :
    (registerExternal env registry entry).get? id =
      (registry.get? id).or (provides env id entry) := by
  rw [registerExternal]
  cases hentry : definitionOf env entry with
  | none =>
    have hnone : provides env id entry = none :=
      provides_eq_none fun definition hsome => by rw [hentry] at hsome; cases hsome
    rw [hnone, Option.or_none]
  | some definition =>
    by_cases hid : id = definition.id
    · subst hid
      rw [provides_eq_some.mpr ⟨hentry, rfl⟩]
      simp only
      split_ifs with hcontained
      · obtain ⟨registered, hregistered⟩ := BTreeMap.contains_eq_true.mp hcontained
        rw [hregistered]
        rfl
      · have hnone : registry.get? definition.id = none := by
          rw [BTreeMap.contains, Bool.not_eq_true, Option.isSome_eq_false_iff] at hcontained
          exact Option.isNone_iff_eq_none.mp hcontained
        rw [BTreeMap.get?_insert_self, hnone]
        rfl
    · have hnone : provides env id entry = none := provides_eq_none fun other hsome => by
        rw [hentry] at hsome
        obtain rfl := Option.some.inj hsome
        exact Ne.symm hid
      rw [hnone, Option.or_none]
      simp only
      split_ifs
      · rfl
      · exact BTreeMap.get?_insert_of_ne _ hid _

/-- Built-ins first, then the first file that provides the id. -/
theorem resolve_eq (env : Env) (dir : Directory) (id : String) :
    resolve env dir id =
      (env.builtins.get? id).or (dir.entries.findSome? (provides env id)) := by
  suffices h : ∀ (entries : List Entry) (registry : Registry),
      (entries.foldl (registerExternal env) registry).get? id =
        (registry.get? id).or (entries.findSome? (provides env id)) from h _ _
  intro entries
  induction entries with
  | nil => exact fun registry => (Option.or_none).symm
  | cons entry rest ih =>
    intro registry
    rw [List.foldl_cons, ih, registerExternal_get?, List.findSome?_cons, Option.or_assoc]
    cases provides env id entry with
    | none => rfl
    | some definition => rfl

theorem resolve_eq_none {id : String} :
    resolve env dir id = none ↔ env.builtins.get? id = none ∧
      ∀ entry ∈ dir.entries, provides env id entry = none := by
  rw [resolve_eq, Option.or_eq_none_iff, List.findSome?_eq_none_iff]

/-- Leaving out files that do not provide the id changes nothing for it. -/
theorem findSome?_without {id name : String} (h : ∀ entry ∈ dir.entries, entry.name = name →
    provides env id entry = none) :
    (dir.without name).entries.findSome? (provides env id) =
      dir.entries.findSome? (provides env id) := by
  obtain ⟨entries, hdistinct⟩ := dir
  have hfilter : ∀ entries : List Entry,
      (∀ entry ∈ entries, entry.name = name → provides env id entry = none) →
      (entries.filter (·.name ≠ name)).findSome? (provides env id) =
        entries.findSome? (provides env id) := by
    intro entries hentries
    induction entries with
    | nil => rfl
    | cons entry rest ih =>
      have hrest := ih fun other hother => hentries other (List.mem_cons_of_mem _ hother)
      by_cases hname : entry.name = name
      · have hnone := hentries entry List.mem_cons_self hname
        rw [List.filter_cons_of_neg (by simp [hname]), hrest, List.findSome?_cons, hnone]
      · rw [List.filter_cons_of_pos (by simp [hname]), List.findSome?_cons, List.findSome?_cons,
          hrest]
  exact hfilter entries h

theorem isYaml_fileName {id : String} (h : id ≠ "") : isYaml (fileName id) = true := by
  have hreversed : (fileName id).toList.reverse = ['l', 'm', 'a', 'y', '.'] ++ id.toList.reverse :=
    by simp [fileName, String.toList_append]
  obtain ⟨c, rest, hid⟩ : ∃ c rest, id.toList.reverse = c :: rest := by
    refine List.exists_cons_of_ne_nil fun hnil => h ?_
    exact String.toList_inj.mp (List.reverse_eq_nil_iff.mp hnil)
  have hext : extension? (fileName id) = some "yaml" := by
    simp only [extension?, hreversed, hid]
    rfl
  rw [isYaml, hext]
  decide

end Resolving

/-- After an add the new id resolves to its definition, and every other id as before, but for the
id of a file that had the new one's name. -/
structure Added (env : Env) (definition : WorkflowDefinition) (before after : Directory) : Prop where
  resolves : resolve env after definition.id = some definition
  others : ∀ id, id ≠ definition.id →
    (∀ entry ∈ before.entries, entry.name = fileName definition.id →
      provides env id entry = none) →
    resolve env after id = resolve env before id

/-- A removal deletes one file, whose id is the one asked for up to case, and every id that is not
a case variant of it resolves as before. -/
structure Removed (env : Env) (id : String) (before after : Directory) : Prop where
  deleted : ∃ above entry below definition, before.entries = above ++ entry :: below ∧
    after.entries = above ++ below ∧ definitionOf env entry = some definition ∧
    equalsIgnoreCase definition.id id = true
  others : ∀ other, equalsIgnoreCase other id = false →
    resolve env after other = resolve env before other

/-- What a call leaves in the directory. -/
def Keeps (env : Env) (call : Call) (before : Directory)
    (result : Except RuntimeError Output × Directory) : Prop :=
  match call, result.1 with
  | .add _ _ false, .ok (.added definition _ _) => Added env definition before result.2
  | .remove id, .ok _ => Removed env id before result.2
  | _, _ => result.2 = before

section Keeping

variable {env : Env} {dir : Directory}

structure Validated (env : Env) (dir : Directory) (yaml : String)
    (definition : WorkflowDefinition) : Prop where
  parsed : ∃ version, env.parse yaml = .ok ⟨definition, version⟩
  allowed : definition.id ≠ ""
  unregistered : resolve env dir definition.id = none

theorem validateAdd_ok {path yaml : String} {source : Except String String}
    {definition : WorkflowDefinition}
    (h : validateAdd env dir path source = .ok (yaml, definition)) :
    Validated env dir yaml definition := by
  obtain ⟨text, -, h⟩ := Checks.bind_eq_ok.mp h
  obtain ⟨parsed, hparsed, h⟩ := Checks.bind_eq_ok.mp h
  obtain ⟨_, -, h⟩ := Checks.bind_eq_ok.mp h
  obtain ⟨_, hid, h⟩ := Checks.bind_eq_ok.mp h
  obtain ⟨_, -, h⟩ := Checks.bind_eq_ok.mp h
  obtain ⟨_, hunregistered, h⟩ := Checks.bind_eq_ok.mp h
  obtain ⟨rfl, rfl⟩ := Prod.mk.inj (Except.ok.inj h)
  refine ⟨⟨parsed.workflowProtocolVersion, Checks.mapError_eq_ok.mp hparsed⟩, ?_, ?_⟩
  · intro hempty
    rw [validateWorkflowId, hempty] at hid
    cases hid
  · rw [validateUnregistered] at hunregistered
    split at hunregistered
    · next hnone =>
      cases hget : resolve env dir parsed.definition.id with
      | none => rfl
      | some registered =>
        have hkey : parsed.definition.id ∈ (registry env dir).keys :=
          BTreeMap.mem_keys.mpr (Option.isSome_of_eq_some hget)
        exact absurd (decide_eq_true rfl) (List.find?_eq_none.mp hnone _ hkey)
    · cases hunregistered

theorem added_write {yaml : String} {definition : WorkflowDefinition} (position : Nat)
    (h : Validated env dir yaml definition) :
    Added env definition dir (dir.write (fileName definition.id) yaml position) := by
  obtain ⟨version, hparse⟩ := h.parsed
  have hnew : definitionOf env ⟨fileName definition.id, some yaml⟩ = some definition := by
    simp only [definitionOf, isYaml_fileName h.allowed, if_true, Option.bind_some, hparse]
    rfl
  obtain ⟨hbuiltin, hnone⟩ := resolve_eq_none.mp h.unregistered
  have hfree : ∀ entry ∈ (dir.without (fileName definition.id)).entries,
      provides env definition.id entry = none :=
    fun entry hentry => hnone entry (List.mem_filter.mp hentry).1
  constructor
  · have habove := List.findSome?_eq_none_iff.mpr fun entry hentry =>
      hfree entry (List.mem_of_mem_take (i := position) hentry)
    rw [resolve_eq, hbuiltin, Directory.write, List.findSome?_append, habove, List.findSome?_cons,
      provides_eq_some.mpr ⟨hnew, rfl⟩]
    rfl
  · intro id hid hreplaced
    have hother : provides env id ⟨fileName definition.id, some yaml⟩ = none :=
      provides_eq_none fun other hsome => by
        rw [hnew] at hsome
        obtain rfl := Option.some.inj hsome
        exact hid.symm
    have hskip : ∀ above below : List Entry, (above ++ ⟨fileName definition.id, some yaml⟩ ::
        below).findSome? (provides env id) = (above ++ below).findSome? (provides env id) := by
      intro above below
      rw [List.findSome?_append, List.findSome?_append, List.findSome?_cons, hother]
    rw [resolve_eq, resolve_eq, Directory.write, hskip, List.take_append_drop,
      findSome?_without hreplaced]

/-- Leaving out a name takes out the one file of that name. -/
theorem without_split {above below : List Entry} {entry : Entry}
    (h : dir.entries = above ++ entry :: below) :
    (dir.without entry.name).entries = above ++ below := by
  have hdistinct := dir.distinct
  rw [h, List.map_append, List.map_cons] at hdistinct
  obtain ⟨-, hbelow, hdisjoint⟩ := List.nodup_append.mp hdistinct
  have hkeep : ∀ (entries : List Entry), (∀ other ∈ entries, other.name ≠ entry.name) →
      entries.filter (·.name ≠ entry.name) = entries :=
    fun entries hne => List.filter_eq_self.mpr fun other hother => by simp [hne other hother]
  have hentries : (dir.without entry.name).entries =
      dir.entries.filter (·.name ≠ entry.name) := rfl
  rw [hentries, h, List.filter_append, List.filter_cons_of_neg (by simp),
    hkeep above fun other hother => hdisjoint _ (List.mem_map_of_mem hother) _ List.mem_cons_self,
    hkeep below fun other hother heq => (List.nodup_cons.mp hbelow).1
      (heq ▸ List.mem_map_of_mem hother)]

theorem removed_without {id : String} {entry : Entry}
    (h : findExternalWorkflowById env dir id = some entry) :
    Removed env id dir (dir.without entry.name) := by
  obtain ⟨hfound, above, below, hentries, -⟩ := List.find?_eq_some_iff_append.mp h
  obtain ⟨definition, hdefinition, hid⟩ : ∃ definition, definitionOf env entry = some definition ∧
      equalsIgnoreCase definition.id id = true := by
    cases hdefinition : definitionOf env entry with
    | none =>
      rw [hdefinition] at hfound
      cases hfound
    | some definition =>
      rw [hdefinition] at hfound
      exact ⟨definition, rfl, hfound⟩
  refine ⟨⟨above, entry, below, definition, hentries, without_split hentries, hdefinition, hid⟩, ?_⟩
  intro other hother
  rw [resolve_eq, resolve_eq, findSome?_without]
  intro same hsame hname
  have hentry : entry ∈ dir.entries := by
    rw [hentries]
    exact List.mem_append_right _ List.mem_cons_self
  obtain rfl : same = entry := List.inj_on_of_nodup_map dir.distinct hsame hentry hname
  refine provides_eq_none fun provided hprovided heq => ?_
  rw [hdefinition] at hprovided
  obtain rfl := Option.some.inj hprovided
  rw [heq, hother] at hid
  cases hid

theorem runCall_keeps (env : Env) (io : FileSystem) (dir : Directory) (call : Call) :
    Keeps env call dir (runCall env io dir call) := by
  cases call with
  | add path source validateOnly =>
    rw [runCall, workflowAdd]
    cases hvalid : validateAdd env dir path source with
    | error e => cases validateOnly <;> rfl
    | ok validated =>
      obtain ⟨yaml, definition⟩ := validated
      cases validateOnly with
      | true => rfl
      | false =>
        simp only [Bool.false_eq_true, if_false]
        cases io.createDir with
        | error e => rfl
        | ok _ =>
          cases io.write with
          | error e => rfl
          | ok position => exact added_write position (validateAdd_ok hvalid)
  | remove id =>
    rw [runCall, workflowRemove]
    cases hfound : findExternalWorkflowById env dir id with
    | none => rfl
    | some entry =>
      cases hremove : io.remove with
      | error e =>
        rfl
      | ok _ =>
        exact removed_without hfound

/-- Whatever was called before, a call keeps the store: an add loses at most the workflow of the
file it replaces, a removal only the workflow asked for, an error and a validation nothing. -/
theorem store_kept (env : Env) (dir : Directory) (history : List (FileSystem × Call))
    (io : FileSystem) (call : Call) :
    Keeps env call (after env history dir) (runCall env io (after env history dir) call) :=
  runCall_keeps env io (after env history dir) call

end Keeping

section Histories

variable {env : Env} {id : String}

/-- A call that neither removes a case variant of the id nor replaces a file that provides it. -/
def Spares (env : Env) (id : String) (dir : Directory) : Call → Prop
  | .remove other => equalsIgnoreCase id other = false
  | .add path source _ => ∀ yaml definition, validateAdd env dir path source = .ok (yaml, definition) →
      ∀ entry ∈ dir.entries, entry.name = fileName definition.id → provides env id entry = none

def AllSpare (env : Env) (id : String) : List (FileSystem × Call) → Directory → Prop
  | [], _ => True
  | (io, call) :: rest, dir =>
    Spares env id dir call ∧ AllSpare env id rest (runCall env io dir call).2

theorem spared_call {dir : Directory} {definition : WorkflowDefinition} (io : FileSystem)
    {call : Call} (hspares : Spares env id dir call) (h : resolve env dir id = some definition) :
    resolve env (runCall env io dir call).2 id = some definition := by
  cases call with
  | add path source validateOnly =>
    rw [runCall, workflowAdd]
    cases hvalid : validateAdd env dir path source with
    | error e => exact h
    | ok validated =>
      obtain ⟨yaml, new⟩ := validated
      have hvalidated := validateAdd_ok hvalid
      have hid : id ≠ new.id := by
        rintro rfl
        rw [hvalidated.unregistered] at h
        cases h
      cases validateOnly with
      | true => exact h
      | false =>
        simp only [Bool.false_eq_true, if_false]
        cases io.createDir with
        | error e => exact h
        | ok _ =>
          cases io.write with
          | error e => exact h
          | ok position =>
            exact ((added_write position hvalidated).others id hid
              (hspares yaml new hvalid)).trans h
  | remove other =>
    rw [runCall, workflowRemove]
    cases hfound : findExternalWorkflowById env dir other with
    | none => exact h
    | some entry =>
      cases io.remove with
      | error e => exact h
      | ok _ => exact ((removed_without hfound).others id hspares).trans h

/-- A workflow stays what its id resolves to through calls that spare it. -/
theorem spared_history {history : List (FileSystem × Call)} {dir : Directory}
    {definition : WorkflowDefinition} (hspares : AllSpare env id history dir)
    (h : resolve env dir id = some definition) :
    resolve env (after env history dir) id = some definition := by
  induction history generalizing dir with
  | nil => exact h
  | cons entry rest ih => exact ih hspares.2 (spared_call entry.1 hspares.1 h)

end Histories

section Concrete

def probeYaml : String :=
  "id: Probe\nname: Probe\nworkflow_protocol_version: \"0.1.0\"\nsteps: []\n"

def probeDefinition : WorkflowDefinition :=
  { id := "Probe", name := "Probe", briefing := none, inputs := [], isReviewedByDefault := true
    steps := [], outputs := [], completion := none }

def probeEnv : Env :=
  { dir := "workflows"
    parse := fun text => if text = probeYaml then .ok ⟨probeDefinition, some "0.1.0"⟩
      else .error "invalid type"
    isSemver := fun version => version = "0.1.0"
    builtins := .empty
    catalogue := ⟨fun service => .error (.internal service)⟩ }

def probeDir : Directory := ⟨[⟨"Probe.yaml", some probeYaml⟩], List.nodup_singleton _⟩

def workingFileSystem : FileSystem := ⟨.ok (), .ok 0, .ok ()⟩

/-- Asked for `probe`, a removal deletes the file of `Probe`, which no longer resolves. -/
theorem remove_takes_case_variant :
    resolve probeEnv probeDir "Probe" = some probeDefinition ∧
    resolve probeEnv probeDir "probe" = none ∧
    (∃ output, (runCall probeEnv workingFileSystem probeDir (.remove "probe")).1 = .ok output) ∧
    resolve probeEnv (runCall probeEnv workingFileSystem probeDir (.remove "probe")).2 "Probe" =
      none :=
  ⟨rfl, rfl, ⟨_, rfl⟩, rfl⟩

end Concrete

end ExternalStore
