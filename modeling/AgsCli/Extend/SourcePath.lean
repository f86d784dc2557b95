import AgsCli.Extend.CsmApi
import AgsCli.Library.FileTrees
import AgsCli.Upload.Directory

/-! # Extracting a source path

`extract_source_path`: a directory of a clone staged beside it, the clone removed, and the entries
moved back; with a file system any call of which may fail. -/
namespace SourcePath

open Strings CsmApi FileTrees
open UploadDirectory (Name nameOf lossy)

inductive Call
  | canonicalizeDestination
  | canonicalizeSource
  | metadata
  | tempdir
  | readSource
  | sourceEntry (name : Name)
  | sourceEnd
  | stage (name : Name)
  | removeDestination
  | createDestination
  | readStage
  | stagedEntry (name : Name)
  | stagedEnd
  | moveBack (name : Name)
  deriving DecidableEq

structure IoError where
  notFound : Bool
  text : String
  deriving DecidableEq

/-- What is not decided by the entries: which calls fail, the name of the staging directory, the
order of a directory's listing, and what a removal that fails has left. -/
structure Host where
  fails : Call → Option IoError
  resolveText : ResolveError → String
  renameText : String
  freshName : Name
  order : NodePath Name → List Name → List Name
  order_perm : ∀ dir names, (order dir names).Perm names
  keeps : NodePath Name → Bool
  dropKeeps : NodePath Name → Bool

/-- The entries, and the paths that were listed or moved from. -/
structure Disk where
  nodes : Nodes Name
  touched : List (NodePath Name)

def usageError (message suggestion : String) : CliError :=
  .usage message (some (.withSuggestion suggestion))

def MAX_LINKS : Nat := 40

section Paths

def written (text : String) : Written Name :=
  { absolute := (stripPrefix? "/" text).isSome
    parts := (splitOn '/' text).map fun part =>
      if part = "" ∨ part = "." then .here else if part = ".." then .up else .name (nameOf part) }

def namesOf (path : NodePath Name) : List (PathPart Name) := path.map .name

variable (host : Host) (cwd : NodePath Name)

def canonicalize (call : Call) (path : Written Name) (nodes : Nodes Name) :
    Except IoError (NodePath Name) :=
  match host.fails call with
  | some e => .error e
  | none =>
    let start := if path.absolute then [] else namesOf cwd
    match resolve nodes MAX_LINKS [] (start ++ path.parts) with
    | .ok resolved => .ok resolved
    | .error e => .error ⟨e = .notFound, host.resolveText e⟩

/-- The checks of `extract_source_path`: the absolute paths of the destination and the source. -/
def checkedPaths (destination : Written Name) (sourcePath : String) (nodes : Nodes Name) :
    Except CliError (NodePath Name × NodePath Name) :=
  let trimmed := trim sourcePath
  if trimmed = "" then
    .error (usageError "Source path cannot be empty"
      "Provide a non-empty relative path inside the repository")
  else if (written trimmed).absolute then
    .error (usageError s!"Source path must be relative: {sourcePath}"
      "Use a relative path like 'templates/react'")
  else if trimmed = ".." ∨ (stripPrefix? "../" trimmed).isSome then
    .error (usageError s!"Source path cannot traverse outside destination: {sourcePath}"
      "Use a path that stays within the cloned repository")
  else match canonicalize host cwd .canonicalizeDestination destination nodes with
  | .error e => .error (.internal s!"Failed to resolve destination: {e.text}")
  | .ok destinationAbs =>
    match canonicalize host cwd .canonicalizeSource
        ⟨true, namesOf destinationAbs ++ (written trimmed).parts⟩ nodes with
    | .error e =>
      if e.notFound then
        .error (usageError s!"Source path does not exist in repository: {sourcePath}"
          "Check that the path exists in the cloned repository")
      else .error (.internal s!"Failed to resolve source path: {e.text}")
    | .ok sourceAbs =>
      if ¬destinationAbs <+: sourceAbs then
        .error (usageError s!"Source path cannot traverse outside destination: {sourcePath}"
          "Use a path that stays within the cloned repository")
      else match host.fails .metadata with
      | some e => .error (.internal s!"Failed to inspect source path: {e.text}")
      | none =>
        if (sourceAbs, Node.dir) ∉ nodes then
          .error (usageError s!"Source path must be a directory: {sourcePath}"
            "Point to a directory inside the cloned repository, not a file")
        else .ok (destinationAbs, sourceAbs)

end Paths

section Moves

structure Moves where
  entryCall : Name → Call
  endCall : Call
  renameCall : Name → Call
  entryText : String → CliError
  renameText : String → String → CliError

def staging : Moves where
  entryCall := .sourceEntry
  endCall := .sourceEnd
  renameCall := .stage
  entryText e := .internal s!"Failed to read directory entry: {e}"
  renameText name e := .internal s!"Failed to stage '{name}': {e}"

def movingBack : Moves where
  entryCall := .stagedEntry
  endCall := .stagedEnd
  renameCall := .moveBack
  entryText e := .internal s!"Failed to read staged entry: {e}"
  renameText name e := .internal s!"Failed to move staged entry '{name}' to destination: {e}"

variable (host : Host)

def moveEntries (moves : Moves) (source target : NodePath Name) :
    List Name → Disk → Except CliError Unit × Disk
  | [], disk =>
    -- the listing is read once more to find its end
    match host.fails moves.endCall with
    | some e => (.error (moves.entryText e.text), disk)
    | none => (.ok (), disk)
  | name :: rest, disk =>
    match host.fails (moves.entryCall name) with
    | some e => (.error (moves.entryText e.text), disk)
    | none =>
      let disk := { disk with touched := (source ++ [name]) :: disk.touched }
      match host.fails (moves.renameCall name) with
      | some e => (.error (moves.renameText (lossy name) e.text), disk)
      | none =>
        match rename (source ++ [name]) (target ++ [name]) disk.nodes with
        | none => (.error (moves.renameText (lossy name) host.renameText), disk)
        | some nodes => moveEntries moves source target rest { disk with nodes }

def readDir (dir : NodePath Name) (disk : Disk) : List Name × Disk :=
  (host.order dir (children disk.nodes dir), { disk with touched := dir :: disk.touched })

/-- What is done once the entries are staged. -/
def clearAndMoveBack (destination stage : NodePath Name) (disk : Disk) :
    Except CliError Unit × Disk :=
  match host.fails .removeDestination with
  | some e =>
    (.error (.internal s!"Failed to remove cloned repository: {e.text}"),
      { disk with nodes := disk.nodes.filter fun e => ¬destination <+: e.1 ∨ host.keeps e.1 })
  | none =>
    let disk := { disk with nodes := removeAll destination disk.nodes }
    match host.fails .createDestination with
    | some e => (.error (.internal s!"Failed to recreate destination directory: {e.text}"), disk)
    | none =>
      let disk := { disk with nodes := disk.nodes ++ [(destination, .dir)] }
      match host.fails .readStage with
      | some e => (.error (.internal s!"Failed to read staged contents: {e.text}"), disk)
      | none =>
        let (entries, disk) := readDir host stage disk
        moveEntries host movingBack stage destination entries disk

/-- What is done once the staging directory is there. -/
def staged (destination source stage : NodePath Name) (disk : Disk) : Except CliError Unit × Disk :=
  match host.fails .readSource with
  | some e => (.error (.internal s!"Failed to read source path contents: {e.text}"), disk)
  | none =>
    let (entries, disk) := readDir host source disk
    match moveEntries host staging source stage entries disk with
    | (.error e, disk) => (.error e, disk)
    | (.ok (), disk) => clearAndMoveBack host destination stage disk

/-- The staging directory goes when the call returns. -/
def dropStage (stage : NodePath Name) (disk : Disk) : Disk :=
  { disk with nodes := disk.nodes.filter fun e => ¬stage <+: e.1 ∨ host.dropKeeps e.1 }

def stagePath (destination : NodePath Name) : NodePath Name :=
  destination.dropLast ++ [host.freshName]

def replaceDestination (destination source : NodePath Name) (disk : Disk) :
    Except CliError Unit × Disk :=
  if destination = [] then (.error (.internal "Destination has no parent directory"), disk)
  else match host.fails .tempdir with
  | some e => (.error (.internal s!"Failed to create staging directory: {e.text}"), disk)
  | none =>
    let stage := stagePath host destination
    if stage ∈ paths disk.nodes then
      (.error (.internal s!"Failed to create staging directory: {host.renameText}"), disk)
    else
      let (result, disk) := staged host destination source stage
        { disk with nodes := disk.nodes ++ [(stage, .dir)] }
      (result, dropStage host stage disk)

def extractSourcePath (cwd : NodePath Name) (destination : Written Name) (sourcePath : String)
    (nodes : Nodes Name) : Except CliError Unit × Disk :=
  match checkedPaths host cwd destination sourcePath nodes with
  | .error e => (.error e, ⟨nodes, []⟩)
  | .ok (destinationAbs, sourceAbs) => replaceDestination host destinationAbs sourceAbs ⟨nodes, []⟩

end Moves

section Spec

variable (host : Host) (cwd : NodePath Name) (tree : FileTree Name)

def leadsTo (path : Written Name) : Except ResolveError (NodePath Name) :=
  resolve tree.nodes MAX_LINKS [] ((if path.absolute then [] else namesOf cwd) ++ path.parts)

/-- The destination holds what the source directory held, and nothing else. -/
structure Replaced (before after : Nodes Name) (destination source : NodePath Name) : Prop where
  inside : destination <+: source
  dir : (destination, Node.dir) ∈ after
  entries : ∀ path node, path ≠ [] →
    ((destination ++ path, node) ∈ after ↔ (source ++ path, node) ∈ before)

structure AllOrNothing (destination : Written Name) (sourcePath : String)
    (result : Except CliError Unit × Disk) : Prop where
  ok : result.1 = .ok () → ∃ destinationAbs sourceAbs,
    leadsTo cwd tree destination = .ok destinationAbs ∧
    leadsTo cwd tree ⟨true, namesOf destinationAbs ++ (written (trim sourcePath)).parts⟩ =
      .ok sourceAbs ∧
    Replaced tree.nodes result.2.nodes destinationAbs sourceAbs
  error : ∀ e, result.1 = .error e → ∀ destinationAbs,
    leadsTo cwd tree destination = .ok destinationAbs →
      ∀ id ∈ filesUnder destinationAbs tree.nodes, id ∈ filesUnder destinationAbs result.2.nodes
  outside : ∀ destinationAbs, leadsTo cwd tree destination = .ok destinationAbs →
    ∀ e ∈ tree.nodes, ¬destinationAbs <+: e.1 → e ∈ result.2.nodes
  touched : ∀ path ∈ result.2.touched, ∃ destinationAbs,
    leadsTo cwd tree destination = .ok destinationAbs ∧ (destinationAbs <+: path ∨
      stagePath host destinationAbs <+: path ∧
        ∀ e ∈ tree.nodes, ¬stagePath host destinationAbs <+: e.1)

/-- No call fails for an entry. -/
def goes (moves : Moves) (name : Name) : Bool :=
  (host.fails (moves.entryCall name)).isNone && (host.fails (moves.renameCall name)).isNone

/-- A loop stops at a call that fails for an entry, or at the end of the listing. -/
def Stops (moves : Moves) (names : List Name) : Prop :=
  (names.takeWhile (goes host moves)).length < names.length ∨ (host.fails moves.endCall).isSome

instance (moves : Moves) (names : List Name) : Decidable (Stops host moves names) :=
  inferInstanceAs (Decidable (_ ∨ _))

def listed (source : NodePath Name) : List Name := host.order source (children tree.nodes source)

def listedBack (source stage : NodePath Name) : List Name :=
  host.order stage (children tree.nodes source)

/-- The entries staged, and those moved back, before a call fails. -/
def stagedEntries (source : NodePath Name) : List Name :=
  (listed host tree source).takeWhile (goes host staging)

def movedBack (source stage : NodePath Name) : List Name :=
  (listedBack host tree source stage).takeWhile (goes host movingBack)

/-- The calls fail where no file is away from the destination: none was staged or removed, or all
are moved back. -/
def FailsHarmlessly (destination source : NodePath Name) : Prop :=
  let stage := stagePath host destination
  if (host.fails .readSource).isSome then True
  else if Stops host staging (listed host tree source) then
    ∀ name ∈ stagedEntries host tree source, filesUnder (source ++ [name]) tree.nodes = []
  else if (host.fails .removeDestination).isSome then
    filesUnder source tree.nodes = [] ∧
      ∀ e ∈ tree.nodes, destination <+: e.1 → e.2 ≠ .dir → host.keeps e.1
  else if (host.fails .createDestination).isSome ∨ (host.fails .readStage).isSome then
    filesUnder destination tree.nodes = []
  else Stops host movingBack (listedBack host tree source stage) →
    ∀ e ∈ tree.nodes, destination <+: e.1 → e.2 ≠ .dir →
      ∃ name ∈ movedBack host tree source stage, source ++ [name] <+: e.1

/-- Before anything is moved the checks fail, or no staging directory can be made. -/
def Unstarted (destination : NodePath Name) : Prop :=
  destination = [] ∨ (host.fails .tempdir).isSome ∨ stagePath host destination ∈ paths tree.nodes

end Spec

section Loops

variable (host : Host)

theorem moveEntries_spec (moves : Moves) {source target : NodePath Name} {names : List Name}
    (disk : Disk) (hmovable : Movable disk.nodes source target names) (hnodup : names.Nodup)
    (hapart : Apart source target) :
    (moveEntries host moves source target names disk).2.nodes = disk.nodes.map (fun e =>
      (relocateAll source target (names.takeWhile (goes host moves)) e.1, e.2)) ∧
    ((moveEntries host moves source target names disk).1 = .ok () ↔
      ¬Stops host moves names) ∧
    ∀ path ∈ (moveEntries host moves source target names disk).2.touched,
      path ∈ disk.touched ∨ source <+: path := by
  induction names generalizing disk with
  | nil =>
    have hkept : ∀ path ∈ disk.touched, path ∈ disk.touched ∨ source <+: path :=
      fun _ hpath => Or.inl hpath
    unfold moveEntries Stops
    cases host.fails moves.endCall <;> simpa [relocateAll] using hkept
  | cons name rest ih =>
    have hnone : disk.nodes = disk.nodes.map fun e => (relocateAll source target [] e.1, e.2) := by
      simp [relocateAll]
    cases hentry : host.fails (moves.entryCall name) with
    | some e =>
      have hgoes : goes host moves name = false := by simp [goes, hentry]
      simp only [moveEntries, Stops, hentry,
        List.takeWhile_cons_of_neg (ne_true_of_eq_false hgoes)]
      exact ⟨hnone, by simp, fun path hpath => Or.inl hpath⟩
    | none =>
      cases hrename : host.fails (moves.renameCall name) with
      | some e =>
        have hgoes : goes host moves name = false := by simp [goes, hentry, hrename]
        simp only [moveEntries, Stops, hentry, hrename,
          List.takeWhile_cons_of_neg (ne_true_of_eq_false hgoes)]
        refine ⟨hnone, by simp, ?_⟩
        intro path hpath
        rcases List.mem_cons.mp hpath with rfl | hpath
        · exact Or.inr (List.prefix_append _ _)
        · exact Or.inl hpath
      | none =>
        have hgoes : goes host moves name = true := by simp [goes, hentry, hrename]
        obtain ⟨hnodes, hresult, htouched⟩ := ih
          ⟨move (source ++ [name]) (target ++ [name]) disk.nodes,
            (source ++ [name]) :: disk.touched⟩
          (hmovable.tail hnodup hapart) (List.nodup_cons.mp hnodup).2
        simp only [moveEntries, Stops, hentry, hrename, hmovable.rename_eq hapart,
          List.takeWhile_cons_of_pos hgoes]
        refine ⟨?_, ?_, ?_⟩
        · rw [hnodes, move, List.map_map]
          refine List.map_congr_left fun e _ => ?_
          simp only [Function.comp_apply, relocateAll_cons hapart]
        · rw [hresult]
          simp [Stops]
        · intro path hpath
          rcases htouched path hpath with hpath | hpath
          · rcases List.mem_cons.mp hpath with rfl | hpath
            · exact Or.inr (List.prefix_append _ _)
            · exact Or.inl hpath
          · exact Or.inr hpath

end Loops

section Places

/-- A checked destination and source with a new staging directory beside. -/
structure Placed (host : Host) (tree : FileTree Name) (destination source : NodePath Name) :
    Prop where
  inside : destination <+: source
  dir : (source, Node.dir) ∈ tree.nodes
  nonroot : destination ≠ []
  free : stagePath host destination ∉ paths tree.nodes

variable {host : Host} {tree : FileTree Name} {destination source : NodePath Name}

theorem length_stagePath (host : Host) (h : destination ≠ []) :
    (stagePath host destination).length = destination.length := by
  have hpos := List.length_pos_of_ne_nil h
  simp only [stagePath, List.length_append, List.length_dropLast, List.length_singleton]
  omega

namespace Placed

variable (h : Placed host tree destination source)
include h

theorem source_mem : source ∈ paths tree.nodes := List.mem_map.mpr ⟨_, h.dir, rfl⟩

theorem destination_mem : destination ∈ paths tree.nodes :=
  tree.dir_of_below h.source_mem h.inside

/-- Nothing is in the staging directory. -/
theorem none_below {path : NodePath Name} (hpath : path ∈ paths tree.nodes) :
    ¬stagePath host destination <+: path := fun hstage => h.free (tree.dir_of_below hpath hstage)

theorem apart : Apart destination (stagePath host destination) := by
  have hlength := length_stagePath host h.nonroot
  refine ⟨fun hp => ?_, h.none_below h.destination_mem⟩
  have heq := hp.eq_of_length hlength.symm
  exact h.free (heq ▸ h.destination_mem)

theorem apart_source : Apart source (stagePath host destination) :=
  ⟨fun hp => h.apart.left (h.inside.trans hp), h.none_below h.source_mem⟩

theorem source_child_apart (n : Name) :
    ¬source ++ [n] <+: stagePath host destination ∧ ¬source ++ [n] <+: destination := by
  refine ⟨fun hp => h.apart_source.left ((child_below source).trans hp), fun hp => ?_⟩
  have hlong := hp.length_le
  have hshort := h.inside.length_le
  simp only [List.length_append, List.length_singleton] at hlong
  omega

theorem stage_child_apart (n : Name) :
    ¬stagePath host destination ++ [n] <+: stagePath host destination ∧
      ¬stagePath host destination ++ [n] <+: destination := by
  refine ⟨fun hp => ?_, fun hp => h.apart.right ((child_below _).trans hp)⟩
  have hlong := hp.length_le
  simp only [List.length_append, List.length_singleton] at hlong
  omega

theorem relocateAll_fixed (names : List Name) :
    relocateAll source (stagePath host destination) names (stagePath host destination) =
        stagePath host destination ∧
      relocateAll source (stagePath host destination) names destination = destination ∧
      relocateAll (stagePath host destination) destination names (stagePath host destination) =
        stagePath host destination ∧
      relocateAll (stagePath host destination) destination names destination = destination := by
  refine ⟨if_neg ?_, if_neg ?_, if_neg ?_, if_neg ?_⟩
  · rintro ⟨n, -, hn⟩
    exact (h.source_child_apart n).1 hn
  · rintro ⟨n, -, hn⟩
    exact (h.source_child_apart n).2 hn
  · rintro ⟨n, -, hn⟩
    exact (h.stage_child_apart n).1 hn
  · rintro ⟨n, -, hn⟩
    exact (h.stage_child_apart n).2 hn

end Placed

end Places

section Outcomes

variable {host : Host} {tree : FileTree Name} {destination source : NodePath Name}

/-- The entries that a tree leaves, by where each path has gone; and the two directories made. -/
structure Outcome (host : Host) (tree : FileTree Name) (destination : NodePath Name)
    (after : Nodes Name) (goesTo : NodePath Name → Option (NodePath Name)) : Prop where
  sound : ∀ path node, (path, node) ∈ after →
    (∃ before, (before, node) ∈ tree.nodes ∧ goesTo before = some path) ∨
      node = .dir ∧ (path = stagePath host destination ∨ path = destination)
  complete : ∀ before node path, (before, node) ∈ tree.nodes → goesTo before = some path →
    (path, node) ∈ after

theorem Outcome.start :
    Outcome host tree destination (tree.nodes ++ [(stagePath host destination, .dir)]) some := by
  refine ⟨?_, ?_⟩
  · intro path node hmem
    rcases List.mem_append.mp hmem with hmem | hmem
    · exact Or.inl ⟨path, hmem, rfl⟩
    · obtain ⟨rfl, rfl⟩ := Prod.mk.injEq .. ▸ List.mem_singleton.mp hmem
      exact Or.inr ⟨rfl, Or.inl rfl⟩
  · rintro before node path hmem hpath
    cases hpath
    exact List.mem_append_left _ hmem

variable {after : Nodes Name} {goesTo : NodePath Name → Option (NodePath Name)}

theorem Outcome.map (h : Outcome host tree destination after goesTo)
    {f : NodePath Name → NodePath Name}
    (hstage : f (stagePath host destination) = stagePath host destination)
    (hdestination : f destination = destination) :
    Outcome host tree destination (after.map fun e => (f e.1, e.2))
      fun path => (goesTo path).map f := by
  refine ⟨?_, ?_⟩
  · intro path node hmem
    obtain ⟨⟨path', node'⟩, he, heq⟩ := List.mem_map.mp hmem
    obtain ⟨rfl, rfl⟩ := Prod.mk.injEq .. ▸ heq
    rcases h.sound path' node' he with ⟨before, hbefore, hgoes⟩ | ⟨rfl, rfl | rfl⟩
    · exact Or.inl ⟨before, hbefore, by rw [hgoes]; rfl⟩
    · exact Or.inr ⟨rfl, Or.inl hstage⟩
    · exact Or.inr ⟨rfl, Or.inr hdestination⟩
  · intro before node path hmem hgoes
    obtain ⟨path', hpath', rfl⟩ := Option.map_eq_some_iff.mp hgoes
    exact List.mem_map.mpr ⟨_, h.complete before node path' hmem hpath', rfl⟩

theorem Outcome.filter (h : Outcome host tree destination after goesTo)
    (p : NodePath Name → Bool) :
    Outcome host tree destination (after.filter fun e => p e.1)
      fun path => (goesTo path).filter p := by
  refine ⟨?_, ?_⟩
  · intro path node hmem
    obtain ⟨he, hp⟩ := List.mem_filter.mp hmem
    rcases h.sound path node he with ⟨before, hbefore, hgoes⟩ | hnew
    · exact Or.inl ⟨before, hbefore, by rw [hgoes, Option.filter_some_pos hp]⟩
    · exact Or.inr hnew
  · intro before node path hmem hgoes
    obtain ⟨hpath, hp⟩ := Option.filter_eq_some_iff.mp hgoes
    exact List.mem_filter.mpr ⟨h.complete before node path hmem hpath, hp⟩

theorem Outcome.append (h : Outcome host tree destination after goesTo) :
    Outcome host tree destination (after ++ [(destination, .dir)]) goesTo := by
  refine ⟨?_, fun before node path hmem hgoes =>
    List.mem_append_left _ (h.complete before node path hmem hgoes)⟩
  intro path node hmem
  rcases List.mem_append.mp hmem with hmem | hmem
  · exact h.sound path node hmem
  · obtain ⟨rfl, rfl⟩ := Prod.mk.injEq .. ▸ List.mem_singleton.mp hmem
    exact Or.inr ⟨rfl, Or.inr rfl⟩

/-- Files are kept where each has gone to a place below the destination. -/
theorem Outcome.kept_iff (h : Outcome host tree destination after goesTo) :
    (∀ id ∈ filesUnder destination tree.nodes, id ∈ filesUnder destination after) ↔
      ∀ e ∈ tree.nodes, destination <+: e.1 → e.2 ≠ .dir →
        ∃ path, goesTo e.1 = some path ∧ destination <+: path := by
  constructor
  · intro hkept e he hunder hfile
    obtain ⟨id, hid⟩ := id_of_file hfile
    obtain ⟨⟨path, node⟩, hafter, hpath, hid'⟩ :=
      mem_filesUnder.mp (hkept id (mem_filesUnder.mpr ⟨e, he, hunder, hid⟩))
    rcases h.sound path node hafter with ⟨before, hbefore, hgoes⟩ | ⟨hdir, -⟩
    · have heq := eq_of_id tree.ids_nodup he hbefore hid hid'
      exact ⟨path, by rw [heq, hgoes], hpath⟩
    · cases hdir
      cases hid'
  · intro hgo id hid
    obtain ⟨e, he, hunder, hid⟩ := mem_filesUnder.mp hid
    obtain ⟨path, hgoes, hpath⟩ := hgo e he hunder (file_of_id hid)
    exact mem_filesUnder.mpr ⟨(path, e.2), h.complete e.1 e.2 path he hgoes, hpath, hid⟩

end Outcomes

section Phases

variable {host : Host} {tree : FileTree Name} {destination source : NodePath Name}

def withStage (host : Host) (tree : FileTree Name) (destination : NodePath Name) : Nodes Name :=
  tree.nodes ++ [(stagePath host destination, .dir)]

def stagedNodes (host : Host) (tree : FileTree Name) (destination source : NodePath Name)
    (names : List Name) : Nodes Name :=
  (withStage host tree destination).map fun e =>
    (relocateAll source (stagePath host destination) names e.1, e.2)

/-- All staged, and the destination made anew. -/
def recreated (host : Host) (tree : FileTree Name) (destination source : NodePath Name)
    (names : List Name) : Nodes Name :=
  removeAll destination (stagedNodes host tree destination source names) ++ [(destination, .dir)]

theorem mem_withStage {path : NodePath Name} : path ∈ paths (withStage host tree destination) ↔
    path ∈ paths tree.nodes ∨ path = stagePath host destination := by
  simp [withStage, paths]

theorem below_names {names : List Name} (hnames : names.Perm (children tree.nodes source))
    {path : NodePath Name} (hpath : path ∈ paths tree.nodes) (hne : path ≠ source) :
    (∃ n ∈ names, source ++ [n] <+: path) ↔ source <+: path := by
  constructor
  · rintro ⟨n, -, hn⟩
    exact (child_below source).trans hn
  · intro hsource
    obtain ⟨n, hn, hp⟩ := tree.below_child hpath hsource hne
    exact ⟨n, hnames.mem_iff.mpr hn, hp⟩

theorem nameIn_append (dir rest : NodePath Name) :
    nameIn dir (dir ++ rest) = if rest.length = 1 then rest.head? else none := by
  unfold nameIn
  cases rest with
  | nil =>
    rw [List.append_nil, if_neg, if_neg (by simp)]
    rintro ⟨hne, heq⟩
    have hlength := congrArg List.length heq
    have hpos := List.length_pos_of_ne_nil hne
    rw [List.length_dropLast] at hlength
    omega
  | cons n rest =>
    cases rest with
    | nil => simp
    | cons k rest =>
      rw [if_neg, if_neg (by simp)]
      rintro ⟨-, heq⟩
      have hlength := congrArg List.length heq
      simp at hlength

theorem prefix_of_nameIn {dir path : NodePath Name} {n : Name} (h : nameIn dir path = some n) :
    path = dir ++ [n] := by
  unfold nameIn at h
  split_ifs at h with hin
  rw [← hin.2, List.dropLast_append_getLast? n h]

namespace Placed

variable (h : Placed host tree destination source)
include h

theorem children_withStage :
    children (withStage host tree destination) source = children tree.nodes source := by
  have hstage : nameIn source (stagePath host destination) = none := by
    rw [nameIn, if_neg]
    rintro ⟨-, heq⟩
    have hshort := h.inside.length_le
    have hpos := List.length_pos_of_ne_nil h.nonroot
    rw [stagePath, List.dropLast_concat] at heq
    rw [← heq, List.length_dropLast] at hshort
    omega
  simp [children, withStage, List.filterMap_append, hstage]

theorem movable_staging {names : List Name} (hnames : names.Perm (children tree.nodes source)) :
    Movable (withStage host tree destination) source (stagePath host destination) names := by
  refine ⟨?_, List.mem_append_right _ (List.mem_singleton.mpr rfl), ?_⟩
  · intro n hn
    exact mem_withStage.mpr (Or.inl (mem_children.mp (hnames.mem_iff.mp hn)))
  · intro n hn hmem
    rcases mem_withStage.mp hmem with hold | hnew
    · exact h.none_below hold (child_below _)
    · simp at hnew

theorem under_staged_iff (names : List Name) (path : NodePath Name) :
    destination <+: relocateAll source (stagePath host destination) names path ↔
      destination <+: path ∧ ¬∃ n ∈ names, source ++ [n] <+: path := by
  unfold relocateAll
  split_ifs with hin
  · simp only [hin, not_true_eq_false, and_false, iff_false]
    intro hp
    exact h.apart.not_below hp (List.prefix_append _ _)
  · simp [hin]

theorem filter_drop_iff (option : Option (NodePath Name)) :
    (∃ path, option.filter (fun q => decide (¬stagePath host destination <+: q ∨
        host.dropKeeps q = true)) = some path ∧ destination <+: path) ↔
      ∃ path, option = some path ∧ destination <+: path := by
  constructor
  · rintro ⟨path, hpath, hunder⟩
    exact ⟨path, (Option.filter_eq_some_iff.mp hpath).1, hunder⟩
  · rintro ⟨path, rfl, hunder⟩
    refine ⟨path, Option.filter_some_pos ?_, hunder⟩
    exact decide_eq_true (Or.inl (h.apart.not_below hunder))

/-- The staging directory lists what the source directory listed. -/
theorem children_recreated {names : List Name}
    (hnames : names.Perm (children tree.nodes source)) :
    children (recreated host tree destination source names) (stagePath host destination) =
      children tree.nodes source := by
  have hfixed := h.relocateAll_fixed names
  have hlength := length_stagePath host h.nonroot
  have hself : nameIn (stagePath host destination) (stagePath host destination) = none := by
    have hrest := nameIn_append (stagePath host destination) []
    simpa using hrest
  have hdestination : nameIn (stagePath host destination) destination = none := by
    rw [Option.eq_none_iff_forall_ne_some]
    intro n hn
    exact h.apart.right ⟨[n], (prefix_of_nameIn hn).symm⟩
  have hentry : ∀ e ∈ tree.nodes,
      (if ¬destination <+: relocateAll source (stagePath host destination) names e.1 then
        nameIn (stagePath host destination)
          (relocateAll source (stagePath host destination) names e.1) else none) =
      nameIn source e.1 := by
    intro e he
    by_cases hin : ∃ n ∈ names, source ++ [n] <+: e.1
    · have hout : ¬destination <+: relocateAll source (stagePath host destination) names e.1 :=
        fun hp => ((h.under_staged_iff names e.1).mp hp).2 hin
      rw [if_pos hout, relocateAll, if_pos hin, nameIn_append]
      obtain ⟨n, -, rest, hrest⟩ := hin
      rw [← hrest, List.append_assoc, List.drop_left, nameIn_append]
    · have hpath : e.1 ∈ paths tree.nodes := List.mem_map.mpr ⟨e, he, rfl⟩
      have hsource : nameIn source e.1 = none := by
        rw [Option.eq_none_iff_forall_ne_some]
        intro n hn
        have heq := prefix_of_nameIn hn
        exact hin ⟨n, hnames.mem_iff.mpr (mem_children.mpr (heq ▸ hpath)), heq ▸ List.prefix_rfl⟩
      have hstage : nameIn (stagePath host destination) e.1 = none := by
        rw [Option.eq_none_iff_forall_ne_some]
        intro n hn
        exact h.none_below hpath ⟨[n], (prefix_of_nameIn hn).symm⟩
      rw [relocateAll, if_neg hin, hsource, hstage, ite_self]
  have hrest : (withStage host tree destination).filterMap (fun e =>
      if ¬destination <+: relocateAll source (stagePath host destination) names e.1 then
        nameIn (stagePath host destination)
          (relocateAll source (stagePath host destination) names e.1) else none) =
      children tree.nodes source := by
    rw [withStage, List.filterMap_append, List.filterMap_congr hentry]
    simp [hfixed.1, hself, children]
  rw [← hrest, recreated, children, List.filterMap_append]
  simp only [removeAll, stagedNodes, List.filterMap_filter, List.filterMap_map,
    Function.comp_def, List.filterMap_cons, hdestination, List.filterMap_nil, List.append_nil,
    decide_eq_true_eq]

theorem movable_back {names back : List Name} (hnames : names.Perm (children tree.nodes source))
    (hback : back.Perm (children tree.nodes source)) :
    Movable (recreated host tree destination source names) (stagePath host destination)
      destination back := by
  refine ⟨?_, List.mem_append_right _ (List.mem_singleton.mpr rfl), ?_⟩
  · intro n hn
    rw [← mem_children, h.children_recreated hnames]
    exact hback.mem_iff.mp hn
  · intro n _ hmem
    obtain ⟨e, he, heq⟩ := List.mem_map.mp hmem
    rcases List.mem_append.mp he with hkept | hnew
    · have hout := (List.mem_filter.mp hkept).2
      rw [heq] at hout
      simp at hout
    · rw [List.mem_singleton.mp hnew] at heq
      simp at heq

end Placed

end Phases

section Summaries

variable {host : Host} {tree : FileTree Name} {destination source : NodePath Name}

structure Summary (host : Host) (tree : FileTree Name) (destination source : NodePath Name)
    (result : Except CliError Unit × Disk) : Prop where
  ok : result.1 = .ok () → Replaced tree.nodes result.2.nodes destination source ∧
    FailsHarmlessly host tree destination source
  error : result.1 ≠ .ok () →
    ((∀ id ∈ filesUnder destination tree.nodes, id ∈ filesUnder destination result.2.nodes) ↔
      FailsHarmlessly host tree destination source)
  outside : ∀ e ∈ tree.nodes, ¬destination <+: e.1 → e ∈ result.2.nodes
  touched : ∀ path ∈ result.2.touched,
    destination <+: path ∨ stagePath host destination <+: path

theorem listed_perm (host : Host) (tree : FileTree Name) (source : NodePath Name) :
    (listed host tree source).Perm (children tree.nodes source) :=
  host.order_perm source _

theorem takeWhile_of_not_stops {moves : Moves} {names : List Name} (h : ¬Stops host moves names) :
    names.takeWhile (goes host moves) = names :=
  (List.takeWhile_prefix _).eq_of_length_le (not_lt.mp (not_or.mp h).1)

theorem mem_movedBack
    (hall : ¬Stops host movingBack (listedBack host tree source (stagePath host destination)))
    {n : Name} (hn : n ∈ children tree.nodes source) :
    n ∈ movedBack host tree source (stagePath host destination) := by
  have hperm := host.order_perm (stagePath host destination) (children tree.nodes source)
  rw [movedBack, takeWhile_of_not_stops hall]
  exact hperm.mem_iff.mpr hn

namespace Placed

variable (h : Placed host tree destination source)
include h

theorem outcome_staged (names : List Name) :
    Outcome host tree destination (stagedNodes host tree destination source names) fun path =>
      some (relocateAll source (stagePath host destination) names path) :=
  Outcome.start.map (h.relocateAll_fixed names).1 (h.relocateAll_fixed names).2.1

/-- An error after which the staging directory is dropped. -/
theorem summary_error {e : CliError} {disk : Disk} {goesTo : NodePath Name → Option (NodePath Name)}
    (hout : Outcome host tree destination disk.nodes goesTo)
    (houtside : ∀ path ∈ paths tree.nodes, ¬destination <+: path → goesTo path = some path)
    (htouched : ∀ path ∈ disk.touched,
      destination <+: path ∨ stagePath host destination <+: path)
    (hiff : (∀ e ∈ tree.nodes, destination <+: e.1 → e.2 ≠ .dir →
      ∃ path, goesTo e.1 = some path ∧ destination <+: path) ↔
        FailsHarmlessly host tree destination source) :
    Summary host tree destination source
      (.error e, dropStage host (stagePath host destination) disk) := by
  have hdropped := hout.filter fun q =>
    decide (¬stagePath host destination <+: q ∨ host.dropKeeps q = true)
  refine ⟨fun hok => (nomatch hok), fun _ => ?_, ?_, htouched⟩
  · rw [← hiff]
    refine hdropped.kept_iff.trans ?_
    simp only [h.filter_drop_iff]
  · intro entry hentry hnot
    have hpath : entry.1 ∈ paths tree.nodes := List.mem_map.mpr ⟨entry, hentry, rfl⟩
    refine hdropped.complete entry.1 entry.2 entry.1 hentry ?_
    rw [houtside entry.1 hpath hnot]
    exact Option.filter_some_pos (decide_eq_true (Or.inl (h.none_below hpath)))

theorem relocateAll_outside (names : List Name) {path : NodePath Name}
    (hpath : ¬destination <+: path) :
    relocateAll source (stagePath host destination) names path = path :=
  relocateAll_same names fun hsource => hpath (h.inside.trans hsource)

theorem summary_unread {e : CliError} {touched : List (NodePath Name)}
    (hread : (host.fails .readSource).isSome)
    (htouched : ∀ path ∈ touched, destination <+: path ∨ stagePath host destination <+: path) :
    Summary host tree destination source
      (.error e, dropStage host (stagePath host destination)
        ⟨withStage host tree destination, touched⟩) := by
  refine h.summary_error Outcome.start (fun _ _ _ => rfl) htouched ?_
  have hharmless : FailsHarmlessly host tree destination source := by
    simp only [FailsHarmlessly, if_pos hread]
  exact ⟨fun _ => hharmless, fun _ e _ hunder _ => ⟨e.1, rfl, hunder⟩⟩

theorem summary_unstaged {e : CliError} {touched : List (NodePath Name)}
    (hread : (host.fails .readSource).isSome = false)
    (hshort : Stops host staging (listed host tree source))
    (htouched : ∀ path ∈ touched, destination <+: path ∨ stagePath host destination <+: path) :
    Summary host tree destination source
      (.error e, dropStage host (stagePath host destination)
        ⟨stagedNodes host tree destination source (stagedEntries host tree source), touched⟩) := by
  refine h.summary_error (h.outcome_staged _)
    (fun path _ hpath => congrArg some (h.relocateAll_outside _ hpath)) htouched ?_
  have hharmless : FailsHarmlessly host tree destination source ↔
      ∀ name ∈ stagedEntries host tree source, filesUnder (source ++ [name]) tree.nodes = [] := by
    simp only [FailsHarmlessly, hread, if_pos hshort, Bool.false_eq_true, if_false]
  rw [hharmless]
  constructor
  · intro hgo name hname
    rw [List.eq_nil_iff_forall_not_mem]
    intro id hid
    obtain ⟨entry, hentry, hunder, hid⟩ := mem_filesUnder.mp hid
    have hdest := h.inside.trans ((child_below source).trans hunder)
    obtain ⟨path, hpath, hp⟩ := hgo entry hentry hdest (file_of_id hid)
    cases hpath
    exact ((h.under_staged_iff _ entry.1).mp hp).2 ⟨name, hname, hunder⟩
  · intro hnone entry hentry hunder hfile
    refine ⟨_, rfl, (h.under_staged_iff _ entry.1).mpr ⟨hunder, ?_⟩⟩
    rintro ⟨name, hname, hp⟩
    obtain ⟨id, hid⟩ := id_of_file hfile
    have hmem := mem_filesUnder.mpr ⟨entry, hentry, hp, hid⟩
    rw [hnone name hname] at hmem
    cases hmem

/-- With all entries staged the files left are those outside the source directory. -/
theorem under_all_iff {path : NodePath Name} (hpath : path ∈ paths tree.nodes)
    (hne : path ≠ source) :
    destination <+: relocateAll source (stagePath host destination) (listed host tree source) path ↔
      destination <+: path ∧ ¬source <+: path := by
  rw [h.under_staged_iff, below_names (listed_perm host tree source) hpath hne]

theorem ne_source {e : NodePath Name × Node Name} (he : e ∈ tree.nodes) (hfile : e.2 ≠ .dir) :
    e.1 ≠ source := by
  intro heq
  have hsame : e = (source, Node.dir) :=
    List.inj_on_of_nodup_map tree.paths_nodup he h.dir heq
  exact hfile (by rw [hsame])

theorem summary_unremoved {e : CliError} {touched : List (NodePath Name)}
    (hread : (host.fails .readSource).isSome = false)
    (hall : ¬Stops host staging (listed host tree source))
    (hremove : (host.fails .removeDestination).isSome)
    (htouched : ∀ path ∈ touched, destination <+: path ∨ stagePath host destination <+: path) :
    Summary host tree destination source
      (.error e, dropStage host (stagePath host destination)
        ⟨(stagedNodes host tree destination source (listed host tree source)).filter fun e =>
          ¬destination <+: e.1 ∨ host.keeps e.1, touched⟩) := by
  refine h.summary_error ((h.outcome_staged _).filter fun q =>
    decide (¬destination <+: q ∨ host.keeps q = true)) ?_ htouched ?_
  · intro path _ hpath
    rw [h.relocateAll_outside _ hpath]
    exact Option.filter_some_pos (decide_eq_true (Or.inl hpath))
  have hharmless : FailsHarmlessly host tree destination source ↔
      filesUnder source tree.nodes = [] ∧
        ∀ e ∈ tree.nodes, destination <+: e.1 → e.2 ≠ .dir → host.keeps e.1 := by
    simp only [FailsHarmlessly, hread, if_neg hall, if_pos hremove, Bool.false_eq_true, if_false]
  rw [hharmless]
  constructor
  · intro hgo
    have hstay : ∀ e ∈ tree.nodes, destination <+: e.1 → e.2 ≠ .dir →
        ¬source <+: e.1 ∧ host.keeps e.1 = true := by
      intro e he hunder hfile
      have hpath : e.1 ∈ paths tree.nodes := List.mem_map.mpr ⟨e, he, rfl⟩
      obtain ⟨path, hsome, hp⟩ := hgo e he hunder hfile
      obtain ⟨hsome, hkeep⟩ := Option.filter_eq_some_iff.mp hsome
      cases hsome
      have hout := ((h.under_all_iff hpath (h.ne_source he hfile)).mp hp).2
      have hsame : relocateAll source (stagePath host destination) (listed host tree source) e.1 =
          e.1 := relocateAll_same _ hout
      rw [hsame] at hkeep hp
      exact ⟨hout, (of_decide_eq_true hkeep).resolve_left (not_not_intro hp)⟩
    refine ⟨?_, fun e he hunder hfile => (hstay e he hunder hfile).2⟩
    rw [List.eq_nil_iff_forall_not_mem]
    intro id hid
    obtain ⟨e, he, hunder, hid⟩ := mem_filesUnder.mp hid
    exact (hstay e he (h.inside.trans hunder) (file_of_id hid)).1 hunder
  · rintro ⟨hnone, hkeeps⟩ e he hunder hfile
    have hpath : e.1 ∈ paths tree.nodes := List.mem_map.mpr ⟨e, he, rfl⟩
    have hout : ¬source <+: e.1 := by
      intro hsource
      obtain ⟨id, hid⟩ := id_of_file hfile
      have hmem := mem_filesUnder.mpr ⟨e, he, hsource, hid⟩
      rw [hnone] at hmem
      cases hmem
    have hsame : relocateAll source (stagePath host destination) (listed host tree source) e.1 =
        e.1 := relocateAll_same _ hout
    refine ⟨e.1, ?_, hunder⟩
    rw [hsame]
    exact Option.filter_some_pos (decide_eq_true (Or.inr (hkeeps e he hunder hfile)))

theorem summary_cleared {e : CliError} {disk : Disk}
    (hread : (host.fails .readSource).isSome = false)
    (hall : ¬Stops host staging (listed host tree source))
    (hremove : (host.fails .removeDestination).isSome = false)
    (hfails : (host.fails .createDestination).isSome ∨ (host.fails .readStage).isSome)
    (hnodes : disk.nodes =
        removeAll destination (stagedNodes host tree destination source (listed host tree source)) ∨
      disk.nodes = recreated host tree destination source (listed host tree source))
    (htouched : ∀ path ∈ disk.touched,
      destination <+: path ∨ stagePath host destination <+: path) :
    Summary host tree destination source
      (.error e, dropStage host (stagePath host destination) disk) := by
  have hcleared := (h.outcome_staged (listed host tree source)).filter fun q =>
    decide (¬destination <+: q)
  have hout : Outcome host tree destination disk.nodes fun path =>
      (some (relocateAll source (stagePath host destination) (listed host tree source) path)).filter
        fun q => decide (¬destination <+: q) := by
    rcases hnodes with hnodes | hnodes
    · rw [hnodes]
      exact hcleared
    · rw [hnodes]
      exact hcleared.append
  refine h.summary_error hout ?_ htouched ?_
  · intro path _ hpath
    rw [h.relocateAll_outside _ hpath]
    exact Option.filter_some_pos (decide_eq_true hpath)
  have hharmless : FailsHarmlessly host tree destination source ↔
      filesUnder destination tree.nodes = [] := by
    simp only [FailsHarmlessly, hread, if_neg hall, hremove, if_pos hfails, Bool.false_eq_true,
      if_false]
  rw [hharmless, List.eq_nil_iff_forall_not_mem]
  constructor
  · intro hgo id hid
    obtain ⟨entry, hentry, hunder, hid⟩ := mem_filesUnder.mp hid
    obtain ⟨path, hsome, hp⟩ := hgo entry hentry hunder (file_of_id hid)
    exact of_decide_eq_true (Option.filter_eq_some_iff.mp hsome).2 hp
  · intro hnone entry hentry hunder hfile
    obtain ⟨id, hid⟩ := id_of_file hfile
    exact absurd (mem_filesUnder.mpr ⟨entry, hentry, hunder, hid⟩) (hnone id)

def backTo (host : Host) (tree : FileTree Name) (destination source : NodePath Name)
    (path : NodePath Name) : Option (NodePath Name) :=
  ((some (relocateAll source (stagePath host destination) (listed host tree source) path)).filter
    fun q => decide (¬destination <+: q)).map
      (relocateAll (stagePath host destination) destination
        (movedBack host tree source (stagePath host destination)))

theorem backTo_below {rest : NodePath Name} (hpath : source ++ rest ∈ paths tree.nodes)
    (hne : rest ≠ []) : backTo host tree destination source (source ++ rest) =
      some (if ∃ n ∈ movedBack host tree source (stagePath host destination), [n] <+: rest then
        destination ++ rest else stagePath host destination ++ rest) := by
  have hin := (below_names (listed_perm host tree source) hpath (by simpa using hne)).mpr
    (List.prefix_append source rest)
  have hout : ¬destination <+: stagePath host destination ++ rest :=
    h.apart.symm.not_below (List.prefix_append _ rest)
  have hkept : (some (stagePath host destination ++ rest)).filter
      (fun q => decide (¬destination <+: q)) = some (stagePath host destination ++ rest) :=
    Option.filter_some_pos (decide_eq_true hout)
  rw [backTo, relocateAll, if_pos hin, List.drop_left, hkept, Option.map_some, relocateAll]
  simp only [List.prefix_append_right_inj, List.drop_left]

theorem backTo_outside {path : NodePath Name} (hpath : path ∈ paths tree.nodes)
    (hout : ¬source <+: path) : backTo host tree destination source path =
      if destination <+: path then none else some path := by
  rw [backTo, relocateAll_same _ hout]
  split_ifs with hunder
  · rw [Option.filter_some_neg (by simpa using hunder)]
    rfl
  · have hkept : (some path).filter (fun q => decide (¬destination <+: q)) = some path :=
      Option.filter_some_pos (decide_eq_true hunder)
    rw [hkept, Option.map_some, relocateAll_same _ (h.none_below hpath)]

theorem backTo_source : backTo host tree destination source source = none := by
  have hself : relocateAll source (stagePath host destination) (listed host tree source) source =
      source := by
    rw [relocateAll, if_neg]
    rintro ⟨n, -, hn⟩
    have hlong := hn.length_le
    simp at hlong
  rw [backTo, hself, Option.filter_some_neg (by simpa using h.inside)]
  rfl

theorem under_backTo_iff {e : NodePath Name × Node Name} (he : e ∈ tree.nodes) (hfile : e.2 ≠ .dir)
    (hunder : destination <+: e.1) :
    (∃ path, backTo host tree destination source e.1 = some path ∧ destination <+: path) ↔
      ∃ n ∈ movedBack host tree source (stagePath host destination), source ++ [n] <+: e.1 := by
  have hpath : e.1 ∈ paths tree.nodes := List.mem_map.mpr ⟨e, he, rfl⟩
  by_cases hsource : source <+: e.1
  · obtain ⟨rest, hrest⟩ := hsource
    have hne : rest ≠ [] := by
      rintro rfl
      exact h.ne_source he hfile (by rw [← hrest, List.append_nil])
    rw [← hrest] at hpath ⊢
    rw [h.backTo_below hpath hne]
    simp only [List.prefix_append_right_inj]
    split_ifs with hin
    · exact ⟨fun _ => hin, fun _ => ⟨_, rfl, List.prefix_append destination rest⟩⟩
    · refine ⟨?_, fun hin' => absurd hin' hin⟩
      rintro ⟨path, heq, hp⟩
      cases heq
      exact absurd hp (h.apart.symm.not_below (List.prefix_append _ rest))
  · rw [h.backTo_outside hpath hsource, if_pos hunder]
    constructor
    · rintro ⟨path, hnone, -⟩
      cases hnone
    · rintro ⟨n, -, hn⟩
      exact absurd ((child_below source).trans hn) hsource

theorem outcome_back :
    Outcome host tree destination
      ((recreated host tree destination source (listed host tree source)).map fun e =>
        (relocateAll (stagePath host destination) destination
          (movedBack host tree source (stagePath host destination)) e.1, e.2))
      (backTo host tree destination source) :=
  (((h.outcome_staged (listed host tree source)).filter fun q =>
    decide (¬destination <+: q)).append).map (h.relocateAll_fixed _).2.2.1
      (h.relocateAll_fixed _).2.2.2

/-- All entries moved back: the destination is what the source was. -/
theorem replaced_back {after : Nodes Name}
    (hout : Outcome host tree destination after fun path =>
      (backTo host tree destination source path).filter fun q =>
        decide (¬stagePath host destination <+: q ∨ host.dropKeeps q = true))
    (hdir : (destination, Node.dir) ∈ after)
    (hall : ¬Stops host movingBack (listedBack host tree source (stagePath host destination))) :
    Replaced tree.nodes after destination source := by
  refine ⟨h.inside, hdir, ?_⟩
  intro path node hne
  have hmoved : source ++ path ∈ paths tree.nodes →
      backTo host tree destination source (source ++ path) = some (destination ++ path) := by
    intro hpath
    obtain ⟨n, rest, rfl⟩ := List.exists_cons_of_ne_nil hne
    have hchild : source ++ [n] <+: source ++ n :: rest := ⟨rest, by simp⟩
    have hn := mem_movedBack hall (mem_children.mpr (tree.dir_of_below hpath hchild))
    rw [h.backTo_below hpath hne, if_pos ⟨n, hn, rest, rfl⟩]
  constructor
  · intro hmem
    rcases hout.sound _ node hmem with ⟨before, hbefore, hgoes⟩ | ⟨-, hstage | hself⟩
    · obtain ⟨hgoes, -⟩ := Option.filter_eq_some_iff.mp hgoes
      have hpath : before ∈ paths tree.nodes := List.mem_map.mpr ⟨_, hbefore, rfl⟩
      by_cases hsource : source <+: before
      · obtain ⟨rest, rfl⟩ := hsource
        by_cases hrest : rest = []
        · rw [hrest, List.append_nil, h.backTo_source] at hgoes
          cases hgoes
        · rw [h.backTo_below hpath hrest, Option.some.injEq] at hgoes
          split_ifs at hgoes
          · rwa [← List.append_cancel_left hgoes]
          · exact absurd (hgoes ▸ List.prefix_append (stagePath host destination) rest)
              (h.apart.not_below (List.prefix_append destination path))
      · rw [h.backTo_outside hpath hsource] at hgoes
        split_ifs at hgoes with hunder
        cases hgoes
        exact absurd (List.prefix_append destination path) hunder
    · exact absurd (hstage ▸ List.prefix_append destination path) h.apart.left
    · exact absurd (List.append_right_eq_self.mp hself) hne
  · intro hmem
    have hpath : source ++ path ∈ paths tree.nodes := List.mem_map.mpr ⟨_, hmem, rfl⟩
    refine hout.complete _ node _ hmem ?_
    rw [hmoved hpath]
    exact Option.filter_some_pos
      (decide_eq_true (Or.inl (h.apart.not_below (List.prefix_append destination path))))

theorem summary_back {result : Except CliError Unit} {touched : List (NodePath Name)}
    (hread : (host.fails .readSource).isSome = false)
    (hstaged : ¬Stops host staging (listed host tree source))
    (hremove : (host.fails .removeDestination).isSome = false)
    (hmade : ¬((host.fails .createDestination).isSome ∨ (host.fails .readStage).isSome))
    (hresult : result = .ok () ↔
      ¬Stops host movingBack (listedBack host tree source (stagePath host destination)))
    (htouched : ∀ path ∈ touched, destination <+: path ∨ stagePath host destination <+: path) :
    Summary host tree destination source
      (result, dropStage host (stagePath host destination)
        ⟨(recreated host tree destination source (listed host tree source)).map fun e =>
          (relocateAll (stagePath host destination) destination
            (movedBack host tree source (stagePath host destination)) e.1, e.2), touched⟩) := by
  have hharmless : FailsHarmlessly host tree destination source ↔
      (Stops host movingBack (listedBack host tree source (stagePath host destination)) →
        ∀ e ∈ tree.nodes, destination <+: e.1 → e.2 ≠ .dir →
          ∃ name ∈ movedBack host tree source (stagePath host destination),
            source ++ [name] <+: e.1) := by
    simp only [FailsHarmlessly, hread, if_neg hstaged, hremove, if_neg hmade, Bool.false_eq_true,
      if_false]
  have hdropped := h.outcome_back.filter fun q =>
    decide (¬stagePath host destination <+: q ∨ host.dropKeeps q = true)
  cases result with
  | error e =>
    have hshort := not_not.mp (mt hresult.mpr (fun hok => (nomatch hok)))
    refine h.summary_error h.outcome_back ?_ htouched ?_
    · intro path hpath hout
      rw [h.backTo_outside hpath fun hsource => hout (h.inside.trans hsource), if_neg hout]
    · rw [hharmless]
      constructor
      · intro hgo _ entry hentry hunder hfile
        exact (h.under_backTo_iff hentry hfile hunder).mp (hgo entry hentry hunder hfile)
      · intro hback entry hentry hunder hfile
        exact (h.under_backTo_iff hentry hfile hunder).mpr
          (hback hshort entry hentry hunder hfile)
  | ok u =>
    have hall := hresult.mp rfl
    refine ⟨fun _ => ⟨?_, hharmless.mpr fun hshort => absurd hshort hall⟩,
      fun hne => absurd rfl hne, ?_, htouched⟩
    · refine h.replaced_back hdropped ?_ hall
      refine List.mem_filter.mpr ⟨List.mem_map.mpr ⟨(destination, .dir),
        List.mem_append_right _ (List.mem_singleton.mpr rfl), ?_⟩, ?_⟩
      · rw [(h.relocateAll_fixed _).2.2.2]
      · exact decide_eq_true (Or.inl h.apart.right)
    · intro entry hentry hnot
      have hpath : entry.1 ∈ paths tree.nodes := List.mem_map.mpr ⟨entry, hentry, rfl⟩
      refine hdropped.complete entry.1 entry.2 entry.1 hentry ?_
      rw [h.backTo_outside hpath fun hsource => hnot (h.inside.trans hsource), if_neg hnot]
      exact Option.filter_some_pos (decide_eq_true (Or.inl (h.none_below hpath)))

end Placed

end Summaries

section Results

variable {host : Host} {tree : FileTree Name} {destination source : NodePath Name}

theorem Placed.loop_back (h : Placed host tree destination source) {touched : List (NodePath Name)}
    (hread : (host.fails .readSource).isSome = false)
    (hstaged : ¬Stops host staging (listed host tree source))
    (hremove : (host.fails .removeDestination).isSome = false)
    (hmade : ¬((host.fails .createDestination).isSome ∨ (host.fails .readStage).isSome))
    (htouched : ∀ path ∈ touched, destination <+: path ∨ stagePath host destination <+: path) :
    let result := moveEntries host movingBack (stagePath host destination) destination
      (listedBack host tree source (stagePath host destination))
      ⟨recreated host tree destination source (listed host tree source),
        stagePath host destination :: touched⟩
    Summary host tree destination source
      (result.1, dropStage host (stagePath host destination) result.2) := by
  have hback := host.order_perm (stagePath host destination) (children tree.nodes source)
  obtain ⟨hnodes, hresult, hreads⟩ := moveEntries_spec host movingBack
    ⟨recreated host tree destination source (listed host tree source),
      stagePath host destination :: touched⟩ (h.movable_back (listed_perm host tree source) hback)
    (hback.nodup_iff.mpr (tree.children_nodup source)) h.apart.symm
  intro outcome
  change outcome.2.nodes = _ at hnodes
  change outcome.1 = _ ↔ _ at hresult
  change ∀ path ∈ outcome.2.touched, _ at hreads
  obtain ⟨result, nodes, touched'⟩ := outcome
  obtain rfl : nodes = _ := hnodes
  refine h.summary_back hread hstaged hremove hmade hresult fun path hpath => ?_
  rcases hreads path hpath with hread | hunder
  · rcases List.mem_cons.mp hread with rfl | hread
    · exact Or.inr List.prefix_rfl
    · exact htouched path hread
  · exact Or.inr hunder

theorem Placed.staged_rest (h : Placed host tree destination source)
    {touched : List (NodePath Name)}
    (hread : (host.fails .readSource).isSome = false)
    (hstaged : ¬Stops host staging (listed host tree source))
    (htouched : ∀ path ∈ touched, destination <+: path ∨ stagePath host destination <+: path) :
    Summary host tree destination source
      ((clearAndMoveBack host destination (stagePath host destination)
          ⟨stagedNodes host tree destination source (listed host tree source), touched⟩).1,
        dropStage host (stagePath host destination)
          (clearAndMoveBack host destination (stagePath host destination)
            ⟨stagedNodes host tree destination source (listed host tree source), touched⟩).2) := by
  unfold clearAndMoveBack
  cases hremove : host.fails .removeDestination with
  | some e => exact h.summary_unremoved hread hstaged (by rw [hremove]; rfl) htouched
  | none =>
    have hremove' : (host.fails .removeDestination).isSome = false := by rw [hremove]; rfl
    cases hcreate : host.fails .createDestination with
    | some e =>
      exact h.summary_cleared hread hstaged hremove' (Or.inl (by rw [hcreate]; rfl)) (Or.inl rfl)
        htouched
    | none =>
      cases hstage : host.fails .readStage with
      | some e =>
        exact h.summary_cleared hread hstaged hremove' (Or.inr (by rw [hstage]; rfl)) (Or.inr rfl)
          htouched
      | none =>
        have hentries : readDir host (stagePath host destination)
            ⟨removeAll destination (stagedNodes host tree destination source
              (listed host tree source)) ++ [(destination, .dir)], touched⟩ =
            (listedBack host tree source (stagePath host destination),
              ⟨recreated host tree destination source (listed host tree source),
                stagePath host destination :: touched⟩) := by
          rw [listedBack, ← h.children_recreated (listed_perm host tree source)]
          rfl
        simp only [hentries]
        exact h.loop_back hread hstaged hremove' (by simp [hcreate, hstage]) htouched

theorem staged_summary (h : Placed host tree destination source) :
    Summary host tree destination source
      ((staged host destination source (stagePath host destination)
          ⟨withStage host tree destination, []⟩).1,
        dropStage host (stagePath host destination)
          (staged host destination source (stagePath host destination)
            ⟨withStage host tree destination, []⟩).2) := by
  have hperm := listed_perm host tree source
  have hentries : readDir host source ⟨withStage host tree destination, []⟩ =
      (listed host tree source, ⟨withStage host tree destination, [source]⟩) := by
    rw [readDir, h.children_withStage]
    rfl
  obtain ⟨hnodes, hresult, htouched⟩ := moveEntries_spec host staging
    ⟨withStage host tree destination, [source]⟩ (h.movable_staging hperm)
    (hperm.nodup_iff.mpr (tree.children_nodup source)) h.apart_source
  have hreads : ∀ path ∈ (moveEntries host staging source (stagePath host destination)
      (listed host tree source) ⟨withStage host tree destination, [source]⟩).2.touched,
      destination <+: path ∨ stagePath host destination <+: path := by
    intro path hpath
    rcases htouched path hpath with hself | hunder
    · exact Or.inl (List.mem_singleton.mp hself ▸ h.inside)
    · exact Or.inl (h.inside.trans hunder)
  change _ = stagedNodes host tree destination source (stagedEntries host tree source) at hnodes
  unfold staged
  cases hread : host.fails .readSource with
  | some e => exact h.summary_unread (by rw [hread]; rfl) fun path hpath => (nomatch hpath)
  | none =>
    have hread' : (host.fails .readSource).isSome = false := by rw [hread]; rfl
    simp only [hentries]
    cases hmove : moveEntries host staging source (stagePath host destination)
        (listed host tree source) ⟨withStage host tree destination, [source]⟩ with
    | mk result disk =>
      rw [hmove] at hnodes hresult hreads
      obtain ⟨nodes, touched⟩ := disk
      obtain rfl : nodes = _ := hnodes
      cases result with
      | error e =>
        have hstops := not_not.mp (mt hresult.mpr (fun hok => (nomatch hok)))
        exact h.summary_unstaged hread' hstops hreads
      | ok u =>
        have hall := hresult.mp rfl
        have hwhole : stagedEntries host tree source = listed host tree source :=
          takeWhile_of_not_stops hall
        rw [hwhole]
        exact h.staged_rest hread' hall hreads

theorem leadsTo_of_canonicalize {call : Call} {path : Written Name} {resolved : NodePath Name}
    {cwd : NodePath Name} (h : canonicalize host cwd call path tree.nodes = .ok resolved) :
    leadsTo cwd tree path = .ok resolved := by
  unfold canonicalize at h
  unfold leadsTo
  split at h
  · cases h
  · dsimp only at h
    split at h
    · rename_i heq
      cases h
      exact heq
    · cases h

theorem checkedPaths_ok {cwd : NodePath Name} {written' : Written Name} {sourcePath : String}
    (h : checkedPaths host cwd written' sourcePath tree.nodes = .ok (destination, source)) :
    leadsTo cwd tree written' = .ok destination ∧
      leadsTo cwd tree ⟨true, namesOf destination ++ (written (trim sourcePath)).parts⟩ =
        .ok source ∧ destination <+: source ∧ (source, Node.dir) ∈ tree.nodes := by
  unfold checkedPaths at h
  dsimp only at h
  split_ifs at h
  split at h
  · cases h
  · rename_i hdestination
    split at h
    · split_ifs at h
    · rename_i hsource
      split_ifs at h with hinside hdir
      · split at h
        · cases h
        · cases h
          exact ⟨leadsTo_of_canonicalize hdestination, leadsTo_of_canonicalize hsource, hinside,
            hdir⟩
      · split at h <;> cases h

theorem replaceDestination_unstarted (source : NodePath Name)
    (h : Unstarted host tree destination) :
    ∃ e, replaceDestination host destination source ⟨tree.nodes, []⟩ =
      (.error e, ⟨tree.nodes, []⟩) := by
  unfold replaceDestination
  by_cases hroot : destination = []
  · rw [if_pos hroot]
    exact ⟨_, rfl⟩
  · rw [if_neg hroot]
    cases htempdir : host.fails .tempdir with
    | some e => exact ⟨_, rfl⟩
    | none =>
      have hused : stagePath host destination ∈ paths tree.nodes := by
        rcases h with h | h | h
        · exact absurd h hroot
        · rw [htempdir] at h
          cases h
        · exact h
      dsimp only
      rw [if_pos hused]
      exact ⟨_, rfl⟩

theorem replaceDestination_summary (hinside : destination <+: source)
    (hdir : (source, Node.dir) ∈ tree.nodes) (h : ¬Unstarted host tree destination) :
    Placed host tree destination source ∧ Summary host tree destination source
      (replaceDestination host destination source ⟨tree.nodes, []⟩) := by
  unfold Unstarted at h
  rw [not_or, not_or, Option.not_isSome_iff_eq_none] at h
  obtain ⟨hroot, htempdir, hfree⟩ := h
  have hplaced : Placed host tree destination source := ⟨hinside, hdir, hroot, hfree⟩
  refine ⟨hplaced, ?_⟩
  unfold replaceDestination
  rw [if_neg hroot, htempdir]
  dsimp only
  rw [if_neg hfree]
  exact staged_summary hplaced

/-- A call is all or nothing exactly where what it has begun cannot fail while a file is away from
the destination. -/
theorem extractSourcePath_allOrNothing_iff (host : Host) (cwd : NodePath Name)
    (tree : FileTree Name) (destination : Written Name) (sourcePath : String) :
    AllOrNothing host cwd tree destination sourcePath
        (extractSourcePath host cwd destination sourcePath tree.nodes) ↔
      ∀ destinationAbs sourceAbs,
        checkedPaths host cwd destination sourcePath tree.nodes = .ok (destinationAbs, sourceAbs) →
        ¬Unstarted host tree destinationAbs →
          FailsHarmlessly host tree destinationAbs sourceAbs := by
  unfold extractSourcePath
  cases hchecked : checkedPaths host cwd destination sourcePath tree.nodes with
  | error e =>
    refine ⟨fun _ _ _ hok => (nomatch hok), fun _ => ⟨fun hok => (nomatch hok), ?_, ?_, ?_⟩⟩
    · exact fun _ _ _ _ id hid => hid
    · exact fun _ _ entry hentry _ => hentry
    · exact fun path hpath => (nomatch hpath)
  | ok checked =>
    obtain ⟨destinationAbs, sourceAbs⟩ := checked
    obtain ⟨hdestination, hsource, hinside, hdir⟩ := checkedPaths_ok hchecked
    have hsame : ∀ other, leadsTo cwd tree destination = .ok other → other = destinationAbs := by
      intro other hother
      rw [hdestination] at hother
      exact (Except.ok.inj hother).symm
    by_cases hstarted : Unstarted host tree destinationAbs
    · obtain ⟨e, hresult⟩ := replaceDestination_unstarted sourceAbs hstarted
      dsimp only
      rw [hresult]
      constructor
      · intro _ d s hok hnot
        cases hok
        exact absurd hstarted hnot
      · intro _
        refine ⟨fun hok => (nomatch hok), ?_, ?_, ?_⟩
        · exact fun _ _ _ _ id hid => hid
        · exact fun _ _ entry hentry _ => hentry
        · exact fun path hpath => (nomatch hpath)
    · obtain ⟨hplaced, hsummary⟩ := replaceDestination_summary hinside hdir hstarted
      dsimp only
      obtain ⟨⟨result, disk⟩, hresult⟩ : ∃ result, result =
          replaceDestination host destinationAbs sourceAbs ⟨tree.nodes, []⟩ := ⟨_, rfl⟩
      rw [← hresult] at hsummary ⊢
      constructor
      · intro hall d s hok _
        cases hok
        cases result with
        | ok u => exact (hsummary.ok rfl).2
        | error e =>
          exact (hsummary.error (fun hok => (nomatch hok))).mp
            (hall.error e rfl destinationAbs hdestination)
      · intro hfails
        have hharmless := hfails destinationAbs sourceAbs rfl hstarted
        refine ⟨?_, ?_, ?_, ?_⟩
        · exact fun hok => ⟨destinationAbs, sourceAbs, hdestination, hsource, (hsummary.ok hok).1⟩
        · intro e he other hother
          rw [hsame other hother]
          exact (hsummary.error fun hok => by rw [he] at hok; cases hok).mpr hharmless
        · intro other hother entry hentry hout
          rw [hsame other hother] at hout
          exact hsummary.outside entry hentry hout
        · intro path hpath
          refine ⟨destinationAbs, hdestination, (hsummary.touched path hpath).imp_right ?_⟩
          intro hstage
          exact ⟨hstage, fun entry hentry =>
            hplaced.none_below (List.mem_map.mpr ⟨entry, hentry, rfl⟩)⟩

end Results

section Example

/-- A destination `/d` with the directory `s`, which holds one file. -/
def oneFile : FileTree Name where
  nodes := [([], .dir), ([nameOf "d"], .dir), ([nameOf "d", nameOf "s"], .dir),
    ([nameOf "d", nameOf "s", nameOf "f"], .file 1)]
  paths_nodup := by decide
  root := by decide
  rooted := by decide
  ids_nodup := by decide

/-- Removing the clone fails before anything is removed. -/
def busyHost : Host where
  fails call := if call = .removeDestination then some ⟨false, "Resource busy"⟩ else none
  resolveText _ := ""
  renameText := ""
  freshName := nameOf "tmp"
  order _ names := names
  order_perm _ _ := List.Perm.refl _
  keeps _ := true
  dropKeeps _ := false

/-- The staged file goes with the staging directory. -/
theorem staged_file_lost : ¬∀ (host : Host) (cwd : NodePath Name) (tree : FileTree Name)
    (destination : Written Name) (sourcePath : String),
    AllOrNothing host cwd tree destination sourcePath
      (extractSourcePath host cwd destination sourcePath tree.nodes) := by
  intro h
  have hlost := (h busyHost [] oneFile ⟨true, [.name (nameOf "d")]⟩ "s").error
    (.internal "Failed to remove cloned repository: Resource busy") (by decide) [nameOf "d"]
    (by decide) 1 (by decide)
  revert hlost
  decide

end Example

end SourcePath
