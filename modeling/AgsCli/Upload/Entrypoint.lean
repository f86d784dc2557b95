import AgsCli.Library.Checks
import AgsCli.Library.UrlPaths
import AgsCli.Upload.Directory
import Mathlib.Data.List.Nodup

/-! # What is shipped

The entrypoint is looked up through links and by the file system's own spelling, the archive is
walked without them and leaves symbol files out. Where the two agree the entrypoint is shipped. -/
namespace UploadEntrypoint

open Strings UploadDirectory

section Spec

inductive LeafKind
  | file (content : Content)
  | link (target : Target)

structure Leaf where
  parents : List FileName
  name : FileName
  kind : LeafKind

namespace Leaf

def path (leaf : Leaf) : List FileName := leaf.parents ++ [leaf.name]

def decoded (leaf : Leaf) : List String := leaf.path.map fun name => lossy name.glyphs

def isFile (leaf : Leaf) : Bool :=
  match leaf.kind with
  | .file _ => true
  | .link (.file _) => true
  | .link _ => false

def leftOut (includeSymbolFiles : Bool) (leaf : Leaf) : Bool :=
  !includeSymbolFiles && isSymbolFile leaf.name

def archived (includeSymbolFiles : Bool) (leaf : Leaf) : Bool :=
  !leaf.leftOut includeSymbolFiles && leaf.isFile

end Leaf

def leaves (parents : List FileName) : Listing → List Leaf
  | .nil => []
  | .file name content rest => ⟨parents, name, .file content⟩ :: leaves parents rest
  | .link name target rest => ⟨parents, name, .link target⟩ :: leaves parents rest
  | .directory name children rest => leaves (parents ++ [name]) children ++ leaves parents rest

structure Shipped (tree : Tree) (request : UploadRequest) (resolved : ResolvedEntrypoint)
    (manifest : ArchiveManifest) : Prop where
  entrypoint : ∃ path, stripPrefix? "./" resolved.command = some path ∧
    (manifest.entries.map (·.archivePath)).count path = 1
  distinct : (manifest.entries.map (·.archivePath)).Nodup
  relative : ∀ e ∈ manifest.entries, e.archivePath.toList.head? ≠ some '/' ∧
    ".." ∉ splitOn '/' e.archivePath
  whole : ∀ leaf ∈ leaves [] tree.listing, ∀ content, leaf.kind = .file content →
    (∃ e ∈ manifest.entries, e.path = leaf.path ∧ e.archivePath = archivePath leaf.path) ∨
      leaf.leftOut request.includeSymbolFiles = true
  counted : manifest.excludedSymbolFileCount =
    (leaves [] tree.listing).countP (Leaf.leftOut request.includeSymbolFiles)

def typedSegments (executable : String) : List String :=
  splitOn '/' (String.ofList (executable.toList.map fun c => if c = '\\' then '/' else c))

/-- The typed path leads, through directories and no links, to a file that is archived; and no two
archived files are called the same once decoded. -/
structure Agrees (tree : Tree) (request : UploadRequest) : Prop where
  found : ∃ segments, launchSegments [] (typedSegments request.executable) = some segments ∧
    ∃ leaf ∈ leaves [] tree.listing, leaf.archived request.includeSymbolFiles = true ∧
      leaf.decoded = segments
  apart : ∀ a ∈ leaves [] tree.listing, ∀ b ∈ leaves [] tree.listing,
    a.archived request.includeSymbolFiles = true → b.archived request.includeSymbolFiles = true →
      a.decoded = b.decoded → a.path = b.path

end Spec

section Paths

/-- A segment of a path, as an entrypoint's command is built of. -/
structure Plain (segment : String) : Prop where
  slashless : '/' ∉ segment.toList
  nonempty : segment ≠ ""
  notDot : segment ≠ "."

theorem splitOn_join {segments : List String} (hne : segments ≠ [])
    (h : ∀ s ∈ segments, '/' ∉ s.toList) : splitOn '/' (join "/" segments) = segments := by
  induction segments with
  | nil => exact absurd rfl hne
  | cons s rest ih =>
    have hs := h s List.mem_cons_self
    cases rest with
    | nil =>
      rw [join, splitOn, List.splitOn_eq_singleton hs]
      simp
    | cons t rest =>
      have hrest := ih (List.cons_ne_nil t rest) fun u hu => h u (List.mem_cons_of_mem s hu)
      rw [splitOn, toList_join_cons "/" '/' rfl, List.splitOn_append_cons_self_of_not_mem hs,
        List.map_cons, String.ofList_toList]
      exact congrArg (s :: ·) hrest

theorem launchSegments_plain {segments rest result : List String}
    (hsegments : ∀ s ∈ segments, Plain s) (hrest : ∀ s ∈ rest, '/' ∉ s.toList)
    (h : launchSegments segments rest = some result) : ∀ s ∈ result, Plain s := by
  induction rest generalizing segments with
  | nil =>
    cases h
    exact hsegments
  | cons segment rest ih =>
    have htail : ∀ s ∈ rest, '/' ∉ s.toList := fun s hs => hrest s (List.mem_cons_of_mem _ hs)
    rw [launchSegments] at h
    split_ifs at h with hskip hup hempty
    · exact ih hsegments htail h
    · exact ih (fun s hs => hsegments s (List.dropLast_subset _ hs)) htail h
    · refine ih (fun s hs => ?_) htail h
      rcases List.mem_append.mp hs with hs | hs
      · exact hsegments s hs
      · obtain rfl := List.mem_singleton.mp hs
        exact ⟨hrest s List.mem_cons_self, fun he => hskip (.inl he), fun he => hskip (.inr he)⟩

theorem slashless_typedSegments (executable : String) :
    ∀ s ∈ typedSegments executable, '/' ∉ s.toList := by
  intro s hs
  obtain ⟨chars, hchars, rfl⟩ := List.mem_map.mp hs
  rw [List.splitOn_eq_splitOnP] at hchars
  intro hmem
  rw [String.toList_ofList] at hmem
  have hno := UrlPaths.not_separator_of_split hchars '/' hmem
  revert hno
  decide

/-- The command records the segments of the typed path. -/
theorem command_eq {executable command : String}
    (h : relativeLaunchCommand executable = .ok command) :
    ∃ segments, launchSegments [] (typedSegments executable) = some segments ∧ segments ≠ [] ∧
      command = "./" ++ join "/" segments := by
  unfold relativeLaunchCommand at h
  extract_lets normalised at h
  split_ifs at h
  split at h
  · cases h
  · cases h
  · next segments hne hsegments =>
    cases h
    exact ⟨segments, hsegments, fun hnil => hne hnil, rfl⟩

theorem stripPrefix_command (rest : String) : stripPrefix? "./" ("./" ++ rest) = some rest := by
  have hstart : "./".toList.isPrefixOf ("./" ++ rest).toList = true := by simp
  rw [stripPrefix?, if_pos hstart]
  simp

end Paths

section Names

theorem toList_lossy (name : Name) : (lossy name).toList = name.map Glyph.lossy :=
  String.toList_ofList

/-- Decoding makes no separator. -/
theorem slashless_lossy (name : FileName) : '/' ∉ (lossy name.glyphs).toList := by
  rw [toList_lossy]
  intro hmem
  obtain ⟨glyph, hglyph, hslash⟩ := List.mem_map.mp hmem
  cases glyph with
  | char c =>
    obtain rfl : c = '/' := hslash
    exact name.slashless hglyph
  | invalid bytes => cases hslash

theorem lossy_nonempty (name : FileName) : (lossy name.glyphs).toList ≠ [] := by
  rw [toList_lossy]
  exact fun h => name.nonempty (List.map_eq_nil_iff.mp h)

theorem glyph_of_lossy_dot {glyph : Glyph} (h : glyph.lossy = '.') : glyph = .char '.' := by
  cases glyph with
  | char c => exact congrArg Glyph.char h
  | invalid bytes => cases h

/-- No name becomes the parent directory's by decoding. -/
theorem lossy_ne_dotDot (name : FileName) : lossy name.glyphs ≠ ".." := by
  intro h
  have hchars : name.glyphs.map Glyph.lossy = ['.', '.'] := by
    rw [← toList_lossy, h]
    rfl
  obtain ⟨first, rest, hfirst, hdot, hrest⟩ := List.map_eq_cons_iff.mp hchars
  obtain ⟨second, others, hsecond, hdot', hothers⟩ := List.map_eq_cons_iff.mp hrest
  apply name.notDotDot
  rw [hfirst, hsecond, List.map_eq_nil_iff.mp hothers, glyph_of_lossy_dot hdot,
    glyph_of_lossy_dot hdot']
  rfl

variable {path : List FileName}

theorem slashless_decoded (path : List FileName) :
    ∀ s ∈ path.map fun name => lossy name.glyphs, '/' ∉ s.toList := by
  intro s hs
  obtain ⟨name, -, rfl⟩ := List.mem_map.mp hs
  exact slashless_lossy name

theorem split_archivePath (hne : path ≠ []) :
    splitOn '/' (archivePath path) = path.map fun name => lossy name.glyphs :=
  splitOn_join (fun h => hne (List.map_eq_nil_iff.mp h)) (slashless_decoded path)

theorem archivePath_relative (hne : path ≠ []) :
    (archivePath path).toList.head? ≠ some '/' ∧ ".." ∉ splitOn '/' (archivePath path) := by
  constructor
  · intro hhead
    cases path with
    | nil => exact hne rfl
    | cons name rest =>
      have hname := lossy_nonempty name
      have hstart : (archivePath (name :: rest)).toList.head? =
          (lossy name.glyphs).toList.head? := by
        cases rest with
        | nil => rfl
        | cons other rest =>
          rw [archivePath, List.map_cons, List.map_cons, toList_join_cons "/" '/' rfl,
            List.head?_append]
          cases hlist : (lossy name.glyphs).toList with
          | nil => exact absurd hlist hname
          | cons c cs => rfl
      rw [hstart] at hhead
      exact slashless_lossy name (List.mem_of_mem_head? hhead)
  · rw [split_archivePath hne]
    intro hmem
    obtain ⟨name, -, hdots⟩ := List.mem_map.mp hmem
    exact lossy_ne_dotDot name hdots

theorem leaf_path_ne_nil (leaf : Leaf) : leaf.path ≠ [] :=
  List.append_ne_nil_of_right_ne_nil _ (List.cons_ne_nil _ _)

theorem archivePath_eq_iff (leaf other : Leaf) :
    archivePath leaf.path = archivePath other.path ↔ leaf.decoded = other.decoded := by
  constructor
  · intro h
    have hsplit := congrArg (splitOn '/') h
    rwa [split_archivePath (leaf_path_ne_nil leaf), split_archivePath (leaf_path_ne_nil other)]
      at hsplit
  · intro h
    exact congrArg (join "/") h

theorem archivePath_eq_join_iff (leaf : Leaf) {segments : List String} (hne : segments ≠ [])
    (hplain : ∀ s ∈ segments, Plain s) :
    archivePath leaf.path = join "/" segments ↔ leaf.decoded = segments := by
  constructor
  · intro h
    have hsplit := congrArg (splitOn '/') h
    rwa [split_archivePath (leaf_path_ne_nil leaf),
      splitOn_join hne fun s hs => (hplain s hs).slashless] at hsplit
  · intro h
    exact congrArg (join "/") h

end Names

section Walk

variable {includeSymbolFiles : Bool}

structure Walked (includeSymbolFiles : Bool) (met : List Leaf) (before after : ArchiveManifest) :
    Prop where
  paths : after.entries.map (·.path) =
    before.entries.map (·.path) ++ (met.filter (Leaf.archived includeSymbolFiles)).map Leaf.path
  named : ∀ e ∈ after.entries, e ∈ before.entries ∨ e.archivePath = archivePath e.path
  counted : after.excludedSymbolFileCount =
    before.excludedSymbolFileCount + met.countP (Leaf.leftOut includeSymbolFiles)

theorem Walked.refl (manifest : ArchiveManifest) :
    Walked includeSymbolFiles [] manifest manifest :=
  ⟨by simp, fun _ he => .inl he, rfl⟩

theorem Walked.append {met more : List Leaf} {m n o : ArchiveManifest}
    (h : Walked includeSymbolFiles met m n) (h' : Walked includeSymbolFiles more n o) :
    Walked includeSymbolFiles (met ++ more) m o := by
  refine ⟨?_, fun e he => ?_, ?_⟩
  · rw [h'.paths, h.paths, List.filter_append, List.map_append, List.append_assoc]
  · rcases h'.named e he with hbefore | hname
    · exact h.named e hbefore
    · exact .inr hname
  · rw [h'.counted, h.counted, List.countP_append, Nat.add_assoc]

theorem walked_exclude (leaf : Leaf) (hleft : leaf.leftOut includeSymbolFiles = true)
    (manifest : ArchiveManifest) :
    Walked includeSymbolFiles [leaf] manifest manifest.exclude := by
  refine ⟨?_, fun _ he => .inl he, ?_⟩
  · simp [ArchiveManifest.exclude, Leaf.archived, hleft]
  · simp [ArchiveManifest.exclude, hleft]

theorem walked_skip (leaf : Leaf) (hleft : leaf.leftOut includeSymbolFiles = false)
    (hfile : leaf.isFile = false) (manifest : ArchiveManifest) (path : List FileName) :
    Walked includeSymbolFiles [leaf] manifest (manifest.skip path) := by
  refine ⟨?_, fun _ he => .inl he, ?_⟩
  · simp [ArchiveManifest.skip, Leaf.archived, hfile]
  · simp [ArchiveManifest.skip, hleft]

theorem walked_push (leaf : Leaf) (hleft : leaf.leftOut includeSymbolFiles = false)
    (hfile : leaf.isFile = true) (manifest : ArchiveManifest) (content : Content) :
    Walked includeSymbolFiles [leaf] manifest (manifest.push leaf.path content) := by
  refine ⟨?_, fun e he => ?_, ?_⟩
  · simp [ArchiveManifest.push, Leaf.archived, hleft, hfile]
  · rcases List.mem_append.mp he with he | he
    · exact .inl he
    · obtain rfl := List.mem_singleton.mp he
      exact .inr rfl
  · simp [ArchiveManifest.push, hleft]

/-- A walk that ends has met every leaf below the directory. -/
theorem walk_ok {directory : String} {parents : List FileName} {listing : Listing}
    {before after : ArchiveManifest}
    (h : walk directory includeSymbolFiles parents listing before = .ok after) :
    Walked includeSymbolFiles (leaves parents listing) before after := by
  induction listing generalizing parents before after with
  | nil =>
    cases h
    exact .refl _
  | file name content rest ih =>
    rw [walk] at h
    split_ifs at h with hleft
    · exact (walked_exclude ⟨parents, name, .file content⟩ hleft before).append (ih h)
    · exact (walked_push ⟨parents, name, .file content⟩ (eq_false_of_ne_true hleft) rfl
        before content).append (ih h)
  | link name target rest ih =>
    unfold walk at h
    split_ifs at h with hleft
    · exact (walked_exclude ⟨parents, name, .link target⟩ hleft before).append (ih h)
    · have hkept := eq_false_of_ne_true hleft
      cases target with
      | dangling => cases h
      | file content =>
        exact (walked_push ⟨parents, name, .link (.file content)⟩ hkept rfl before
          content).append (ih h)
      | directory view =>
        exact (walked_skip ⟨parents, name, .link (.directory view)⟩ hkept rfl before
          _).append (ih h)
  | directory name children rest ihChildren ihRest =>
    rw [walk] at h
    obtain ⟨middle, hmiddle, h⟩ := Checks.bind_eq_ok.mp h
    exact (ihChildren hmiddle).append (ihRest h)

/-- The entries are the archived leaves, in some order. -/
theorem collect_ok {directory : String} {listing : Listing} {manifest : ArchiveManifest}
    (h : collectEntries directory includeSymbolFiles listing = .ok manifest) :
    (manifest.entries.map (·.path)).Perm
        (((leaves [] listing).filter (Leaf.archived includeSymbolFiles)).map Leaf.path) ∧
      (∀ e ∈ manifest.entries, e.archivePath = archivePath e.path) ∧
      manifest.excludedSymbolFileCount =
        (leaves [] listing).countP (Leaf.leftOut includeSymbolFiles) := by
  obtain ⟨walked, hwalk, h⟩ := Checks.bind_eq_ok.mp h
  cases h
  have hwalked := walk_ok hwalk
  have hperm := List.mergeSort_perm walked.entries
    fun left right => decide (left.archivePath ≤ right.archivePath)
  refine ⟨?_, fun e he => ?_, ?_⟩
  · rw [← List.nil_append (List.map Leaf.path _), ← List.map_nil, ← hwalked.paths]
    exact hperm.map _
  · rcases hwalked.named e (hperm.mem_iff.mp he) with hnone | hname
    · cases hnone
    · exact hname
  · exact hwalked.counted.trans (Nat.zero_add _)

end Walk

section Apart

theorem path_of_mem_leaves {parents : List FileName} {listing : Listing} {leaf : Leaf}
    (h : leaf ∈ leaves parents listing) :
    ∃ name ∈ listing.names, ∃ more, leaf.path = parents ++ name :: more := by
  induction listing generalizing parents with
  | nil => cases h
  | file name content rest ih =>
    rcases List.mem_cons.mp h with rfl | hrest
    · exact ⟨name, List.mem_cons_self, [], rfl⟩
    · obtain ⟨other, hother, hpath⟩ := ih hrest
      exact ⟨other, List.mem_cons_of_mem name hother, hpath⟩
  | link name target rest ih =>
    rcases List.mem_cons.mp h with rfl | hrest
    · exact ⟨name, List.mem_cons_self, [], rfl⟩
    · obtain ⟨other, hother, hpath⟩ := ih hrest
      exact ⟨other, List.mem_cons_of_mem name hother, hpath⟩
  | directory name children rest ihChildren ihRest =>
    rcases List.mem_append.mp h with hchildren | hrest
    · obtain ⟨other, -, more, hpath⟩ := ihChildren hchildren
      refine ⟨name, List.mem_cons_self, other :: more, ?_⟩
      rw [hpath, List.append_assoc]
      rfl
    · obtain ⟨other, hother, hpath⟩ := ihRest hrest
      exact ⟨other, List.mem_cons_of_mem name hother, hpath⟩

/-- A path that starts with a fresh name is not met again. -/
theorem path_notMem_leaves {parents more : List FileName} {name : FileName} {listing : Listing}
    (hfresh : name ∉ listing.names) :
    parents ++ name :: more ∉ (leaves parents listing).map Leaf.path := by
  intro hmem
  obtain ⟨leaf, hleaf, hpath⟩ := List.mem_map.mp hmem
  obtain ⟨other, hother, rest, hother'⟩ := path_of_mem_leaves hleaf
  rw [hother'] at hpath
  obtain ⟨rfl, -⟩ := List.cons.inj (List.append_cancel_left hpath)
  exact hfresh hother

theorem nodup_paths {parents : List FileName} {listing : Listing} (h : listing.Apart) :
    ((leaves parents listing).map Leaf.path).Nodup := by
  induction listing generalizing parents with
  | nil => exact List.nodup_nil
  | file name content rest ih =>
    obtain ⟨hfresh, hrest⟩ := h
    exact List.nodup_cons.mpr ⟨path_notMem_leaves hfresh, ih hrest⟩
  | link name target rest ih =>
    obtain ⟨hfresh, hrest⟩ := h
    exact List.nodup_cons.mpr ⟨path_notMem_leaves hfresh, ih hrest⟩
  | directory name children rest ihChildren ihRest =>
    obtain ⟨hfresh, hchildren, hrest⟩ := h
    rw [leaves, List.map_append, List.nodup_append']
    refine ⟨ihChildren hchildren, ihRest hrest, fun path hpath hother => ?_⟩
    obtain ⟨leaf, hleaf, rfl⟩ := List.mem_map.mp hpath
    obtain ⟨other, -, more, heq⟩ := path_of_mem_leaves hleaf
    rw [heq, List.append_assoc] at hother
    exact path_notMem_leaves hfresh hother

end Apart

section Results

variable {same : Name → Name → Bool} {tree : Tree} {request : UploadRequest}
  {resolved : ResolvedEntrypoint} {manifest : ArchiveManifest}

def archivedPaths (tree : Tree) (request : UploadRequest) : List (List FileName) :=
  ((leaves [] tree.listing).filter (Leaf.archived request.includeSymbolFiles)).map Leaf.path

theorem mem_archivedPaths {path : List FileName} :
    path ∈ archivedPaths tree request ↔ ∃ leaf ∈ leaves [] tree.listing,
      leaf.archived request.includeSymbolFiles = true ∧ leaf.path = path := by
  simp only [archivedPaths, List.mem_map, List.mem_filter, and_assoc]

theorem nodup_archivedPaths (tree : Tree) (request : UploadRequest) :
    (archivedPaths tree request).Nodup :=
  (nodup_paths tree.apart).sublist ((List.filter_sublist).map Leaf.path)

theorem nodup_archivePaths_iff : ((archivedPaths tree request).map archivePath).Nodup ↔
    ∀ a ∈ leaves [] tree.listing, ∀ b ∈ leaves [] tree.listing,
      a.archived request.includeSymbolFiles = true → b.archived request.includeSymbolFiles = true →
        a.decoded = b.decoded → a.path = b.path := by
  constructor
  · intro h a ha b hb harchived hother heq
    exact List.inj_on_of_nodup_map h (mem_archivedPaths.mpr ⟨a, ha, harchived, rfl⟩)
      (mem_archivedPaths.mpr ⟨b, hb, hother, rfl⟩) ((archivePath_eq_iff a b).mpr heq)
  · intro h
    refine (nodup_archivedPaths tree request).map_on fun p hp q hq heq => ?_
    obtain ⟨a, ha, harchived, rfl⟩ := mem_archivedPaths.mp hp
    obtain ⟨b, hb, hother, rfl⟩ := mem_archivedPaths.mp hq
    exact h a ha b hb harchived hother ((archivePath_eq_iff a b).mp heq)

theorem resolve_command {listing : Listing}
    (h : resolveEntrypoint same listing request = .ok resolved) :
    relativeLaunchCommand request.executable = .ok resolved.command := by
  obtain ⟨command, hcommand, h⟩ := Checks.bind_eq_ok.mp h
  obtain ⟨content, -, h⟩ := Checks.bind_eq_ok.mp h
  suffices hresolved : resolved.command = command by rw [hcommand, hresolved]
  cases hscript : hasShellScriptExtension (executableSegments command) with
  | true =>
    rw [if_pos hscript] at h
    cases harchitecture : request.targetArchitecture with
    | none =>
      rw [harchitecture] at h
      cases h
    | some architecture =>
      rw [harchitecture] at h
      cases hskip : request.skipScriptValidation with
      | true =>
        simp only [hskip, if_true] at h
        cases h
        rfl
      | false =>
        simp only [hskip, Bool.false_eq_true, if_false] at h
        obtain ⟨_, -, h⟩ := Checks.bind_eq_ok.mp h
        cases h
        rfl
  | false =>
    rw [if_neg (by simp [hscript])] at h
    obtain ⟨detected, -, h⟩ := Checks.bind_eq_ok.mp h
    split at h
    · cases h
    · split at h
      · cases h
        rfl
      · split_ifs at h
        cases h
        rfl

theorem validate_ok (h : validate same (.directory tree) request = .ok (resolved, manifest)) :
    relativeLaunchCommand request.executable = .ok resolved.command ∧
      collectEntries request.directory request.includeSymbolFiles tree.listing = .ok manifest := by
  obtain ⟨_, -, h⟩ := Checks.bind_eq_ok.mp h
  obtain ⟨listed, hlisted, h⟩ := Checks.bind_eq_ok.mp h
  obtain ⟨entrypoint, hentrypoint, h⟩ := Checks.bind_eq_ok.mp h
  obtain ⟨collected, hcollected, h⟩ := Checks.bind_eq_ok.mp h
  split_ifs at h
  cases h
  have htree : listed = tree := by
    rw [validateDirectory] at hlisted
    split at hlisted
    · cases hlisted
    · exact (Except.ok.inj hlisted).symm
  subst htree
  exact ⟨resolve_command hentrypoint, hcollected⟩

/-- An accepted upload ships its entrypoint, and each file under a name of its own, exactly when
the typed path leads to an archived file without a link and decoded names are distinct. -/
theorem entrypoint_shipped_iff
    (h : validate same (.directory tree) request = .ok (resolved, manifest)) :
    Shipped tree request resolved manifest ↔ Agrees tree request := by
  obtain ⟨hcommand, hcollect⟩ := validate_ok h
  obtain ⟨segments, hsegments, hne, hcommand⟩ := command_eq hcommand
  obtain ⟨hperm, hnamed, hcounted⟩ := collect_ok hcollect
  have hplain : ∀ s ∈ segments, Plain s := launchSegments_plain (fun s hs => by cases hs)
    (slashless_typedSegments request.executable) hsegments
  have hstrip : stripPrefix? "./" resolved.command = some (join "/" segments) := by
    rw [hcommand, stripPrefix_command]
  have hpaths : (manifest.entries.map (·.archivePath)).Perm
      ((archivedPaths tree request).map archivePath) := by
    have heq : manifest.entries.map (·.archivePath) =
        (manifest.entries.map (·.path)).map archivePath := by
      rw [List.map_map]
      exact List.map_congr_left hnamed
    rw [heq]
    exact hperm.map archivePath
  have hentry (leaf : Leaf) (hleaf : leaf ∈ leaves [] tree.listing)
      (harchived : leaf.archived request.includeSymbolFiles = true) :
      ∃ e ∈ manifest.entries, e.path = leaf.path ∧ e.archivePath = archivePath leaf.path := by
    have hpath : leaf.path ∈ manifest.entries.map (·.path) :=
      hperm.mem_iff.mpr (mem_archivedPaths.mpr ⟨leaf, hleaf, harchived, rfl⟩)
    obtain ⟨e, he, hpath⟩ := List.mem_map.mp hpath
    exact ⟨e, he, hpath, hpath ▸ hnamed e he⟩
  constructor
  · intro hshipped
    refine ⟨⟨segments, hsegments, ?_⟩, nodup_archivePaths_iff.mp (hpaths.nodup hshipped.distinct)⟩
    obtain ⟨path, hpath, hcount⟩ := hshipped.entrypoint
    obtain rfl := Option.some.inj (hstrip.symm.trans hpath)
    have hmem : join "/" segments ∈ manifest.entries.map (·.archivePath) :=
      List.count_pos_iff.mp (by omega)
    obtain ⟨path, hpath, heq⟩ := List.mem_map.mp (hpaths.mem_iff.mp hmem)
    obtain ⟨leaf, hleaf, harchived, rfl⟩ := mem_archivedPaths.mp hpath
    exact ⟨leaf, hleaf, harchived, (archivePath_eq_join_iff leaf hne hplain).mp heq⟩
  · intro hagrees
    have hdistinct : (manifest.entries.map (·.archivePath)).Nodup :=
      hpaths.symm.nodup (nodup_archivePaths_iff.mpr hagrees.apart)
    refine ⟨⟨join "/" segments, hstrip, ?_⟩, hdistinct, fun e he => ?_, ?_, hcounted⟩
    · obtain ⟨segments', hsegments', leaf, hleaf, harchived, hdecoded⟩ := hagrees.found
      obtain rfl := Option.some.inj (hsegments.symm.trans hsegments')
      obtain ⟨e, he, -, hname⟩ := hentry leaf hleaf harchived
      rw [(archivePath_eq_join_iff leaf hne hplain).mpr hdecoded] at hname
      exact List.count_eq_one_of_mem hdistinct (List.mem_map.mpr ⟨e, he, hname⟩)
    · rw [hnamed e he]
      refine archivePath_relative ?_
      have hpath : e.path ∈ manifest.entries.map (·.path) := List.mem_map_of_mem he
      obtain ⟨leaf, -, -, heq⟩ := mem_archivedPaths.mp (hperm.mem_iff.mp hpath)
      exact heq ▸ leaf_path_ne_nil leaf
    · intro leaf hleaf content hkind
      cases hleft : leaf.leftOut request.includeSymbolFiles with
      | true => exact .inr rfl
      | false =>
        refine .inl (hentry leaf hleaf ?_)
        rw [Leaf.archived, hleft, Leaf.isFile, hkind]
        rfl

/-- The header of a 64-bit little-endian x86-64 binary. -/
def elfHeader : List UInt8 :=
  elfMagic ++ [2, 1, 1, 0, 0, 0, 0, 0, 0, 0, 0, 0, 2, 0, 62, 0]

def serverName : FileName := ⟨nameOf "server", by decide, by decide, by decide, by decide⟩
def debugName : FileName := ⟨nameOf "server.debug", by decide, by decide, by decide, by decide⟩
def dataName : FileName := ⟨nameOf "data.bin", by decide, by decide, by decide, by decide⟩

/-- A directory of a server binary and a data file. -/
def serverTree (name : FileName) (hname : name ≠ dataName) : Tree :=
  ⟨.file name ⟨elfHeader, none⟩ (.file dataName ⟨[1, 2], none⟩ .nil),
    by simpa [Listing.Apart, Listing.names] using hname⟩

def serverRequest (executable : String) : UploadRequest :=
  ⟨"build", executable, "demo", none, false, false⟩

def serverEntrypoint (command : String) : ResolvedEntrypoint :=
  ⟨.elfBinary, .linuxX86_64, command⟩

theorem validate_server {name : FileName} (hname : name ≠ dataName) {executable : String}
    (hresolved : resolveEntrypoint (fun a b => a = b) (serverTree name hname).listing
      (serverRequest executable) = .ok resolved)
    (hcollected : collectEntries "build" false (serverTree name hname).listing = .ok manifest)
    (hentries : manifest.entries ≠ []) :
    validate (fun a b => a = b) (.directory (serverTree name hname)) (serverRequest executable) =
      .ok (resolved, manifest) := by
  have hfull : manifest.entries.isEmpty = false := by simpa using hentries
  refine Checks.bind_eq_ok.mpr ⟨(), rfl, Checks.bind_eq_ok.mpr ⟨serverTree name hname, rfl, ?_⟩⟩
  refine Checks.bind_eq_ok.mpr ⟨resolved, hresolved, ?_⟩
  refine Checks.bind_eq_ok.mpr ⟨manifest, hcollected, ?_⟩
  rw [hfull]
  rfl

theorem entrypoint_shipped_server : ∃ resolved manifest,
    validate (fun a b => a = b) (.directory (serverTree serverName (by decide)))
      (serverRequest "server") = .ok (resolved, manifest) ∧
    Shipped (serverTree serverName (by decide)) (serverRequest "server") resolved manifest := by
  have hresolved : resolveEntrypoint (fun a b => a = b)
      (serverTree serverName (by decide)).listing (serverRequest "server") =
        .ok (serverEntrypoint "./server") := by decide
  obtain ⟨manifest, hcollected⟩ : ∃ manifest, collectEntries "build" false
      (serverTree serverName (by decide)).listing = .ok manifest := ⟨_, rfl⟩
  have hpaths := (collect_ok hcollected).1
  have hentries : manifest.entries ≠ [] := by
    intro hnil
    rw [hnil] at hpaths
    cases hpaths.length_eq
  have hvalid := validate_server (by decide) hresolved hcollected hentries
  refine ⟨_, manifest, hvalid, (entrypoint_shipped_iff hvalid).mpr ⟨?_, ?_⟩⟩
  · exact ⟨["server"], by decide, _, List.mem_cons_self, by decide, by decide⟩
  · intro a ha b hb _ _ heq
    rcases List.mem_cons.mp ha with rfl | ha
    · rcases List.mem_cons.mp hb with rfl | hb
      · rfl
      · obtain rfl := List.mem_singleton.mp hb
        revert heq
        decide
    · obtain rfl := List.mem_singleton.mp ha
      rcases List.mem_cons.mp hb with rfl | hb
      · revert heq
        decide
      · obtain rfl := List.mem_singleton.mp hb
        rfl

/-- A server built as `server.debug` is accepted and left out of its image as a symbol file. -/
theorem debug_server_left_out : ∃ resolved manifest,
    validate (fun a b => a = b) (.directory (serverTree debugName (by decide)))
      (serverRequest "server.debug") = .ok (resolved, manifest) ∧
    resolved.command = "./server.debug" ∧ manifest.entries.map (·.path) = [[dataName]] ∧
    ¬Shipped (serverTree debugName (by decide)) (serverRequest "server.debug") resolved
      manifest := by
  have hresolved : resolveEntrypoint (fun a b => a = b)
      (serverTree debugName (by decide)).listing (serverRequest "server.debug") =
        .ok (serverEntrypoint "./server.debug") := by decide
  obtain ⟨manifest, hcollected⟩ : ∃ manifest, collectEntries "build" false
      (serverTree debugName (by decide)).listing = .ok manifest := ⟨_, rfl⟩
  obtain ⟨hperm, hnamed, -⟩ := collect_ok hcollected
  have hpaths : manifest.entries.map (·.path) = [[dataName]] := List.perm_singleton.mp hperm
  have hentries : manifest.entries ≠ [] := by
    intro hnil
    rw [hnil] at hpaths
    cases hpaths
  have hvalid := validate_server (by decide) hresolved hcollected hentries
  refine ⟨_, manifest, hvalid, rfl, hpaths, fun hshipped => ?_⟩
  obtain ⟨path, hpath, hcount⟩ := hshipped.entrypoint
  have hcommand : path = "server.debug" := by
    have hstrip : stripPrefix? "./" "./server.debug" = some "server.debug" := by decide
    exact Option.some.inj (hpath.symm.trans hstrip)
  subst hcommand
  have hmem : "server.debug" ∈ manifest.entries.map (·.archivePath) :=
    List.count_pos_iff.mp (by omega)
  obtain ⟨e, he, hname⟩ := List.mem_map.mp hmem
  have hpath : e.path ∈ [[dataName]] := hpaths ▸ List.mem_map_of_mem he
  rw [hnamed e he, List.mem_singleton.mp hpath] at hname
  revert hname
  decide

end Results

end UploadEntrypoint
