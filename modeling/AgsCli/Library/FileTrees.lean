import Mathlib.Data.List.Induction
import Mathlib.Data.List.Nodup
import Mathlib.Tactic.Common

/-! # File trees

A file system as its entries by absolute path: looking up, listing, moving and removing, and how a
written path is resolved through links. -/
namespace FileTrees

variable {N : Type}

abbrev NodePath (N : Type) := List N

inductive PathPart (N : Type)
  | here
  | up
  | name (n : N)
  deriving DecidableEq

structure Written (N : Type) where
  absolute : Bool
  parts : List (PathPart N)
  deriving DecidableEq

inductive Node (N : Type)
  | dir
  | file (id : Nat)
  | link (id : Nat) (target : Written N)
  deriving DecidableEq

def Node.id? : Node N → Option Nat
  | .dir => none
  | .file id => some id
  | .link id _ => some id

abbrev Nodes (N : Type) := List (NodePath N × Node N)

def paths (nodes : Nodes N) : List (NodePath N) := nodes.map (·.1)

/-- Every path once, in a directory; every file once. -/
structure FileTree (N : Type) where
  nodes : Nodes N
  paths_nodup : (paths nodes).Nodup
  root : ([], Node.dir) ∈ nodes
  rooted : ∀ e ∈ nodes, e.1 ≠ [] → (e.1.dropLast, Node.dir) ∈ nodes
  ids_nodup : (nodes.filterMap (·.2.id?)).Nodup

section Operations

variable [DecidableEq N]

def lookup (nodes : Nodes N) (path : NodePath N) : Option (Node N) :=
  (nodes.find? fun e => e.1 = path).map (·.2)

def nameIn (dir path : NodePath N) : Option N :=
  if path ≠ [] ∧ path.dropLast = dir then path.getLast? else none

def children (nodes : Nodes N) (dir : NodePath N) : List N :=
  nodes.filterMap fun e => nameIn dir e.1

def relocate (source target path : NodePath N) : NodePath N :=
  if source <+: path then target ++ path.drop source.length else path

def move (source target : NodePath N) (nodes : Nodes N) : Nodes N :=
  nodes.map fun e => (relocate source target e.1, e.2)

/-- `rename`: a file takes a file's place, a directory an empty directory's. -/
def rename (source target : NodePath N) (nodes : Nodes N) : Option (Nodes N) :=
  match lookup nodes source, lookup nodes target with
  | none, _ => none
  | some _, none =>
    if (target.dropLast, Node.dir) ∈ nodes ∧ ¬source <+: target then
      some (move source target nodes)
    else none
  | some moved, some old =>
    if source = target then some nodes
    else if (moved = .dir ↔ old = .dir) ∧ children nodes target = [] ∧ ¬source <+: target then
      some (move source target (nodes.filter fun e => e.1 ≠ target))
    else none

def removeAll (dir : NodePath N) (nodes : Nodes N) : Nodes N :=
  nodes.filter fun e => ¬dir <+: e.1

def filesUnder (dir : NodePath N) (nodes : Nodes N) : List Nat :=
  nodes.filterMap fun e => if dir <+: e.1 then e.2.id? else none

inductive ResolveError
  | notFound
  | notADirectory
  | loop
  deriving DecidableEq

def walk (follow : NodePath N → List (PathPart N) → Except ResolveError (NodePath N))
    (nodes : Nodes N) : NodePath N → List (PathPart N) → Except ResolveError (NodePath N)
  | current, [] => .ok current
  | current, .here :: rest => walk follow nodes current rest
  | current, .up :: rest => walk follow nodes current.dropLast rest
  | current, .name n :: rest =>
    match lookup nodes (current ++ [n]) with
    | none => .error .notFound
    | some .dir => walk follow nodes (current ++ [n]) rest
    | some (.file _) => if rest = [] then .ok (current ++ [n]) else .error .notADirectory
    | some (.link _ target) =>
      follow (if target.absolute then [] else current) (target.parts ++ rest)

def resolve (nodes : Nodes N) :
    Nat → NodePath N → List (PathPart N) → Except ResolveError (NodePath N)
  | 0 => walk (fun _ _ => .error .loop) nodes
  | links + 1 => walk (resolve nodes links) nodes

end Operations

section Moves

variable {nodes : Nodes N} {source target : NodePath N} {n : N}

structure Apart (source target : NodePath N) : Prop where
  left : ¬source <+: target
  right : ¬target <+: source

theorem Apart.symm (h : Apart source target) : Apart target source := ⟨h.right, h.left⟩

/-- Paths in one of two apart directories are not in the other. -/
theorem Apart.not_below (h : Apart source target) {path : NodePath N} (hpath : source <+: path) :
    ¬target <+: path := by
  intro htarget
  rcases List.prefix_or_prefix_of_prefix hpath htarget with hp | hp
  · exact h.left hp
  · exact h.right hp

theorem child_below (path : NodePath N) : path <+: path ++ [n] := List.prefix_append path [n]

theorem Apart.child (h : Apart source target) : ¬source ++ [n] <+: target ++ [n] := by
  intro hp
  exact h.not_below ((child_below source).trans hp) (child_below target)

variable [DecidableEq N]

/-- The entries of some names of a directory, moved to another one. -/
def relocateAll (source target : NodePath N) (names : List N) (path : NodePath N) : NodePath N :=
  if ∃ n ∈ names, source ++ [n] <+: path then target ++ path.drop source.length else path

theorem relocate_child {path : NodePath N} (hpath : source ++ [n] <+: path) :
    relocate (source ++ [n]) (target ++ [n]) path = target ++ path.drop source.length := by
  obtain ⟨rest, rfl⟩ := hpath
  simp [relocate]

theorem relocateAll_cons (h : Apart source target) (rest : List N) (path : NodePath N) :
    relocateAll source target rest (relocate (source ++ [n]) (target ++ [n]) path) =
      relocateAll source target (n :: rest) path := by
  by_cases hpath : source ++ [n] <+: path
  · have hout : ¬∃ k ∈ rest, source ++ [k] <+: target ++ path.drop source.length := by
      rintro ⟨k, -, hk⟩
      exact h.not_below ((child_below source).trans hk) (List.prefix_append target _)
    rw [relocate_child hpath, relocateAll, if_neg hout, relocateAll,
      if_pos ⟨n, List.mem_cons_self, hpath⟩]
  · rw [relocate, if_neg hpath]
    have hiff : (∃ k ∈ rest, source ++ [k] <+: path) ↔ ∃ k ∈ n :: rest, source ++ [k] <+: path := by
      simp [hpath]
    simp only [relocateAll, hiff]

theorem relocateAll_same (names : List N) {path : NodePath N} (h : ¬source <+: path) :
    relocateAll source target names path = path := by
  rw [relocateAll, if_neg]
  rintro ⟨n, -, hn⟩
  exact h ((child_below source).trans hn)

theorem lookup_isSome {path : NodePath N} (h : path ∈ paths nodes) :
    ∃ node, lookup nodes path = some node := by
  obtain ⟨e, he, rfl⟩ := List.mem_map.mp h
  have hfound : (nodes.find? fun e' => e'.1 = e.1).isSome :=
    List.find?_isSome.mpr ⟨e, he, by simp⟩
  obtain ⟨found, hfound⟩ := Option.isSome_iff_exists.mp hfound
  exact ⟨found.2, by rw [lookup, hfound]; rfl⟩

theorem lookup_eq_none {path : NodePath N} (h : path ∉ paths nodes) : lookup nodes path = none := by
  have hnone : (nodes.find? fun e => e.1 = path) = none := by
    rw [List.find?_eq_none]
    intro e he heq
    exact h (List.mem_map.mpr ⟨e, he, by simpa using heq⟩)
  rw [lookup, hnone]
  rfl

structure Movable (nodes : Nodes N) (source target : NodePath N) (names : List N) : Prop where
  there : ∀ n ∈ names, source ++ [n] ∈ paths nodes
  dir : (target, Node.dir) ∈ nodes
  free : ∀ n ∈ names, target ++ [n] ∉ paths nodes

theorem Movable.rename_eq {rest : List N} (h : Movable nodes source target (n :: rest))
    (hapart : Apart source target) : rename (source ++ [n]) (target ++ [n]) nodes =
      some (move (source ++ [n]) (target ++ [n]) nodes) := by
  obtain ⟨node, hnode⟩ := lookup_isSome (h.there n List.mem_cons_self)
  have hfree := lookup_eq_none (h.free n List.mem_cons_self)
  have hdir : ((target ++ [n]).dropLast, Node.dir) ∈ nodes := by
    rw [List.dropLast_concat]
    exact h.dir
  simp only [rename, hnode, hfree]
  rw [if_pos ⟨hdir, hapart.child⟩]

theorem Movable.tail {rest : List N} (h : Movable nodes source target (n :: rest))
    (hnodup : (n :: rest).Nodup) (hapart : Apart source target) :
    Movable (move (source ++ [n]) (target ++ [n]) nodes) source target rest := by
  have hne : ∀ k ∈ rest, k ≠ n := by
    rintro k hk rfl
    exact (List.nodup_cons.mp hnodup).1 hk
  refine ⟨?_, ?_, ?_⟩
  · intro k hk
    obtain ⟨e, he, heq⟩ := List.mem_map.mp (h.there k (List.mem_cons_of_mem n hk))
    refine List.mem_map.mpr ⟨_, List.mem_map_of_mem he, ?_⟩
    have hout : ¬source ++ [n] <+: e.1 := by
      rw [heq]
      intro hp
      have heq' := hp.eq_of_length (by simp)
      exact hne k hk (by simpa using heq'.symm)
    change relocate _ _ e.1 = _
    rw [relocate, if_neg hout, heq]
  · refine List.mem_map.mpr ⟨_, h.dir, ?_⟩
    have hout : ¬source ++ [n] <+: target := fun hp => hapart.left ((child_below source).trans hp)
    simp only [relocate, if_neg hout]
  · intro k hk hmem
    obtain ⟨e', he', heq⟩ := List.mem_map.mp hmem
    obtain ⟨e, he, rfl⟩ := List.mem_map.mp he'
    by_cases hpath : source ++ [n] <+: e.1
    · change relocate _ _ e.1 = _ at heq
      rw [relocate_child hpath] at heq
      have hdrop : e.1.drop source.length = [k] := List.append_cancel_left heq
      obtain ⟨rest', hrest⟩ := hpath
      rw [← hrest, List.append_assoc, List.drop_left] at hdrop
      exact hne k hk (List.cons.inj hdrop).1.symm
    · change relocate _ _ e.1 = _ at heq
      rw [relocate, if_neg hpath] at heq
      exact h.free k (List.mem_cons_of_mem n hk) (List.mem_map.mpr ⟨e, he, heq⟩)

end Moves

section Trees

theorem id_of_file {node : Node N} (h : node ≠ .dir) : ∃ id, node.id? = some id := by
  cases node with
  | dir => exact absurd rfl h
  | file id => exact ⟨id, rfl⟩
  | link id target => exact ⟨id, rfl⟩

theorem file_of_id {node : Node N} {id : Nat} (h : node.id? = some id) : node ≠ .dir := by
  rintro rfl
  cases h

theorem eq_of_id {nodes : Nodes N} (h : (nodes.filterMap (·.2.id?)).Nodup)
    {e e' : NodePath N × Node N}
    (he : e ∈ nodes) (he' : e' ∈ nodes) {id : Nat} (hid : e.2.id? = some id)
    (hid' : e'.2.id? = some id) : e = e' := by
  induction nodes with
  | nil => cases he
  | cons first rest ih =>
    have hout : ∀ f ∈ rest, f.2.id? = some id → first.2.id? ≠ some id := by
      intro f hf hfid hfirst
      simp only [List.filterMap_cons, hfirst] at h
      exact (List.nodup_cons.mp h).1 (List.mem_filterMap.mpr ⟨f, hf, hfid⟩)
    have hrest : (rest.filterMap (·.2.id?)).Nodup := by
      rw [List.filterMap_cons] at h
      split at h
      · exact h
      · exact (List.nodup_cons.mp h).2
    rcases List.mem_cons.mp he with heq | hrest₁
    · rcases List.mem_cons.mp he' with heq' | hrest₂
      · rw [heq, heq']
      · exact absurd (heq ▸ hid) (hout e' hrest₂ hid')
    · rcases List.mem_cons.mp he' with heq' | hrest₂
      · exact absurd (heq' ▸ hid') (hout e hrest₁ hid)
      · exact ih hrest hrest₁ hrest₂

variable (tree : FileTree N)

theorem FileTree.dir_of_below {path : NodePath N} (hpath : path ∈ paths tree.nodes)
    {dir : NodePath N} (hdir : dir <+: path) : dir ∈ paths tree.nodes := by
  obtain ⟨rest, rfl⟩ := hdir
  induction rest using List.reverseRecOn with
  | nil => simpa using hpath
  | append_singleton rest n ih =>
    apply ih
    obtain ⟨e, he, heq⟩ := List.mem_map.mp hpath
    have hroot := tree.rooted e he (by simp [heq])
    rw [heq, ← List.append_assoc, List.dropLast_concat] at hroot
    exact List.mem_map.mpr ⟨_, hroot, rfl⟩

variable [DecidableEq N]

theorem mem_children {nodes : Nodes N} {dir : NodePath N} {n : N} :
    n ∈ children nodes dir ↔ dir ++ [n] ∈ paths nodes := by
  constructor
  · intro h
    obtain ⟨e, he, hname⟩ := List.mem_filterMap.mp h
    unfold nameIn at hname
    split_ifs at hname with hin
    refine List.mem_map.mpr ⟨e, he, ?_⟩
    rw [← hin.2]
    exact (List.dropLast_append_getLast? n hname).symm
  · intro h
    obtain ⟨e, he, heq⟩ := List.mem_map.mp h
    exact List.mem_filterMap.mpr ⟨e, he, by simp [nameIn, heq]⟩

theorem FileTree.children_nodup (dir : NodePath N) : (children tree.nodes dir).Nodup := by
  have hmap : children tree.nodes dir = (paths tree.nodes).filterMap (nameIn dir) := by
    rw [children, paths, List.filterMap_map]
    rfl
  rw [hmap]
  refine tree.paths_nodup.filterMap ?_
  intro path path' n hn hn'
  simp only [nameIn, Option.mem_def] at hn hn'
  split_ifs at hn with hin
  split_ifs at hn' with hin'
  rw [← List.dropLast_append_getLast? n hn, ← List.dropLast_append_getLast? n hn', hin.2, hin'.2]

theorem FileTree.below_child {dir path : NodePath N} (hpath : path ∈ paths tree.nodes)
    (hdir : dir <+: path) (hne : path ≠ dir) :
    ∃ n ∈ children tree.nodes dir, dir ++ [n] <+: path := by
  obtain ⟨rest, rfl⟩ := hdir
  cases rest with
  | nil => exact absurd (List.append_nil dir) hne
  | cons n rest =>
    have hchild : dir ++ [n] <+: dir ++ n :: rest := ⟨rest, by simp⟩
    exact ⟨n, mem_children.mpr (tree.dir_of_below hpath hchild), hchild⟩

theorem mem_filesUnder {nodes : Nodes N} {dir : NodePath N} {id : Nat} :
    id ∈ filesUnder dir nodes ↔ ∃ e ∈ nodes, dir <+: e.1 ∧ e.2.id? = some id := by
  simp only [filesUnder, List.mem_filterMap]
  constructor
  · rintro ⟨e, he, hid⟩
    split_ifs at hid with hdir
    exact ⟨e, he, hdir, hid⟩
  · rintro ⟨e, he, hdir, hid⟩
    exact ⟨e, he, by rw [if_pos hdir, hid]⟩

end Trees

end FileTrees
