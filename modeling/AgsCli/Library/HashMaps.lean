import Mathlib.Data.List.Nodup
import Mathlib.Data.List.Perm.Basic
import Mathlib.Tactic.Common

/-! # Hash maps

Maps that enumerate their entries in no particular order: entry lists with distinct keys, and what
the accumulation of a list by key holds. -/
namespace HashMaps

variable {κ ν α : Type*} [DecidableEq κ]

namespace Entries

def lookup (k : κ) : List (κ × ν) → Option ν
  | [] => none
  | (k', v) :: rest => if k = k' then some v else lookup k rest

def update (k : κ) (f : Option ν → ν) : List (κ × ν) → List (κ × ν)
  | [] => [(k, f none)]
  | (k', v) :: rest => if k = k' then (k', f (some v)) :: rest else (k', v) :: update k f rest

theorem lookup_cons (k k' : κ) (v : ν) (l : List (κ × ν)) :
    lookup k ((k', v) :: l) = if k = k' then some v else lookup k l := rfl

theorem update_cons (k k' : κ) (f : Option ν → ν) (v : ν) (l : List (κ × ν)) :
    update k f ((k', v) :: l) =
      if k = k' then (k', f (some v)) :: l else (k', v) :: update k f l := rfl

theorem mem_of_lookup {k : κ} {v : ν} {l : List (κ × ν)} (h : lookup k l = some v) :
    (k, v) ∈ l := by
  induction l with
  | nil => cases h
  | cons e rest ih =>
    obtain ⟨k', v'⟩ := e
    rw [lookup_cons] at h
    split_ifs at h with hk
    · rw [hk, Option.some.inj h]
      exact List.mem_cons_self
    · exact List.mem_cons_of_mem _ (ih h)

theorem lookup_of_mem {k : κ} {v : ν} {l : List (κ × ν)} (hnodup : (l.map Prod.fst).Nodup)
    (h : (k, v) ∈ l) : lookup k l = some v := by
  induction l with
  | nil => cases h
  | cons e rest ih =>
    obtain ⟨k', v'⟩ := e
    rw [List.map_cons, List.nodup_cons] at hnodup
    rw [lookup_cons]
    rcases List.mem_cons.mp h with heq | hrest
    · obtain ⟨rfl, rfl⟩ := Prod.mk.inj heq
      rw [if_pos rfl]
    · have hne : k ≠ k' := by
        intro hk
        have hmem : k ∈ rest.map Prod.fst := List.mem_map_of_mem (f := Prod.fst) hrest
        exact hnodup.1 (hk ▸ hmem)
      rw [if_neg hne]
      exact ih hnodup.2 hrest

theorem lookup_update (k k' : κ) (f : Option ν → ν) (l : List (κ × ν)) :
    lookup k' (update k f l) = if k' = k then some (f (lookup k l)) else lookup k' l := by
  induction l with
  | nil => rfl
  | cons e rest ih =>
    obtain ⟨a, v⟩ := e
    by_cases hk : k = a
    · subst hk
      rw [update_cons, if_pos rfl, lookup_cons, lookup_cons, if_pos rfl, lookup_cons]
      split_ifs
      · rfl
      · rfl
    · rw [update_cons, if_neg hk, lookup_cons, ih, lookup_cons, lookup_cons, if_neg hk]
      by_cases ha : k' = a
      · rw [if_pos ha, if_pos ha, if_neg fun h => hk (h.symm.trans ha)]
      · rw [if_neg ha, if_neg ha]

theorem mem_keys_update {k k' : κ} {f : Option ν → ν} {l : List (κ × ν)} :
    k' ∈ (update k f l).map Prod.fst ↔ k' = k ∨ k' ∈ l.map Prod.fst := by
  induction l with
  | nil => simp [update]
  | cons e rest ih =>
    obtain ⟨a, v⟩ := e
    rw [update_cons]
    split_ifs with hk
    · subst hk
      simp
    · rw [List.map_cons, List.mem_cons, ih, List.map_cons, List.mem_cons]
      exact or_left_comm

theorem nodup_update {k : κ} {f : Option ν → ν} {l : List (κ × ν)}
    (h : (l.map Prod.fst).Nodup) : ((update k f l).map Prod.fst).Nodup := by
  induction l with
  | nil => simp [update]
  | cons e rest ih =>
    obtain ⟨a, v⟩ := e
    rw [List.map_cons, List.nodup_cons] at h
    rw [update_cons]
    split_ifs with hk
    · rw [List.map_cons, List.nodup_cons]
      exact h
    · rw [List.map_cons, List.nodup_cons]
      refine ⟨fun hmem => ?_, ih h.2⟩
      rcases mem_keys_update.mp hmem with heq | hrest
      · exact hk heq.symm
      · exact h.1 hrest

end Entries

structure HashMap (κ ν : Type*) [DecidableEq κ] where
  entries : List (κ × ν)
  nodup : (entries.map Prod.fst).Nodup

namespace HashMap

def empty : HashMap κ ν := ⟨[], List.nodup_nil⟩

instance : Inhabited (HashMap κ ν) := ⟨empty⟩

def get? (m : HashMap κ ν) (k : κ) : Option ν := Entries.lookup k m.entries

def keys (m : HashMap κ ν) : List κ := m.entries.map Prod.fst

/-- `entry(k)` with a value to put in, given the one that is there. -/
def update (m : HashMap κ ν) (k : κ) (f : Option ν → ν) : HashMap κ ν :=
  ⟨Entries.update k f m.entries, Entries.nodup_update m.nodup⟩

theorem get?_update (m : HashMap κ ν) (k k' : κ) (f : Option ν → ν) :
    (m.update k f).get? k' = if k' = k then some (f (m.get? k)) else m.get? k' :=
  Entries.lookup_update k k' f m.entries

section Collect

/-- Accumulate a list by key. -/
def collect (key : α → κ) (f : α → Option ν → ν) (l : List α) : HashMap κ ν :=
  l.foldl (fun m a => m.update (key a) (f a)) empty

variable {key : α → κ} {f : α → Option ν → ν}

theorem get?_foldl_update (l : List α) (m : HashMap κ ν) (k : κ) :
    (l.foldl (fun m a => m.update (key a) (f a)) m).get? k =
      (l.filter fun a => key a = k).foldl (fun v a => some (f a v)) (m.get? k) := by
  induction l generalizing m with
  | nil => rfl
  | cons a rest ih =>
    rw [List.foldl_cons, ih, get?_update, List.filter_cons]
    by_cases hk : key a = k
    · rw [if_pos hk.symm, if_pos (decide_eq_true hk), List.foldl_cons, hk]
    · rw [if_neg fun h => hk h.symm, if_neg (by simpa using hk)]

/-- A key holds what its own elements accumulate to. -/
theorem get?_collect (l : List α) (k : κ) : (collect key f l).get? k =
    (l.filter fun a => key a = k).foldl (fun v a => some (f a v)) none :=
  get?_foldl_update l empty k

end Collect

end HashMap

end HashMaps
