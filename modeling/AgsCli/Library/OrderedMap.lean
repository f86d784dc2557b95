import Mathlib.Algebra.Order.Ring.Int
import Mathlib.Data.List.Induction
import Mathlib.Data.List.Nodup
import Mathlib.Order.Basic
import Mathlib.Tactic.Common

/-! # Ordered finite maps

Entry lists with first-match lookup and ordered insertion, and the map type built on them.
The lookup laws need no sortedness; sortedness only buys extensionality. -/
namespace OrderedMap

variable {κ ν : Type*} [LinearOrder κ]

namespace Entries

def lookup (k : κ) : List (κ × ν) → Option ν
  | [] => none
  | (k', v) :: rest => if k = k' then some v else lookup k rest

def insert (k : κ) (v : ν) : List (κ × ν) → List (κ × ν)
  | [] => [(k, v)]
  | (k', v') :: rest =>
    if k < k' then (k, v) :: (k', v') :: rest
    else if k = k' then (k, v) :: rest
    else (k', v') :: insert k v rest

def erase (k : κ) (l : List (κ × ν)) : List (κ × ν) := l.filter fun e => e.1 ≠ k

@[simp] theorem lookup_nil (k : κ) : lookup k ([] : List (κ × ν)) = none := rfl

theorem lookup_cons (k k' : κ) (v : ν) (l : List (κ × ν)) :
    lookup k ((k', v) :: l) = if k = k' then some v else lookup k l := rfl

theorem insert_nil (k : κ) (v : ν) : insert k v ([] : List (κ × ν)) = [(k, v)] := rfl

theorem insert_cons (k k' : κ) (v v' : ν) (l : List (κ × ν)) :
    insert k v ((k', v') :: l) = if k < k' then (k, v) :: (k', v') :: l
      else if k = k' then (k, v) :: l else (k', v') :: insert k v l := rfl

@[simp] theorem lookup_insert_self (k : κ) (v : ν) (l : List (κ × ν)) :
    lookup k (insert k v l) = some v := by
  induction l with
  | nil => simp [insert_nil, lookup_cons]
  | cons e rest ih =>
    obtain ⟨k', v'⟩ := e
    simp only [insert_cons]
    split_ifs with hlt heq
    · simp [lookup_cons]
    · simp [lookup_cons]
    · simpa [lookup_cons, heq] using ih

theorem lookup_insert_of_ne {k k' : κ} (h : k' ≠ k) (v : ν) (l : List (κ × ν)) :
    lookup k' (insert k v l) = lookup k' l := by
  induction l with
  | nil => simp [insert_nil, lookup_cons, h]
  | cons e rest ih =>
    obtain ⟨a, b⟩ := e
    simp only [insert_cons]
    split_ifs with hlt heq
    · simp [lookup_cons, h]
    · subst heq; simp [lookup_cons, h]
    · simp only [lookup_cons, ih]

theorem lookup_insert (k k' : κ) (v : ν) (l : List (κ × ν)) :
    lookup k' (insert k v l) = if k' = k then some v else lookup k' l := by
  split_ifs with h
  · subst h; simp
  · exact lookup_insert_of_ne h v l

theorem insert_insert (k : κ) (v w : ν) (l : List (κ × ν)) :
    insert k v (insert k w l) = insert k v l := by
  induction l with
  | nil => simp [insert_nil, insert_cons]
  | cons e rest ih =>
    obtain ⟨a, b⟩ := e
    simp only [insert_cons]
    split_ifs with hlt heq
    · simp [insert_cons]
    · simp [insert_cons]
    · simp [insert_cons, hlt, heq, ih]

/-- Insertions at different keys commute on any entry list, sorted or not. -/
theorem insert_comm {k k' : κ} (h : k ≠ k') (v w : ν) (l : List (κ × ν)) :
    insert k v (insert k' w l) = insert k' w (insert k v l) := by
  induction l with
  | nil =>
    rcases lt_or_gt_of_ne h with hk | hk
    · simp [insert_nil, insert_cons, hk, not_lt_of_gt hk, h.symm]
    · simp [insert_nil, insert_cons, hk, not_lt_of_gt hk, h]
  | cons e rest ih =>
    obtain ⟨a, b⟩ := e
    rcases lt_trichotomy k a with ha | ha | ha <;> rcases lt_trichotomy k' a with hb | hb | hb
    · rcases lt_or_gt_of_ne h with hk | hk
      · simp [insert_cons, ha, hb, hk, not_lt_of_gt hk, h.symm]
      · simp [insert_cons, ha, hb, hk, not_lt_of_gt hk, h]
    · subst hb; simp [insert_cons, ha, not_lt_of_gt ha, h.symm]
    · have hk := ha.trans hb
      simp [insert_cons, ha, not_lt_of_gt hb, hb.ne', not_lt_of_gt hk, h.symm]
    · subst ha; simp [insert_cons, hb, not_lt_of_gt hb, h]
    · exact absurd (ha.trans hb.symm) h
    · subst ha; simp [insert_cons, not_lt_of_gt hb, h.symm]
    · have hk := hb.trans ha
      simp [insert_cons, hb, not_lt_of_gt ha, ha.ne', not_lt_of_gt hk, h]
    · subst hb; simp [insert_cons, not_lt_of_gt ha, h]
    · simp [insert_cons, not_lt_of_gt ha, ha.ne', not_lt_of_gt hb, hb.ne', ih]

theorem mem_insert {k : κ} {v : ν} {e : κ × ν} {l : List (κ × ν)}
    (h : e ∈ insert k v l) : e = (k, v) ∨ e ∈ l := by
  induction l with
  | nil => simpa [insert_nil] using h
  | cons a rest ih =>
    obtain ⟨a, b⟩ := a
    simp only [insert_cons] at h
    split_ifs at h
    · simpa using h
    · rcases List.mem_cons.mp h with h | h
      · exact Or.inl h
      · exact Or.inr (List.mem_cons_of_mem _ h)
    · rcases List.mem_cons.mp h with h | h
      · exact Or.inr (h ▸ List.mem_cons_self)
      · exact (ih h).imp id (List.mem_cons_of_mem _)

def Sorted (l : List (κ × ν)) : Prop := l.Pairwise fun a b => a.1 < b.1

theorem sorted_insert (k : κ) (v : ν) {l : List (κ × ν)} (h : Sorted l) :
    Sorted (insert k v l) := by
  induction l with
  | nil => simp [insert_nil, Sorted]
  | cons e rest ih =>
    obtain ⟨a, b⟩ := e
    obtain ⟨hhead, htail⟩ := List.pairwise_cons.mp h
    simp only [insert_cons]
    split_ifs with hlt heq
    · refine List.pairwise_cons.mpr ⟨fun e he => ?_, h⟩
      rcases List.mem_cons.mp he with rfl | he
      · exact hlt
      · exact hlt.trans (hhead e he)
    · subst heq; exact List.pairwise_cons.mpr ⟨hhead, htail⟩
    · refine List.pairwise_cons.mpr ⟨fun e he => ?_, ih htail⟩
      rcases mem_insert he with rfl | he
      · exact lt_of_le_of_ne (not_lt.mp hlt) (Ne.symm heq)
      · exact hhead e he

theorem lookup_eq_none_of_lt {k : κ} {l : List (κ × ν)} (h : ∀ e ∈ l, k < e.1) :
    lookup k l = none := by
  induction l with
  | nil => rfl
  | cons e rest ih =>
    obtain ⟨a, b⟩ := e
    have ha : k < a := h (a, b) List.mem_cons_self
    simp [lookup_cons, ha.ne, ih fun e he => h e (List.mem_cons_of_mem _ he)]

theorem lookup_isSome_iff {k : κ} {l : List (κ × ν)} :
    (lookup k l).isSome ↔ ∃ v, (k, v) ∈ l := by
  induction l with
  | nil => simp
  | cons e rest ih =>
    obtain ⟨a, b⟩ := e
    simp only [lookup_cons]
    split_ifs with h
    · subst h; simp
    · simp [ih, h]

theorem mem_of_lookup {k : κ} {v : ν} {l : List (κ × ν)} (h : lookup k l = some v) :
    (k, v) ∈ l := by
  induction l with
  | nil => simp at h
  | cons e rest ih =>
    obtain ⟨a, b⟩ := e
    simp only [lookup_cons] at h
    split_ifs at h with hk
    · obtain rfl := Option.some.inj h; subst hk; exact List.mem_cons_self
    · exact List.mem_cons_of_mem _ (ih h)

theorem lookup_of_mem {k : κ} {v : ν} {l : List (κ × ν)} (hsorted : Sorted l)
    (h : (k, v) ∈ l) : lookup k l = some v := by
  induction l with
  | nil => cases h
  | cons e rest ih =>
    obtain ⟨a, b⟩ := e
    obtain ⟨hlt, hrest⟩ := List.pairwise_cons.mp hsorted
    rw [lookup_cons]
    rcases List.mem_cons.mp h with heq | hmem
    · obtain ⟨rfl, rfl⟩ := Prod.mk.inj heq
      rw [if_pos rfl]
    · rw [if_neg (ne_of_gt (hlt (k, v) hmem)), ih hrest hmem]

theorem lookup_erase (k k' : κ) (l : List (κ × ν)) :
    lookup k' (erase k l) = if k' = k then none else lookup k' l := by
  induction l with
  | nil => simp [erase]
  | cons e rest ih =>
    obtain ⟨a, b⟩ := e
    have hstep : erase k ((a, b) :: rest) =
        if a ≠ k then (a, b) :: erase k rest else erase k rest := by
      simp [erase, List.filter_cons]
    rw [hstep]
    by_cases ha : a = k
    · subst ha
      rw [if_neg (by simp), ih, lookup_cons]
      split_ifs <;> rfl
    · by_cases hk : k' = k
      · subst hk; simp [ha, lookup_cons, ih, Ne.symm ha]
      · simp [ha, lookup_cons, ih, hk]

theorem lookup_filter (p : κ → ν → Bool) {l : List (κ × ν)} (h : Sorted l) (k : κ) :
    lookup k (l.filter fun e => p e.1 e.2) = (lookup k l).filter (p k) := by
  induction l with
  | nil => rfl
  | cons e rest ih =>
    obtain ⟨a, b⟩ := e
    obtain ⟨hhead, htail⟩ := List.pairwise_cons.mp h
    have ih := ih htail
    by_cases hk : k = a
    · subst hk
      have hrest : lookup k rest = none := lookup_eq_none_of_lt hhead
      by_cases hp : p k b = true
      · simp [lookup_cons, hp, Option.filter]
      · simpa [lookup_cons, hp, hrest, Option.filter] using ih
    · by_cases hp : p a b = true
      · simpa [lookup_cons, hp, hk] using ih
      · simpa [lookup_cons, hp, hk] using ih

theorem lookup_filter_key (p : κ → Bool) {k : κ} (hk : p k = true) (l : List (κ × ν)) :
    lookup k (l.filter fun e => p e.1) = lookup k l := by
  induction l with
  | nil => rfl
  | cons e rest ih =>
    obtain ⟨a, b⟩ := e
    rw [List.filter_cons, lookup_cons]
    by_cases ha : k = a
    · subst ha
      rw [if_pos hk, lookup_cons, if_pos rfl, if_pos rfl]
    · rw [if_neg ha]
      split_ifs with hp
      · rw [lookup_cons, if_neg ha, ih]
      · exact ih

theorem sorted_erase (k : κ) {l : List (κ × ν)} (h : Sorted l) : Sorted (erase k l) :=
  h.sublist List.filter_sublist

/-- Two sorted entry lists with the same lookups are equal. -/
theorem sorted_ext {l m : List (κ × ν)} (hl : Sorted l) (hm : Sorted m)
    (h : ∀ k, lookup k l = lookup k m) : l = m := by
  induction l generalizing m with
  | nil =>
    cases m with
    | nil => rfl
    | cons e m => obtain ⟨a, b⟩ := e; simpa [lookup_cons] using h a
  | cons e l ih =>
    obtain ⟨a, b⟩ := e
    obtain ⟨hal, hl⟩ := List.pairwise_cons.mp hl
    cases m with
    | nil => simpa [lookup_cons] using h a
    | cons f m =>
      obtain ⟨c, d⟩ := f
      obtain ⟨hcm, hm'⟩ := List.pairwise_cons.mp hm
      have hac : a = c := by
        rcases lt_trichotomy a c with hlt | heq | hgt
        · have hnone : lookup a m = none :=
            lookup_eq_none_of_lt fun e he => hlt.trans (hcm e he)
          simpa [lookup_cons, hlt.ne, hnone] using h a
        · exact heq
        · have hnone : lookup c l = none :=
            lookup_eq_none_of_lt fun e he => hgt.trans (hal e he)
          simpa [lookup_cons, hgt.ne, hnone] using h c
      subst hac
      have hbd : b = d := by simpa [lookup_cons] using h a
      subst hbd
      congr 1
      refine ih hl hm' fun k => ?_
      by_cases hk : k = a
      · subst hk
        rw [lookup_eq_none_of_lt hal, lookup_eq_none_of_lt hcm]
      · simpa [lookup_cons, hk] using h k

end Entries

@[ext]
structure BTreeMap (κ ν : Type*) [LinearOrder κ] where
  entries : List (κ × ν)
  sorted : Entries.Sorted entries

namespace BTreeMap

def empty : BTreeMap κ ν := ⟨[], List.Pairwise.nil⟩

instance : EmptyCollection (BTreeMap κ ν) := ⟨empty⟩
instance : Inhabited (BTreeMap κ ν) := ⟨empty⟩

instance [DecidableEq ν] : DecidableEq (BTreeMap κ ν) := fun m n =>
  decidable_of_iff (m.entries = n.entries) BTreeMap.ext_iff.symm

def get? (m : BTreeMap κ ν) (k : κ) : Option ν := Entries.lookup k m.entries

def contains (m : BTreeMap κ ν) (k : κ) : Bool := (m.get? k).isSome

def insert (m : BTreeMap κ ν) (k : κ) (v : ν) : BTreeMap κ ν :=
  ⟨Entries.insert k v m.entries, Entries.sorted_insert k v m.sorted⟩

def erase (m : BTreeMap κ ν) (k : κ) : BTreeMap κ ν :=
  ⟨Entries.erase k m.entries, Entries.sorted_erase k m.sorted⟩

def retain (m : BTreeMap κ ν) (p : κ → ν → Bool) : BTreeMap κ ν :=
  ⟨m.entries.filter fun e => p e.1 e.2, List.Pairwise.filter _ m.sorted⟩

def keys (m : BTreeMap κ ν) : List κ := m.entries.map Prod.fst

/-- Insert the pairs of `l` in order, a later pair replacing an earlier one of its key. -/
def insertAll (m : BTreeMap κ ν) (l : List (κ × ν)) : BTreeMap κ ν :=
  l.foldl (fun acc e => acc.insert e.1 e.2) m

def ofList (l : List (κ × ν)) : BTreeMap κ ν := insertAll empty l

def extend (m n : BTreeMap κ ν) : BTreeMap κ ν := m.insertAll n.entries

theorem get?_of_mem {m : BTreeMap κ ν} {e : κ × ν} (h : e ∈ m.entries) :
    m.get? e.1 = some e.2 := Entries.lookup_of_mem m.sorted h

@[simp] theorem get?_empty (k : κ) : (empty : BTreeMap κ ν).get? k = none := rfl

@[simp] theorem get?_insert_self (m : BTreeMap κ ν) (k : κ) (v : ν) :
    (m.insert k v).get? k = some v := Entries.lookup_insert_self k v m.entries

theorem get?_insert_of_ne (m : BTreeMap κ ν) {k k' : κ} (h : k' ≠ k) (v : ν) :
    (m.insert k v).get? k' = m.get? k' := Entries.lookup_insert_of_ne h v m.entries

theorem get?_insert (m : BTreeMap κ ν) (k k' : κ) (v : ν) :
    (m.insert k v).get? k' = if k' = k then some v else m.get? k' :=
  Entries.lookup_insert k k' v m.entries

theorem get?_erase (m : BTreeMap κ ν) (k k' : κ) :
    (m.erase k).get? k' = if k' = k then none else m.get? k' :=
  Entries.lookup_erase k k' m.entries

theorem get?_retain (m : BTreeMap κ ν) (p : κ → ν → Bool) (k : κ) :
    (m.retain p).get? k = (m.get? k).filter (p k) :=
  Entries.lookup_filter p m.sorted k

theorem ext_get? {m n : BTreeMap κ ν} (h : ∀ k, m.get? k = n.get? k) : m = n :=
  BTreeMap.ext (Entries.sorted_ext m.sorted n.sorted h)

@[simp] theorem insertAll_nil (m : BTreeMap κ ν) : m.insertAll [] = m := rfl

@[simp] theorem insertAll_cons (m : BTreeMap κ ν) (e : κ × ν) (l : List (κ × ν)) :
    m.insertAll (e :: l) = (m.insert e.1 e.2).insertAll l := rfl

theorem insertAll_append (m : BTreeMap κ ν) (l l' : List (κ × ν)) :
    m.insertAll (l ++ l') = (m.insertAll l).insertAll l' := by
  simp [insertAll, List.foldl_append]

/-- The last pair of a key wins; keys that do not occur keep their old value. -/
theorem get?_insertAll (m : BTreeMap κ ν) (l : List (κ × ν)) (k : κ) :
    (m.insertAll l).get? k = (Entries.lookup k l.reverse).or (m.get? k) := by
  induction l using List.reverseRecOn with
  | nil => simp
  | append_singleton l e ih =>
    obtain ⟨a, b⟩ := e
    rw [insertAll_append, insertAll_cons, insertAll_nil, get?_insert, ih]
    simp only [List.reverse_append, List.reverse_cons, List.reverse_nil, List.nil_append,
      List.singleton_append, Entries.lookup_cons]
    split_ifs <;> simp

theorem get?_ofList (l : List (κ × ν)) (k : κ) :
    (ofList l).get? k = Entries.lookup k l.reverse := by
  simp [ofList, get?_insertAll]

theorem mem_of_get?_ofList {l : List (κ × ν)} {k : κ} {v : ν} (h : (ofList l).get? k = some v) :
    (k, v) ∈ l := by
  rw [get?_ofList] at h
  exact List.mem_reverse.mp (Entries.mem_of_lookup h)

/-- A map built from the entries of a function reads that function back. -/
theorem get?_ofList_graph {α : Type*} (l : List α) (key : α → κ) (f : κ → Option ν) {a : α}
    (ha : a ∈ l) :
    (ofList (l.filterMap fun a => (f (key a)).map fun v => (key a, v))).get? (key a) =
      f (key a) := by
  have hentry : ∀ k v, (k, v) ∈ (l.filterMap fun a => (f (key a)).map fun v => (key a, v)) →
      f k = some v := by
    intro k v hmem
    obtain ⟨b, -, hb⟩ := List.mem_filterMap.mp hmem
    obtain ⟨w, hw, heq⟩ := Option.map_eq_some_iff.mp hb
    obtain ⟨rfl, rfl⟩ := Prod.mk.inj heq
    exact hw
  cases hget : (ofList (l.filterMap fun a => (f (key a)).map fun v => (key a, v))).get? (key a) with
  | some v => exact (hentry _ _ (mem_of_get?_ofList hget)).symm
  | none =>
    cases hf : f (key a) with
    | none => rfl
    | some v =>
      have hmem : (key a, v) ∈ (l.filterMap fun a => (f (key a)).map fun v => (key a, v)) :=
        List.mem_filterMap.mpr ⟨a, ha, by simp [hf]⟩
      rw [get?_ofList] at hget
      have hsome : (Entries.lookup (key a)
          (l.filterMap fun a => (f (key a)).map fun v => (key a, v)).reverse).isSome :=
        Entries.lookup_isSome_iff.mpr ⟨v, List.mem_reverse.mpr hmem⟩
      rw [hget] at hsome
      cases hsome

theorem lookup_reverse_of_sorted {l : List (κ × ν)} (h : Entries.Sorted l) (k : κ) :
    Entries.lookup k l.reverse = Entries.lookup k l := by
  have hget := get?_ofList l k
  have hnodup : ofList l = ⟨l, h⟩ := by
    refine BTreeMap.ext ?_
    -- inserting ascending keys appends, so the entries come back as they were
    suffices haux : ∀ (p q : List (κ × ν)) (hp : Entries.Sorted p), Entries.Sorted (p ++ q) →
        (insertAll ⟨p, hp⟩ q).entries = p ++ q from by
      simpa [ofList, empty] using haux [] l List.Pairwise.nil h
    intro p q
    induction q generalizing p with
    | nil => intro hp _; simp
    | cons e q ih =>
      intro hp hpq
      obtain ⟨a, b⟩ := e
      have hins : Entries.insert a b p = p ++ [(a, b)] := by
        have hlt : ∀ x ∈ p, x.1 < a := fun x hx =>
          (List.pairwise_append.mp hpq).2.2 x hx (a, b) List.mem_cons_self
        clear ih hpq hp hget
        induction p with
        | nil => rfl
        | cons x p ihp =>
          obtain ⟨c, d⟩ := x
          have hc : c < a := hlt (c, d) List.mem_cons_self
          simp [Entries.insert_cons, not_lt_of_gt hc, hc.ne',
            ihp fun y hy => hlt y (List.mem_cons_of_mem _ hy)]
      have hpa : Entries.Sorted (p ++ [(a, b)]) := by
        rw [← hins]; exact Entries.sorted_insert a b hp
      have hrun := ih (p ++ [(a, b)]) hpa (by simpa using hpq)
      have heq : (insert ⟨p, hp⟩ a b : BTreeMap κ ν) = ⟨p ++ [(a, b)], hpa⟩ :=
        BTreeMap.ext hins
      rw [insertAll_cons, heq, hrun]
      simp
  rw [← hget, hnodup]
  rfl

theorem get?_extend (m n : BTreeMap κ ν) (k : κ) :
    (m.extend n).get? k = (n.get? k).or (m.get? k) := by
  rw [extend, get?_insertAll, lookup_reverse_of_sorted n.sorted]
  rfl

theorem mem_keys {m : BTreeMap κ ν} {k : κ} : k ∈ m.keys ↔ (m.get? k).isSome := by
  rw [get?, Entries.lookup_isSome_iff]
  simp [keys]

theorem contains_eq_true {m : BTreeMap κ ν} {k : κ} :
    m.contains k = true ↔ ∃ v, m.get? k = some v :=
  Option.isSome_iff_exists

theorem contains_insert {m : BTreeMap κ ν} {k k' : κ} {v : ν} :
    (m.insert k v).contains k' = true ↔ k' = k ∨ m.contains k' = true := by
  by_cases h : k' = k
  · subst h
    simp [contains]
  · simp [contains, get?_insert_of_ne _ h, h]

theorem contains_extend {m n : BTreeMap κ ν} {k : κ} :
    (m.extend n).contains k = true ↔ m.contains k = true ∨ n.contains k = true := by
  unfold contains
  rw [get?_extend]
  cases n.get? k with
  | none => simp
  | some v => simp

theorem contains_ofList {l : List (κ × ν)} {k : κ} :
    (ofList l).contains k = true ↔ k ∈ l.map Prod.fst := by
  unfold contains
  rw [get?_ofList, Entries.lookup_isSome_iff]
  simp

/-- Pairs with distinct keys are all read back. -/
theorem get?_ofList_of_nodup {l : List (κ × ν)} (hnodup : (l.map Prod.fst).Nodup) {e : κ × ν}
    (he : e ∈ l) : (ofList l).get? e.1 = some e.2 := by
  have hkey : (ofList l).contains e.1 = true := contains_ofList.mpr (List.mem_map_of_mem he)
  obtain ⟨v, hget⟩ := contains_eq_true.mp hkey
  have heq := List.inj_on_of_nodup_map hnodup (mem_of_get?_ofList hget) he rfl
  rw [hget, ← heq]

theorem ofList_eq_empty {l : List (κ × ν)} : ofList l = ∅ ↔ l = [] := by
  constructor
  · intro h
    rw [List.eq_nil_iff_forall_not_mem]
    intro e he
    have hkey : (ofList l).contains e.1 = true := contains_ofList.mpr (List.mem_map_of_mem he)
    rw [h] at hkey
    cases hkey
  · rintro rfl
    rfl

/-- Among the items with an entry for a key, the last one's is read back. -/
theorem get?_ofList_last {α : Type*} (l : List α) (key : α → κ) (f : α → Option ν) (k : κ) :
    (ofList (l.filterMap fun a => (f a).map fun v => (key a, v))).get? k =
      (l.filter fun a => key a = k ∧ (f a).isSome).getLast?.bind f := by
  induction l using List.reverseRecOn with
  | nil => rfl
  | append_singleton l a ih =>
    rw [List.filterMap_append, ofList, insertAll_append, ← ofList, List.filter_append]
    cases hf : f a with
    | none =>
      have hmap : List.filterMap (fun a => (f a).map fun v => (key a, v)) [a] = [] := by simp [hf]
      have hfilter : List.filter (fun a => decide (key a = k ∧ (f a).isSome)) [a] = [] := by
        simp [hf]
      rw [hmap, hfilter, List.append_nil, insertAll_nil, ih]
    | some v =>
      have hmap : List.filterMap (fun a => (f a).map fun v => (key a, v)) [a] = [(key a, v)] := by
        simp [hf]
      rw [hmap, insertAll_cons, insertAll_nil, get?_insert]
      by_cases hk : key a = k
      · rw [if_pos hk.symm, List.filter_cons_of_pos (by simp [hk, hf]), List.filter_nil,
          List.getLast?_concat, Option.bind_some, hf]
      · rw [if_neg (Ne.symm hk), List.filter_cons_of_neg (by simp [hk]), List.filter_nil,
          List.append_nil, ih]

end BTreeMap

end OrderedMap
