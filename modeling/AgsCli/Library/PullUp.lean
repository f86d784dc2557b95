import Mathlib.Data.List.Nodup
import Mathlib.Data.List.Sort
import Mathlib.Logic.Relation
import Mathlib.Order.Bounds.Basic
import Mathlib.Order.Lattice.Nat

/-! # Pulling items up to their readers

Every item has a key. One pass over the items in their order pulls what an item reads up to the
item's key, and the items are then sorted by key, ties in their order. What is read stands before
its readers exactly when the pass reaches it in time and no tie has it behind its reader. -/
namespace PullUp

variable {α : Type*}

def Before (l : List α) (a b : α) : Prop := [a, b].Sublist l

section Order

variable {l : List α} {a b c : α}

theorem before_cons : Before (c :: l) a b ↔ Before l a b ∨ a = c ∧ b ∈ l := by
  rw [Before, Before, List.cons_sublist_cons', List.singleton_sublist]

theorem Before.left (h : Before l a b) : a ∈ l := h.subset List.mem_cons_self

theorem Before.right (h : Before l a b) : b ∈ l :=
  h.subset (List.mem_cons_of_mem a List.mem_cons_self)

theorem not_before_self (hl : l.Nodup) (a : α) : ¬Before l a a := List.nodup_iff_sublist.mp hl a

theorem before_total (ha : a ∈ l) (hb : b ∈ l) (hne : a ≠ b) : Before l a b ∨ Before l b a := by
  induction l with
  | nil => exact absurd ha List.not_mem_nil
  | cons d l ih =>
    rw [before_cons, before_cons]
    rcases List.mem_cons.mp ha with rfl | ha'
    · exact Or.inl (Or.inr ⟨rfl, (List.mem_cons.mp hb).resolve_left hne.symm⟩)
    · rcases List.mem_cons.mp hb with rfl | hb
      · exact Or.inr (Or.inr ⟨rfl, ha'⟩)
      · rcases ih ha' hb with h | h
        · exact Or.inl (Or.inl h)
        · exact Or.inr (Or.inl h)

theorem before_trans (hl : l.Nodup) (hab : Before l a b) (hbc : Before l b c) : Before l a c := by
  induction l with
  | nil => exact absurd hab.left List.not_mem_nil
  | cons d l ih =>
    obtain ⟨hd, hl⟩ := List.nodup_cons.mp hl
    rw [before_cons] at hab hbc ⊢
    rcases hab with hab | ⟨rfl, hb⟩
    · rcases hbc with hbc | ⟨rfl, hc⟩
      · exact Or.inl (ih hl hab hbc)
      · exact absurd hab.right hd
    · rcases hbc with hbc | ⟨rfl, hc⟩
      · exact Or.inr ⟨rfl, hbc.right⟩
      · exact absurd hb hd

theorem before_asymm (hl : l.Nodup) (hab : Before l a b) : ¬Before l b a := fun hba =>
  not_before_self hl a (before_trans hl hab hba)

/-- What stands before the item after a prefix is the prefix. -/
theorem before_append {done rest : List α} (h : (done ++ a :: rest).Nodup) :
    Before (done ++ a :: rest) b a ↔ b ∈ done := by
  constructor
  · intro hbefore
    by_contra hnot
    have hmem := hbefore.left
    have hne : b ≠ a := fun heq => not_before_self h a (heq ▸ hbefore)
    have hrest : b ∈ rest := by
      rcases List.mem_append.mp hmem with hdone | hcons
      · exact absurd hdone hnot
      · exact (List.mem_cons.mp hcons).resolve_left hne
    have hafter : Before (done ++ a :: rest) a b :=
      (List.cons_sublist_cons.mpr (List.singleton_sublist.mpr hrest)).trans
        (List.sublist_append_right done (a :: rest))
    exact before_asymm h hafter hbefore
  · intro hdone
    have hpair : ([b] ++ [a]).Sublist (done ++ a :: rest) :=
      List.Sublist.append (List.singleton_sublist.mpr hdone)
        (List.singleton_sublist.mpr List.mem_cons_self)
    exact hpair

end Order

section Sorting

variable (key : α → Nat)

def sortByKey (items : List α) : List α := items.insertionSort fun a b => key a ≤ key b

variable {key} {items : List α} {a b : α}

theorem sortByKey_perm : (sortByKey key items).Perm items := List.perm_insertionSort _ items

theorem sortByKey_pairwise : (sortByKey key items).Pairwise fun a b => key a ≤ key b := by
  have : Std.Total fun a b => key a ≤ key b := ⟨fun a b => Nat.le_total (key a) (key b)⟩
  have : IsTrans α fun a b => key a ≤ key b := ⟨fun a b c => Nat.le_trans⟩
  exact List.pairwise_insertionSort _ items

theorem before_sortByKey_iff (hitems : items.Nodup) (ha : a ∈ items) (hb : b ∈ items)
    (hne : a ≠ b) : Before (sortByKey key items) a b ↔
      key a < key b ∨ key a = key b ∧ Before items a b := by
  have hnodup : (sortByKey key items).Nodup := sortByKey_perm.nodup_iff.mpr hitems
  have hle : ∀ {a b}, Before (sortByKey key items) a b → key a ≤ key b := by
    intro a b h
    have hpair := sortByKey_pairwise.sublist h
    exact List.rel_of_pairwise_cons hpair List.mem_cons_self
  have hput : ∀ {a b}, a ∈ items → b ∈ items → a ≠ b →
      (key a < key b ∨ key a = key b ∧ Before items a b) → Before (sortByKey key items) a b := by
    intro a b ha hb hne h
    rcases h with hlt | ⟨heq, hbefore⟩
    · rcases before_total (sortByKey_perm.mem_iff.mpr ha) (sortByKey_perm.mem_iff.mpr hb) hne with
        h | h
      · exact h
      · exact absurd (hle h) (Nat.not_le_of_lt hlt)
    · exact List.pair_sublist_insertionSort (Nat.le_of_eq heq) hbefore
  refine ⟨fun h => ?_, hput ha hb hne⟩
  by_contra hnot
  have hother : key b < key a ∨ key b = key a ∧ Before items b a := by
    rcases Nat.lt_trichotomy (key a) (key b) with hlt | heq | hlt
    · exact absurd (Or.inl hlt) hnot
    · rcases before_total ha hb hne with hab | hba
      · exact absurd (Or.inr ⟨heq, hab⟩) hnot
      · exact Or.inr ⟨heq.symm, hba⟩
    · exact Or.inl hlt
  exact before_asymm hnodup h (hput hb ha hne.symm hother)

end Sorting

section Pulling

variable (reads : α → α → Prop) (use : α → Nat)

def pull [DecidableRel reads] (key : α → Nat) (p : α) : α → Nat := fun d => if reads p d then min (key d) (key p) else key d

def keys [DecidableRel reads] (items : List α) : α → Nat := items.foldl (pull reads) use

inductive Turn (items : List α) : α → α → Prop
  | own (y : α) : Turn items y y
  | pulled {x z y : α} (h : Turn items x z) (hreads : reads z y) (hbefore : Before items z y) :
      Turn items x y

def Pulled (items : List α) (x i : α) : Prop :=
  x = i ∨ ∃ z ∈ items, Turn reads items x z ∧ reads z i

/-- What a prefix of the pass has pulled. -/
def PulledBy (items done : List α) (x i : α) : Prop :=
  x = i ∨ ∃ z ∈ done, Turn reads items x z ∧ reads z i

variable {reads use} {items : List α}

theorem turn_iff {x y : α} :
    Turn reads items x y ↔ x = y ∨ ∃ z, Before items z y ∧ Turn reads items x z ∧ reads z y := by
  constructor
  · intro h
    cases h with
    | own => exact Or.inl rfl
    | pulled h hreads hbefore => exact Or.inr ⟨_, hbefore, h, hreads⟩
  · rintro (rfl | ⟨z, hbefore, h, hreads⟩)
    · exact .own x
    · exact .pulled h hreads hbefore

variable [DecidableRel reads]

variable (reads use) in
theorem keys_prefix {done rest : List α} (hitems : (done ++ rest).Nodup) (i : α) :
    IsLeast {n | ∃ x, PulledBy reads (done ++ rest) done x i ∧ n = use x}
      (done.foldl (pull reads) use i) := by
  induction done using List.reverseRec generalizing rest i with
  | nil =>
    refine ⟨⟨i, Or.inl rfl, rfl⟩, ?_⟩
    rintro n ⟨x, hx, rfl⟩
    rcases hx with rfl | ⟨z, hz, -⟩
    · exact Nat.le_refl _
    · exact absurd hz List.not_mem_nil
  | append_singleton done p ih =>
    rw [List.append_assoc, List.singleton_append] at hitems ⊢
    have hkeys := ih hitems
    rw [List.foldl_append, List.foldl_cons, List.foldl_nil]
    generalize done.foldl (pull reads) use = key at hkeys
    -- at its turn the key of `p` is the least use that has reached it
    have hturn : ∀ x, PulledBy reads (done ++ p :: rest) done x p ↔
        Turn reads (done ++ p :: rest) x p := by
      intro x
      rw [turn_iff, PulledBy]
      simp only [before_append hitems]
    obtain ⟨⟨x, hx, hxkey⟩, hlow⟩ := hkeys i
    obtain ⟨⟨y, hy, hykey⟩, hylow⟩ := hkeys p
    have hold : ∀ {x}, PulledBy reads (done ++ p :: rest) done x i →
        PulledBy reads (done ++ p :: rest) (done ++ [p]) x i := by
      rintro x (rfl | ⟨z, hz, hmore⟩)
      · exact Or.inl rfl
      · exact Or.inr ⟨z, List.mem_append_left _ hz, hmore⟩
    have hcases : ∀ {x}, PulledBy reads (done ++ p :: rest) (done ++ [p]) x i →
        PulledBy reads (done ++ p :: rest) done x i ∨
          Turn reads (done ++ p :: rest) x p ∧ reads p i := by
      rintro x (rfl | ⟨z, hz, hmore⟩)
      · exact Or.inl (Or.inl rfl)
      · rcases List.mem_append.mp hz with hz | hz
        · exact Or.inl (Or.inr ⟨z, hz, hmore⟩)
        · obtain rfl := List.mem_singleton.mp hz
          exact Or.inr hmore
    rw [pull]
    by_cases hreads : reads p i
    · rw [if_pos hreads]
      constructor
      · rcases Nat.le_total (key i) (key p) with hle | hle
        · exact ⟨x, hold hx, by rw [Nat.min_eq_left hle, hxkey]⟩
        · refine ⟨y, Or.inr ⟨p, by simp, (hturn y).mp hy, hreads⟩, ?_⟩
          rw [Nat.min_eq_right hle, hykey]
      · rintro n ⟨x', hx', rfl⟩
        rcases hcases hx' with hbefore | ⟨hreached, -⟩
        · exact Nat.le_trans (Nat.min_le_left _ _) (hlow ⟨x', hbefore, rfl⟩)
        · exact Nat.le_trans (Nat.min_le_right _ _) (hylow ⟨x', (hturn x').mpr hreached, rfl⟩)
    · rw [if_neg hreads]
      refine ⟨⟨x, hold hx, hxkey⟩, ?_⟩
      rintro n ⟨x', hx', rfl⟩
      rcases hcases hx' with hbefore | ⟨-, hread⟩
      · exact hlow ⟨x', hbefore, rfl⟩
      · exact absurd hread hreads

variable (reads use) in
theorem keys_isLeast (hitems : items.Nodup) (i : α) :
    IsLeast {n | ∃ x, Pulled reads items x i ∧ n = use x} (keys reads use items i) := by
  have hall : (items ++ []).Nodup := by rwa [List.append_nil]
  have hleast := keys_prefix reads use hall i
  rw [List.append_nil] at hleast
  exact hleast

end Pulling

section Effective

variable (reads : α → α → Prop) (use : α → Nat) (items : List α)

def ReadsIn (p d : α) : Prop := p ∈ items ∧ d ∈ items ∧ reads p d

/-- `p` reads `d`, directly or through other items. -/
def Needs (p d : α) : Prop := Relation.TransGen (ReadsIn reads items) p d

/-- The least use of an item and of all that need it. -/
noncomputable def effectiveUse (i : α) : Nat :=
  sInf {n | ∃ x, (x = i ∨ Needs reads items x i) ∧ n = use x}

structure Ordered (result : List α) : Prop where
  perm : result.Perm items
  sorted : ∀ a ∈ items, ∀ b ∈ items, a ≠ b → (Before result a b ↔
    effectiveUse reads use items a < effectiveUse reads use items b ∨
      effectiveUse reads use items a = effectiveUse reads use items b ∧ Before items a b)
  needed : ∀ p d, Needs reads items p d → Before result d p

/-- The pass pulls every item as early as all that need it, and what stands behind an item that
reads it has an earlier effective use. -/
structure PullsSuffice : Prop where
  reached : ∀ i x, Needs reads items x i → ∃ y, Pulled reads items y i ∧ use y ≤ use x
  behind : ∀ p d, ReadsIn reads items p d → ¬Before items d p →
    effectiveUse reads use items d < effectiveUse reads use items p

variable {reads use items}

variable (reads use items) in
theorem effectiveUse_isLeast (i : α) :
    IsLeast {n | ∃ x, (x = i ∨ Needs reads items x i) ∧ n = use x}
      (effectiveUse reads use items i) := by
  have hne : {n | ∃ x, (x = i ∨ Needs reads items x i) ∧ n = use x}.Nonempty :=
    ⟨use i, i, Or.inl rfl, rfl⟩
  exact ⟨Nat.sInf_mem hne, fun n hn => Nat.sInf_le hn⟩

variable (use) in
theorem effectiveUse_le {p d : α} (h : ReadsIn reads items p d) :
    effectiveUse reads use items d ≤ effectiveUse reads use items p := by
  obtain ⟨⟨x, hx, heq⟩, -⟩ := effectiveUse_isLeast reads use items p
  rw [heq]
  refine (effectiveUse_isLeast reads use items d).2 ⟨x, Or.inr ?_, rfl⟩
  rcases hx with rfl | hneeds
  · exact .single h
  · exact .tail hneeds h

theorem needs_of_turn {x y : α} (hy : y ∈ items) (h : Turn reads items x y) :
    x = y ∨ Needs reads items x y := by
  induction h with
  | own => exact Or.inl rfl
  | pulled _ hreads hbefore ih =>
    have hstep : ReadsIn reads items _ _ := ⟨hbefore.left, hy, hreads⟩
    rcases ih hbefore.left with rfl | hneeds
    · exact Or.inr (.single hstep)
    · exact Or.inr (.tail hneeds hstep)

theorem needs_of_pulled {x i : α} (hi : i ∈ items) (h : Pulled reads items x i) :
    x = i ∨ Needs reads items x i := by
  rcases h with rfl | ⟨z, hz, hturn, hreads⟩
  · exact Or.inl rfl
  · have hstep : ReadsIn reads items z i := ⟨hz, hi, hreads⟩
    rcases needs_of_turn hz hturn with rfl | hneeds
    · exact Or.inr (.single hstep)
    · exact Or.inr (.tail hneeds hstep)

theorem mem_of_needs {p d : α} (h : Needs reads items p d) : p ∈ items ∧ d ∈ items := by
  induction h with
  | single h => exact ⟨h.1, h.2.1⟩
  | tail _ h ih => exact ⟨ih.1, h.2.1⟩

variable [DecidableRel reads] (hitems : items.Nodup)

include hitems

theorem effectiveUse_le_keys {i : α} (hi : i ∈ items) :
    effectiveUse reads use items i ≤ keys reads use items i := by
  obtain ⟨⟨x, hx, heq⟩, -⟩ := keys_isLeast reads use hitems i
  rw [heq]
  exact (effectiveUse_isLeast reads use items i).2 ⟨x, needs_of_pulled hi hx, rfl⟩

/-- Where the pass reaches every item in time its keys are the effective uses. -/
theorem keys_eq {i : α} (hi : i ∈ items)
    (hreached : ∀ x, Needs reads items x i → ∃ y, Pulled reads items y i ∧ use y ≤ use x) :
    keys reads use items i = effectiveUse reads use items i := by
  refine Nat.le_antisymm ?_ (effectiveUse_le_keys hitems hi)
  obtain ⟨⟨x, hx, heq⟩, -⟩ := effectiveUse_isLeast reads use items i
  rw [heq]
  have hleast := (keys_isLeast reads use hitems i).2
  rcases hx with rfl | hneeds
  · exact hleast ⟨x, Or.inl rfl, rfl⟩
  · obtain ⟨y, hy, hle⟩ := hreached x hneeds
    exact Nat.le_trans (hleast ⟨y, hy, rfl⟩) hle

theorem ordered_of_pullsSuffice (h : PullsSuffice reads use items) :
    Ordered reads use items (sortByKey (keys reads use items) items) := by
  have hkeys : ∀ i ∈ items, keys reads use items i = effectiveUse reads use items i :=
    fun i hi => keys_eq hitems hi (h.reached i)
  have hnodup : (sortByKey (keys reads use items) items).Nodup :=
    sortByKey_perm.nodup_iff.mpr hitems
  have hsorted : ∀ a ∈ items, ∀ b ∈ items, a ≠ b →
      (Before (sortByKey (keys reads use items) items) a b ↔
        effectiveUse reads use items a < effectiveUse reads use items b ∨
          effectiveUse reads use items a = effectiveUse reads use items b ∧ Before items a b) := by
    intro a ha b hb hne
    rw [before_sortByKey_iff hitems ha hb hne, hkeys a ha, hkeys b hb]
  have hstep : ∀ p d, ReadsIn reads items p d →
      Before (sortByKey (keys reads use items) items) d p := by
    intro p d hread
    have hle := effectiveUse_le use hread
    by_cases hbefore : Before items d p
    · have hne : d ≠ p := fun heq => not_before_self hitems p (heq ▸ hbefore)
      refine (hsorted d hread.2.1 p hread.1 hne).mpr ?_
      rcases Nat.lt_or_eq_of_le hle with hlt | heq
      · exact Or.inl hlt
      · exact Or.inr ⟨heq, hbefore⟩
    · have hlt := h.behind p d hread hbefore
      have hne : d ≠ p := by
        rintro rfl
        exact Nat.lt_irrefl _ hlt
      exact (hsorted d hread.2.1 p hread.1 hne).mpr (Or.inl hlt)
  refine ⟨sortByKey_perm, hsorted, fun p d hneeds => ?_⟩
  induction hneeds with
  | single hread => exact hstep p _ hread
  | tail _ hread ih => exact before_trans hnodup (hstep _ _ hread) ih

theorem pullsSuffice_of_needed
    (h : ∀ p d, Needs reads items p d → Before (sortByKey (keys reads use items) items) d p) :
    PullsSuffice reads use items := by
  have hnodup : (sortByKey (keys reads use items) items).Nodup :=
    sortByKey_perm.nodup_iff.mpr hitems
  have hcompare : ∀ p d, Needs reads items p d → keys reads use items d < keys reads use items p ∨
      keys reads use items d = keys reads use items p ∧ Before items d p := by
    intro p d hneeds
    obtain ⟨hp, hd⟩ := mem_of_needs hneeds
    have hbefore := h p d hneeds
    have hne : d ≠ p := fun heq => not_before_self hnodup p (heq ▸ hbefore)
    exact (before_sortByKey_iff hitems hd hp hne).mp hbefore
  have hreached : ∀ i x, Needs reads items x i →
      ∃ y, Pulled reads items y i ∧ use y ≤ use x := by
    intro i x hneeds
    obtain ⟨⟨y, hy, hykey⟩, -⟩ := keys_isLeast reads use hitems i
    have hown := (keys_isLeast reads use hitems x).2 ⟨x, Or.inl rfl, rfl⟩
    refine ⟨y, hy, ?_⟩
    rcases hcompare x i hneeds with hlt | ⟨heq, -⟩
    · omega
    · omega
  refine ⟨hreached, fun p d hread hbefore => ?_⟩
  have hp := keys_eq hitems hread.1 (hreached p)
  have hd := keys_eq hitems hread.2.1 (hreached d)
  rcases hcompare p d (.single hread) with hlt | ⟨-, hbad⟩
  · rwa [← hp, ← hd]
  · exact absurd hbad hbefore

theorem ordered_iff : Ordered reads use items (sortByKey (keys reads use items) items) ↔
    PullsSuffice reads use items :=
  ⟨fun h => pullsSuffice_of_needed hitems h.needed, ordered_of_pullsSuffice hitems⟩

end Effective

end PullUp
