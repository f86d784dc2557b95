import Mathlib.Tactic.Common

/-! # A value kept in one of two places

A first place that cannot always be reached, and a second one that is read when the first is out of
reach or empty. Coherent is a store where no read, wherever it looks, finds anything but the latest
value; each change keeps that exactly when it leaves no other value behind. -/
namespace TwoTiers

structure Tiers (α : Type*) where
  primary : Option α
  secondary : Option α

variable {α : Type*} {t : Tiers α} {latest : Option α} {v : α}

def empty : Tiers α := ⟨none, none⟩

structure Coherent (latest : Option α) (t : Tiers α) : Prop where
  primary : ∀ v, t.primary = some v → latest = some v
  secondary : ∀ v, t.secondary = some v → latest = some v

theorem coherent_empty : Coherent latest (empty : Tiers α) := ⟨nofun, nofun⟩

/-- What an operation does: a value put in the first place or, with the first place emptied or
not, in the second; a removal from both places, each only when reached; or a failure, which may
have emptied the first. -/
inductive Change (α : Type*)
  | put (v : α)
  | fallBack (v : α) (cleared : Bool)
  | remove (reached erased : Bool)
  | fail (cleared : Bool)

def clear (cleared : Bool) (o : Option α) : Option α := if cleared then none else o

namespace Change

def tiers (t : Tiers α) : Change α → Tiers α
  | .put v => ⟨some v, t.secondary⟩
  | .fallBack v cleared => ⟨clear cleared t.primary, some v⟩
  | .remove reached erased => ⟨clear reached t.primary, clear erased t.secondary⟩
  | .fail cleared => ⟨clear cleared t.primary, t.secondary⟩

def lastAfter (l : Option α) : Change α → Option α
  | .put v | .fallBack v _ => some v
  | .remove _ _ => none
  | .fail _ => l

def succeeds : Change α → Bool
  | .fail _ => false
  | _ => true

/-- Nothing but what the change wrote is left. -/
def Clean (t : Tiers α) : Change α → Prop
  | .put v => t.secondary = none ∨ t.secondary = some v
  | .fallBack v cleared => cleared = true ∨ t.primary = none ∨ t.primary = some v
  | .remove reached erased =>
    (reached = true ∨ t.primary = none) ∧ (erased = true ∨ t.secondary = none)
  | .fail _ => True

theorem clear_eq_some {cleared : Bool} {o : Option α} :
    clear cleared o = some v ↔ cleared = false ∧ o = some v := by
  cases cleared with
  | true => exact ⟨nofun, fun h => nomatch h.1⟩
  | false => exact ⟨fun h => ⟨rfl, h⟩, fun h => h.2⟩

theorem only_or_none {o : Option α} :
    (∀ w, o = some w → some v = some w) ↔ o = none ∨ o = some v := by
  cases o with
  | none => exact ⟨fun _ => Or.inl rfl, fun _ => nofun⟩
  | some w =>
    constructor
    · intro h
      exact Or.inr (h w rfl).symm
    · rintro (h | h) u hu
      · cases h
      · exact h.symm.trans hu

/-- A place holds nothing after it is cleared, or held nothing. -/
theorem emptied_iff {cleared : Bool} {o : Option α} :
    (∀ w, clear cleared o = some w → none = some w) ↔ cleared = true ∨ o = none := by
  cases cleared with
  | true => exact iff_of_true nofun (Or.inl rfl)
  | false =>
    cases o with
    | none => exact iff_of_true nofun (Or.inr rfl)
    | some w => exact iff_of_false (fun h => nomatch h w rfl) (by rintro (h | h) <;> cases h)

theorem coherent_iff (h : Coherent latest t) (c : Change α) :
    Coherent (c.lastAfter latest) (c.tiers t) ↔ c.Clean t := by
  cases c with
  | put v =>
    constructor
    · intro hc
      exact only_or_none.mp hc.secondary
    · intro hclean
      exact ⟨fun w hw => hw, only_or_none.mpr hclean⟩
  | fallBack v cleared =>
    constructor
    · intro hc
      cases cleared with
      | true => exact Or.inl rfl
      | false => exact Or.inr (only_or_none.mp hc.primary)
    · intro hclean
      refine ⟨fun w hw => ?_, fun w hw => hw⟩
      obtain ⟨hkept, hprimary⟩ := clear_eq_some.mp hw
      rcases hclean with hcleared | hclean
      · exact nomatch hkept.symm.trans hcleared
      · exact only_or_none.mpr hclean w hprimary
  | remove reached erased =>
    constructor
    · intro hc
      exact ⟨emptied_iff.mp hc.primary, emptied_iff.mp hc.secondary⟩
    · rintro ⟨hreached, herased⟩
      exact ⟨emptied_iff.mpr hreached, emptied_iff.mpr herased⟩
  | fail cleared =>
    refine ⟨fun _ => trivial, fun _ => ⟨fun w hw => ?_, h.secondary⟩⟩
    exact h.primary w (clear_eq_some.mp hw).2

/-- What is held after a change was held before, or is what the change wrote. -/
theorem held_or_written {c : Change α} (hv : (c.tiers t).primary = some v ∨
    (c.tiers t).secondary = some v) :
    (t.primary = some v ∨ t.secondary = some v) ∨ c.lastAfter none = some v := by
  cases c with
  | put w =>
    rcases hv with hv | hv
    · exact Or.inr hv
    · exact Or.inl (Or.inr hv)
  | fallBack w cleared =>
    rcases hv with hv | hv
    · exact Or.inl (Or.inl (clear_eq_some.mp hv).2)
    · exact Or.inr hv
  | remove reached erased =>
    rcases hv with hv | hv
    · exact Or.inl (Or.inl (clear_eq_some.mp hv).2)
    · exact Or.inl (Or.inr (clear_eq_some.mp hv).2)
  | fail cleared =>
    rcases hv with hv | hv
    · exact Or.inl (Or.inl (clear_eq_some.mp hv).2)
    · exact Or.inl (Or.inr hv)

end Change

end TwoTiers
