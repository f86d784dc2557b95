import AgsCli.Library.Runs

/-! # Event systems

Transition systems given by the events enabled in a state and the state each leads to: runs whose
events are all allowed, the invariant rule, and runs written out as a list of events. -/
namespace Events

structure System (σ ε : Type*) where
  enabled : σ → ε → Prop
  next : σ → ε → σ

namespace System

variable {σ ε : Type*} (sys : System σ ε)

def Step (allowed : σ → ε → Prop) (s t : σ) : Prop :=
  ∃ e, allowed s e ∧ sys.enabled s e ∧ t = sys.next s e

def Reaches (allowed : σ → ε → Prop) (s t : σ) : Prop := Runs.Reaches (sys.Step allowed) s t

def free : σ → ε → Prop := fun _ _ => True

variable {sys} {allowed : σ → ε → Prop} {s t : σ}

theorem Reaches.refl (s : σ) : sys.Reaches allowed s s := Runs.Reaches.refl s

theorem Reaches.event (h : sys.Reaches allowed s t) {e : ε} (ha : allowed t e)
    (he : sys.enabled t e) : sys.Reaches allowed s (sys.next t e) :=
  Runs.Reaches.tail h ⟨e, ha, he, rfl⟩

theorem Reaches.trans {u : σ} (h : sys.Reaches allowed s t) (h' : sys.Reaches allowed t u) :
    sys.Reaches allowed s u := Relation.ReflTransGen.trans h h'

theorem Reaches.weaken {allowed' : σ → ε → Prop} (h : sys.Reaches allowed s t)
    (hle : ∀ u e, allowed u e → allowed' u e) : sys.Reaches allowed' s t := by
  induction h with
  | refl => exact .refl s
  | tail _ hstep ih =>
    obtain ⟨e, ha, he, rfl⟩ := hstep
    exact ih.event (hle _ e ha) he

variable (sys) in
/-- What every allowed event preserves holds along a run. -/
theorem invariant (inv : σ → Prop)
    (hstep : ∀ u e, inv u → allowed u e → sys.enabled u e → inv (sys.next u e))
    (h : sys.Reaches allowed s t) (h0 : inv s) : inv t := by
  refine Runs.invariant_of_step inv ?_ h h0
  rintro a b ha ⟨e, hallowed, henabled, rfl⟩
  exact hstep a e ha hallowed henabled

variable (sys)

def follow (s : σ) : List ε → σ
  | [] => s
  | e :: es => follow (sys.next s e) es

/-- The listed events are enabled and allowed one after the other. -/
def Admits (allowed : σ → ε → Prop) (s : σ) : List ε → Prop
  | [] => True
  | e :: es => allowed s e ∧ sys.enabled s e ∧ Admits allowed (sys.next s e) es

variable {sys}

theorem reaches_follow {es : List ε} (h : sys.Admits allowed s es) :
    sys.Reaches allowed s (sys.follow s es) := by
  induction es generalizing s with
  | nil => exact .refl s
  | cons e rest ih =>
    obtain ⟨ha, he, hrest⟩ := h
    exact ((Reaches.refl s).event ha he).trans (ih hrest)

theorem admits_append {es es' : List ε} : sys.Admits allowed s (es ++ es') ↔
    sys.Admits allowed s es ∧ sys.Admits allowed (sys.follow s es) es' := by
  induction es generalizing s with
  | nil => exact ⟨fun h => ⟨trivial, h⟩, fun h => h.2⟩
  | cons e rest ih =>
    constructor
    · rintro ⟨ha, he, hrest⟩
      exact ⟨⟨ha, he, (ih.mp hrest).1⟩, (ih.mp hrest).2⟩
    · rintro ⟨⟨ha, he, hrest⟩, hrest'⟩
      exact ⟨ha, he, ih.mpr ⟨hrest, hrest'⟩⟩

end System

end Events
