import Mathlib.Logic.Function.Iterate
import Mathlib.Logic.Relation
import Mathlib.Tactic.Common

/-! # Runs of a transition system

Reachability by steps that start in a guarded state, and the rules that carry an invariant from
one step to a whole run. -/
namespace Runs

variable {σ : Type*}

/-- Reachable by steps each taken from a state that meets `guard`. -/
def ReachesUnder (guard : σ → Prop) (step : σ → σ → Prop) : σ → σ → Prop :=
  Relation.ReflTransGen fun s t => guard s ∧ step s t

def Reaches (step : σ → σ → Prop) : σ → σ → Prop := Relation.ReflTransGen step

variable {guard : σ → Prop} {step : σ → σ → Prop} {s t u : σ}

theorem ReachesUnder.refl (s : σ) : ReachesUnder guard step s s := Relation.ReflTransGen.refl

theorem ReachesUnder.tail (h : ReachesUnder guard step s t) (hg : guard t) (hs : step t u) :
    ReachesUnder guard step s u := Relation.ReflTransGen.tail h ⟨hg, hs⟩

theorem Reaches.refl (s : σ) : Reaches step s s := Relation.ReflTransGen.refl

theorem Reaches.tail (h : Reaches step s t) (hs : step t u) : Reaches step s u :=
  Relation.ReflTransGen.tail h hs

theorem Reaches.iterate (f : σ → σ) (n : ℕ) (s : σ) : Reaches (fun a b => b = f a) s (f^[n] s) := by
  induction n with
  | zero => exact .refl s
  | succ n ih => exact ih.tail (Function.iterate_succ_apply' f n s)

theorem Reaches.under (h : Reaches step s t) (hg : ∀ u, Reaches step s u → guard u) :
    ReachesUnder guard step s t := by
  induction h with
  | refl => exact .refl s
  | tail hsu hut ih => exact ih.tail (hg _ hsu) hut

theorem invariant_of_guarded_step (inv : σ → Prop)
    (hstep : ∀ a b, inv a → guard a → step a b → inv b) (h : ReachesUnder guard step s t)
    (h0 : inv s) : inv t := by
  induction h with
  | refl => exact h0
  | tail _ hst ih => exact hstep _ _ ih hst.1 hst.2

theorem invariant_of_step (inv : σ → Prop)
    (hstep : ∀ a b, inv a → step a b → inv b) (h : Reaches step s t) (h0 : inv s) : inv t := by
  induction h with
  | refl => exact h0
  | tail _ hst ih => exact hstep _ _ ih hst

section Moves

variable {ε : Type*}

def Moves (next : σ → ε → Option σ) (s t : σ) : Prop := ∃ e, next s e = some t

def follow (next : σ → ε → Option σ) : List ε → σ → Option σ
  | [], s => some s
  | e :: rest, s => (next s e).bind (follow next rest)

theorem reaches_of_follow {next : σ → ε → Option σ} {events : List ε}
    (h : follow next events s = some t) : Reaches (Moves next) s t := by
  induction events generalizing s with
  | nil =>
    obtain rfl := Option.some.inj h
    exact .refl s
  | cons e rest ih =>
    obtain ⟨middle, hnext, hrest⟩ := Option.bind_eq_some_iff.mp h
    exact Relation.ReflTransGen.head ⟨e, hnext⟩ (ih hrest)

end Moves

end Runs
