import Mathlib.Data.List.Forall2
import Mathlib.Tactic.Common

/-! # Fallible checks

First-error checking over lists in `Except`, with the lemmas that read a successful check
back as facts about every element. -/
namespace Checks

universe u
variable {ε : Type*} {α β : Type u}

def ensure (b : Bool) (e : ε) : Except ε Unit := if b then .ok () else .error e

/-- Check the elements in order; the first failure is the result. -/
def each (l : List α) (check : α → Except ε Unit) : Except ε Unit :=
  match l with
  | [] => .ok ()
  | a :: rest =>
    match check a with
    | .ok () => each rest check
    | .error e => .error e

def collect (f : α → Except ε β) : List α → Except ε (List β)
  | [] => .ok []
  | a :: rest =>
    match f a with
    | .error e => .error e
    | .ok b =>
      match collect f rest with
      | .error e => .error e
      | .ok bs => .ok (b :: bs)

theorem bind_eq_ok {x : Except ε α} {f : α → Except ε β} {b : β} :
    (x >>= f) = .ok b ↔ ∃ a, x = .ok a ∧ f a = .ok b := by
  cases x with
  | error e => simp [bind, Except.bind]
  | ok a => simp [bind, Except.bind]

theorem bind_eq_error {x : Except ε α} {f : α → Except ε β} {e : ε} :
    (x >>= f) = .error e ↔ x = .error e ∨ ∃ a, x = .ok a ∧ f a = .error e := by
  cases x with
  | error e' => simp [bind, Except.bind]
  | ok a => simp [bind, Except.bind]

theorem mapError_eq_ok {ε' : Type*} {x : Except ε α} {f : ε → ε'} {a : α} :
    x.mapError f = .ok a ↔ x = .ok a := by
  cases x with
  | error e => simp [Except.mapError]
  | ok b => simp [Except.mapError]

@[simp] theorem ensure_eq_ok {b : Bool} {e : ε} {u : Unit} : ensure b e = .ok u ↔ b = true := by
  cases b <;> simp [ensure]

@[simp] theorem each_nil (check : α → Except ε Unit) : each [] check = .ok () := rfl

theorem each_eq_ok {l : List α} {check : α → Except ε Unit} {u : Unit} :
    each l check = .ok u ↔ ∀ a ∈ l, check a = .ok () := by
  induction l with
  | nil => simp
  | cons a rest ih =>
    cases h : check a with
    | error e => simp [each, h]
    | ok v => simp [each, h, ih]

theorem collect_eq_ok {f : α → Except ε β} {l : List α} {bs : List β} :
    collect f l = .ok bs ↔ List.Forall₂ (fun a b => f a = .ok b) l bs := by
  induction l generalizing bs with
  | nil =>
    cases bs with
    | nil => simp [collect]
    | cons b bs => simp only [collect, Except.ok.injEq]; constructor <;> intro hc <;> cases hc
  | cons a rest ih =>
    cases h : f a with
    | error e =>
      simp only [collect, h]
      constructor
      · intro hc; cases hc
      · intro hc; cases hc with | cons hb _ => rw [h] at hb; cases hb
    | ok b =>
      cases hrest : collect f rest with
      | error e =>
        simp only [collect, h, hrest]
        constructor
        · intro hc; cases hc
        · intro hc
          cases hc with
          | cons _ ht => rw [ih.mpr ht] at hrest; cases hrest
      | ok cs =>
        simp only [collect, h, hrest, Except.ok.injEq]
        constructor
        · rintro rfl; exact .cons h (ih.mp hrest)
        · intro hc
          cases hc with
          | cons hb ht =>
            rw [h] at hb
            rw [ih.mpr ht] at hrest
            cases hb; cases hrest; rfl

theorem collect_eq_map {f : α → Except ε β} {g : α → β} {l : List α}
    (h : ∀ a ∈ l, f a = .ok (g a)) : collect f l = .ok (l.map g) := by
  refine collect_eq_ok.mpr (List.forall₂_map_right_iff.mpr ?_)
  exact List.forall₂_same.mpr h

/-- Every element of a collected list has its result among the results. -/
theorem exists_of_collect {f : α → Except ε β} {l : List α} {bs : List β}
    (h : collect f l = .ok bs) {a : α} (ha : a ∈ l) : ∃ b ∈ bs, f a = .ok b := by
  obtain ⟨i, hi, rfl⟩ := List.mem_iff_getElem.mp ha
  have hall := collect_eq_ok.mp h
  have hi' : i < bs.length := hall.length_eq ▸ hi
  exact ⟨bs[i], List.getElem_mem hi', hall.get hi hi'⟩

end Checks
