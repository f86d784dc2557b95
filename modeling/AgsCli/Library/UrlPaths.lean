import Mathlib.Data.List.Basic
import Mathlib.Tactic.Common

/-! # Paths of a URL

A path as its segments: how a text is split where separators stand, how dot segments are resolved
against the segments before, and when filling in a text's holes leaves both alone. -/
namespace UrlPaths

inductive Dots
  | plain
  | single
  | double
  deriving DecidableEq, Repr

section Resolve

variable {τ : Type} (empty : τ)

def push (path : List τ) : τ × Dots → List τ
  | (segment, .plain) => path ++ [segment]
  | (_, .single) => path
  | (_, .double) => path.dropLast

/-- The last segment: where it is dots the path ends in an empty one. -/
def close (path : List τ) : τ × Dots → List τ
  | (segment, .plain) => path ++ [segment]
  | (_, .single) => path ++ [empty]
  | (_, .double) => path.dropLast ++ [empty]

/-- The path after the segments of `base`. -/
def resolve : List τ → List (τ × Dots) → List τ
  | base, [] => base
  | base, [last] => close empty base last
  | base, segment :: next :: rest => resolve (push base segment) (next :: rest)

variable {empty} {ι : Type} {content : ι → τ} {read named : ι → Dots}

theorem length_push {short long : List τ} (segment : τ) (dots : Dots) (hpos : 0 < short.length)
    (hle : short.length ≤ long.length) :
    short.length ≤ (push short (segment, dots)).length + 1 ∧
      (push short (segment, dots)).length ≤ (push long (segment, dots)).length ∧
      ((push short (segment, dots)).length = (push long (segment, dots)).length →
        short.length = long.length) := by
  cases dots with
  | plain =>
    simp only [push, List.length_append, List.length_singleton]
    omega
  | single =>
    simp only [push]
    omega
  | double =>
    simp only [push, List.length_dropLast]
    omega

/-- Segments read as dots leave the path shorter than a plain one does. -/
theorem length_push_lt {short long : List τ} (segment : τ) {dots : Dots} (hdots : dots ≠ .plain)
    (hle : short.length ≤ long.length) :
    (push short (segment, dots)).length < (push long (segment, .plain)).length := by
  cases dots with
  | plain => exact absurd rfl hdots
  | single =>
    simp only [push, List.length_append, List.length_singleton]
    omega
  | double =>
    simp only [push, List.length_append, List.length_singleton, List.length_dropLast]
    omega

theorem close_ne {short long : List τ} {segment : τ} {dots : Dots} (hdots : dots ≠ .plain)
    (hempty : segment ≠ empty) :
    close empty short (segment, dots) ≠ close empty long (segment, .plain) := by
  intro h
  have hlast : ∀ {xs ys : List τ}, xs ++ [empty] = ys ++ [segment] → segment = empty :=
    fun heq => (List.cons.inj (List.append_inj_right' heq rfl)).1.symm
  cases dots with
  | plain => exact hdots rfl
  | single => exact hempty (hlast h)
  | double => exact hempty (hlast h)

theorem length_close {short long : List τ} {segment : τ} {dots : Dots} (hpos : 0 < short.length)
    (hle : short.length ≤ long.length)
    (h : (close empty short (segment, dots)).length = (close empty long (segment, dots)).length) :
    short.length = long.length := by
  cases dots with
  | plain =>
    simp only [close, List.length_append, List.length_singleton] at h
    omega
  | single =>
    simp only [close, List.length_append, List.length_singleton] at h
    omega
  | double =>
    simp only [close, List.length_append, List.length_singleton, List.length_dropLast] at h
    omega

/-- Against a long base a segment that is read as dots, but not named so, shows. -/
theorem resolve_agree {l : List ι} {short long : List τ} (hlong : l.length ≤ short.length)
    (hle : short.length ≤ long.length) (hnamed : ∀ i ∈ l, named i = .plain ∨ named i = read i)
    (hempty : ∀ i ∈ l, read i ≠ .plain → content i ≠ empty)
    (h : resolve empty short (l.map fun i => (content i, read i)) =
      resolve empty long (l.map fun i => (content i, named i))) :
    short.length = long.length ∧ ∀ i ∈ l, read i = named i := by
  induction l generalizing short long with
  | nil => exact ⟨congrArg List.length h, fun i hi => absurd hi List.not_mem_nil⟩
  | cons i rest ih =>
    have hi := hnamed i List.mem_cons_self
    have hcontent := hempty i List.mem_cons_self
    simp only [List.length_cons] at hlong
    cases rest with
    | nil =>
      simp only [List.map_cons, List.map_nil, resolve] at h
      by_cases hsame : read i = named i
      · rw [hsame] at h
        exact ⟨length_close (by omega) hle (congrArg List.length h), by simpa using hsame⟩
      · have hplain := hi.resolve_right (Ne.symm hsame)
        rw [hplain] at h hsame
        exact absurd h (close_ne hsame (hcontent hsame))
    | cons next rest =>
      have hstep := fun {short long : List τ} hlong hle => @ih short long hlong hle
        (fun j hj => hnamed j (List.mem_cons_of_mem _ hj))
        (fun j hj => hempty j (List.mem_cons_of_mem _ hj))
      simp only [List.map_cons, resolve] at h hstep
      by_cases hsame : read i = named i
      · rw [hsame] at h
        obtain ⟨hshort, hboth, heq⟩ := length_push (content i) (named i) (by omega) hle
        obtain ⟨hlength, hall⟩ := hstep (by omega) hboth h
        refine ⟨heq hlength, fun j hj => ?_⟩
        rcases List.mem_cons.mp hj with rfl | hj
        · exact hsame
        · exact hall j hj
      · have hplain := hi.resolve_right (Ne.symm hsame)
        rw [hplain] at h hsame
        have hlt := length_push_lt (content i) hsame hle
        have hshort := (length_push (content i) (read i) (by omega) hle).1
        have hlength := (hstep (by omega) (Nat.le_of_lt hlt) h).1
        omega

/-- Two readings of the dots give the same path, whatever comes before it, exactly when they
agree. -/
theorem resolve_eq_iff {l : List ι} (hnamed : ∀ i ∈ l, named i = .plain ∨ named i = read i)
    (hempty : ∀ i ∈ l, read i ≠ .plain → content i ≠ empty) :
    (∀ base, resolve empty base (l.map fun i => (content i, read i)) =
      resolve empty base (l.map fun i => (content i, named i))) ↔ ∀ i ∈ l, read i = named i := by
  constructor
  · intro h
    exact (resolve_agree (by simp) (Nat.le_refl _) hnamed hempty
      (h (List.replicate l.length empty))).2
  · intro h base
    refine congrArg _ (List.map_congr_left fun i hi => ?_)
    rw [h i hi]

end Resolve

section Split

variable {α β : Type} {p : α → Bool} {q : β → Bool} {f : β → List α}

/-- A text's holes are filled and its other elements stay: separators stand for separators and
nothing else brings one. -/
def Fills (p : α → Bool) (q : β → Bool) (f : β → List α) (l : List β) : Prop :=
  ∀ x ∈ l, (q x = true → ∃ c, f x = [c] ∧ p c = true) ∧ (q x = false → ∀ c ∈ f x, p c = false)

theorem fills_cons {x : β} {l : List β} (h : Fills p q f (x :: l)) : Fills p q f l :=
  fun y hy => h y (List.mem_cons_of_mem _ hy)

theorem splitOnP_append_left {a : List α} (h : ∀ c ∈ a, p c = false) (l : List α) :
    (a ++ l).splitOnP p = (l.splitOnP p).modifyHead (a ++ ·) := by
  induction a with
  | nil =>
    simp only [List.nil_append]
    cases l.splitOnP p <;> rfl
  | cons c a ih =>
    rw [List.cons_append, List.splitOnP_cons_eq_if_modifyHead, if_neg (by simp [h c List.mem_cons_self]),
      ih fun d hd => h d (List.mem_cons_of_mem _ hd), List.modifyHead_modifyHead]
    rfl

/-- Filling in holes commutes with splitting. -/
theorem splitOnP_flatMap {l : List β} (h : Fills p q f l) :
    (l.flatMap f).splitOnP p = (l.splitOnP q).map (·.flatMap f) := by
  induction l with
  | nil => rfl
  | cons x l ih =>
    have hrest := ih (fills_cons h)
    obtain ⟨hseparator, htext⟩ := h x List.mem_cons_self
    rw [List.flatMap_cons, List.splitOnP_cons_eq_if_modifyHead]
    cases hq : q x with
    | true =>
      obtain ⟨c, hc, hp⟩ := hseparator hq
      rw [hc, List.singleton_append, List.splitOnP_cons_eq_if_modifyHead, if_pos hp, hrest]
      rfl
    | false =>
      rw [splitOnP_append_left (htext hq), hrest]
      cases hsplit : l.splitOnP q with
      | nil => exact absurd hsplit (List.splitOnP_ne_nil q l)
      | cons segment segments => simp

theorem takeWhile_flatMap {l : List β} (h : Fills p q f l) :
    (l.flatMap f).takeWhile (!p ·) = (l.takeWhile (!q ·)).flatMap f := by
  induction l with
  | nil => rfl
  | cons x l ih =>
    have hrest := ih (fills_cons h)
    obtain ⟨hend, htext⟩ := h x List.mem_cons_self
    cases hq : q x with
    | true =>
      obtain ⟨c, hc, hp⟩ := hend hq
      simp [hc, hp, hq]
    | false =>
      have hall : ∀ c ∈ f x, (!p c) = true := fun c hc => by simp [htext hq c hc]
      rw [List.flatMap_cons, List.takeWhile_append_of_pos hall, hrest, List.takeWhile_cons_of_pos
        (by simp [hq]), List.flatMap_cons]

theorem not_separator_of_split {l segment : List α} (hmem : segment ∈ l.splitOnP p) :
    ∀ c ∈ segment, p c = false := by
  induction l generalizing segment with
  | nil =>
    rw [List.mem_singleton.mp hmem]
    exact fun c hc => absurd hc List.not_mem_nil
  | cons x l ih =>
    rw [List.splitOnP_cons_eq_if_modifyHead] at hmem
    split_ifs at hmem with hp
    · rcases List.mem_cons.mp hmem with rfl | hmem
      · exact fun c hc => absurd hc List.not_mem_nil
      · exact ih hmem
    · cases hsplit : l.splitOnP p with
      | nil => exact absurd hsplit (List.splitOnP_ne_nil p l)
      | cons first rest =>
        rw [hsplit] at hmem ih
        rcases List.mem_cons.mp hmem with rfl | hmem
        · intro c hc
          rcases List.mem_cons.mp hc with rfl | hc
          · exact eq_false_of_ne_true hp
          · exact ih List.mem_cons_self c hc
        · exact ih (List.mem_cons_of_mem _ hmem)

theorem mem_of_split {l segment : List α} (hmem : segment ∈ l.splitOnP p) : segment ⊆ l := by
  induction l generalizing segment with
  | nil =>
    rw [List.mem_singleton.mp hmem]
    exact List.Subset.refl _
  | cons x l ih =>
    rw [List.splitOnP_cons_eq_if_modifyHead] at hmem
    have hrest : ∀ {segment}, segment ∈ l.splitOnP p → segment ⊆ x :: l := fun hmem =>
      List.subset_cons_of_subset x (ih hmem)
    split_ifs at hmem with hp
    · rcases List.mem_cons.mp hmem with rfl | hmem
      · exact List.nil_subset _
      · exact hrest hmem
    · cases hsplit : l.splitOnP p with
      | nil => exact absurd hsplit (List.splitOnP_ne_nil p l)
      | cons first rest =>
        rw [hsplit] at hmem hrest
        rcases List.mem_cons.mp hmem with rfl | hmem
        · exact List.cons_subset.mpr ⟨List.mem_cons_self, hrest List.mem_cons_self⟩
        · exact hrest (List.mem_cons_of_mem _ hmem)

theorem exists_segment_of_mem {l : List α} {x : α} (hx : x ∈ l) (hp : p x = false) :
    ∃ segment ∈ l.splitOnP p, x ∈ segment := by
  induction l with
  | nil => exact absurd hx List.not_mem_nil
  | cons y l ih =>
    rw [List.splitOnP_cons_eq_if_modifyHead]
    rcases List.mem_cons.mp hx with rfl | hx
    · rw [if_neg (by simp [hp])]
      cases hsplit : l.splitOnP p with
      | nil => exact absurd hsplit (List.splitOnP_ne_nil p l)
      | cons first rest => exact ⟨x :: first, List.mem_cons_self, List.mem_cons_self⟩
    · obtain ⟨segment, hmem, hin⟩ := ih hx
      split_ifs with hy
      · exact ⟨segment, List.mem_cons_of_mem _ hmem, hin⟩
      · cases hsplit : l.splitOnP p with
        | nil => exact absurd hsplit (List.splitOnP_ne_nil p l)
        | cons first rest =>
          rw [hsplit] at hmem
          rcases List.mem_cons.mp hmem with rfl | hmem
          · exact ⟨y :: segment, List.mem_cons_self, List.mem_cons_of_mem _ hin⟩
          · exact ⟨segment, List.mem_cons_of_mem _ hmem, hin⟩

def afterStart : List (List α) → List (List α)
  | [] :: segment :: rest => segment :: rest
  | segments => segments

theorem afterStart_of_ne {first : List α} {rest : List (List α)} (h : first ≠ []) :
    afterStart (first :: rest) = first :: rest := by
  cases first with
  | nil => exact absurd rfl h
  | cons c first => rfl

theorem afterStart_map {segments : List (List β)}
    (h : ∀ segment ∈ segments, segment.flatMap f = [] → segment = []) :
    afterStart (segments.map (·.flatMap f)) = (afterStart segments).map (·.flatMap f) := by
  rcases segments with - | ⟨first, rest⟩
  · rfl
  · cases first with
    | nil => cases rest <;> rfl
    | cons x first =>
      have hne : (x :: first).flatMap f ≠ [] := fun heq => by
        cases h _ List.mem_cons_self heq
      rw [afterStart_of_ne (List.cons_ne_nil x first), List.map_cons, afterStart_of_ne hne]

theorem mem_of_mem_afterStart {segments : List (List α)} {segment : List α}
    (h : segment ∈ afterStart segments) : segment ∈ segments := by
  unfold afterStart at h
  split at h
  · exact List.mem_cons_of_mem _ h
  · exact h

theorem mem_afterStart {segments : List (List α)} {segment : List α} (h : segment ∈ segments)
    (hne : segment ≠ []) : segment ∈ afterStart segments := by
  unfold afterStart
  split
  · exact (List.mem_cons.mp h).resolve_left hne
  · exact h

end Split

end UrlPaths
