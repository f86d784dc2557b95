import Mathlib.Algebra.Order.Ring.Int
import Mathlib.Data.List.Count
import Mathlib.Data.List.Infix
import Mathlib.Data.List.TakeWhile
import Mathlib.Tactic.Common

/-! # Templates

Texts with bracketed placeholders, and filling them one name after the other by plain text
replacement. That is the same as filling all of them at once exactly when no step finds its
placeholder where the template has none. -/
namespace Templates

variable {α : Type}

structure Brackets (α : Type) where
  opening : α
  closing : α
  isWord : α → Bool
  opening_not_word : isWord opening = false
  closing_not_word : isWord closing = false
  opening_ne_closing : opening ≠ closing

structure Template (α : Type) where
  head : List α
  holes : List (List α × List α)

namespace Brackets

variable (b : Brackets α)

def wrap (name : List α) : List α := b.opening :: (name ++ [b.closing])

def IsName (name : List α) : Prop := ∀ c ∈ name, b.isWord c = true

def flattenHoles (b : Brackets α) : List (List α × List α) → List α
  | [] => []
  | (name, text) :: rest => b.wrap name ++ (text ++ b.flattenHoles rest)

def flatten (t : Template α) : List α := t.head ++ b.flattenHoles t.holes

def fillHoles (value : List α → List α) : List (List α × List α) → List α
  | [] => []
  | (name, text) :: rest => value name ++ (text ++ fillHoles value rest)

/-- Every placeholder replaced at once. -/
def fill (value : List α → List α) (t : Template α) : List α :=
  t.head ++ fillHoles value t.holes

variable {b} {name value : List α}

theorem not_opening_of_name (h : b.IsName name) : b.opening ∉ name := by
  intro hmem
  have hword := h _ hmem
  rw [b.opening_not_word] at hword
  cases hword

theorem not_closing_of_name (h : b.IsName name) : b.closing ∉ name := by
  intro hmem
  have hword := h _ hmem
  rw [b.closing_not_word] at hword
  cases hword

theorem not_opening_tail (h : b.IsName name) : b.opening ∉ name ++ [b.closing] := by
  rw [List.mem_append, List.mem_singleton, not_or]
  exact ⟨not_opening_of_name h, b.opening_ne_closing⟩

theorem name_eq_of_prefix {other : List α} (rest : List α) (h : b.IsName name)
    (hother : b.IsName other) (hpre : name ++ [b.closing] <+: other ++ b.closing :: rest) : name = other := by
  induction name generalizing other with
  | nil =>
    cases other with
    | nil => rfl
    | cons c other =>
      obtain ⟨more, hmore⟩ := hpre
      have hc : b.closing = c := (List.cons.inj hmore).1
      exact absurd (hc ▸ List.mem_cons_self) (not_closing_of_name hother)
  | cons c name ih =>
    cases other with
    | nil =>
      obtain ⟨more, hmore⟩ := hpre
      have hc : c = b.closing := (List.cons.inj hmore).1
      exact absurd (hc ▸ List.mem_cons_self) (not_closing_of_name h)
    | cons d other =>
      obtain ⟨more, hmore⟩ := hpre
      obtain ⟨hhead, htail⟩ := List.cons.inj hmore
      rw [hhead, ih (fun c hc => h c (List.mem_cons_of_mem _ hc))
        (fun c hc => hother c (List.mem_cons_of_mem _ hc)) ⟨more, htail⟩]

end Brackets

variable [DecidableEq α]

section Replace

/-- Left to right, non-overlapping; `skip` elements still belong to the last match. -/
def replaceFrom (pattern replacement : List α) : Nat → List α → List α
  | _, [] => []
  | skip + 1, _ :: rest => replaceFrom pattern replacement skip rest
  | 0, c :: rest =>
    if pattern.isPrefixOf (c :: rest) then
      replacement ++ replaceFrom pattern replacement (pattern.length - 1) rest
    else c :: replaceFrom pattern replacement 0 rest

def replace (pattern replacement s : List α) : List α := replaceFrom pattern replacement 0 s

variable {pattern replacement : List α}

theorem replaceFrom_skip (pattern replacement l rest : List α) :
    replaceFrom pattern replacement l.length (l ++ rest) =
      replaceFrom pattern replacement 0 rest := by
  induction l with
  | nil => rfl
  | cons c l ih => exact ih

theorem replace_of_absent {s : List α} (h : ¬ pattern <:+: s) :
    replace pattern replacement s = s := by
  unfold replace
  induction s with
  | nil => rfl
  | cons c rest ih =>
    have hhead : ¬ pattern.isPrefixOf (c :: rest) = true := fun hpre =>
      h (List.isPrefixOf_iff_prefix.mp hpre).isInfix
    rw [replaceFrom, if_neg hhead, ih fun hin => h (hin.trans (List.suffix_cons c rest).isInfix)]

end Replace

namespace Brackets

section Steps

variable (b : Brackets α)

def stepHoles (name value : List α) : List α → List (List α × List α) → Template α
  | text, [] => ⟨replace (b.wrap name) value text, []⟩
  | text, (other, next) :: rest =>
    let t := stepHoles name value next rest
    if other = name then ⟨replace (b.wrap name) value text ++ (value ++ t.head), t.holes⟩
    else ⟨replace (b.wrap name) value text, (other, t.head) :: t.holes⟩

/-- Replacing one name in the whole text, seen on the template. -/
def step (name value : List α) (t : Template α) : Template α :=
  b.stepHoles name value t.head t.holes

def Clean (name : List α) (t : Template α) : Prop :=
  ¬ b.wrap name <:+: t.head ∧ ∀ hole ∈ t.holes, ¬ b.wrap name <:+: hole.2

def run (value : List α → List α) (names : List (List α)) (s : List α) : List α :=
  names.foldl (fun s name => replace (b.wrap name) (value name) s) s

def runTemplate (value : List α → List α) (names : List (List α)) (t : Template α) : Template α :=
  names.foldl (fun t name => b.step name (value name) t) t

/-- No step finds its placeholder where the template has none. -/
def NoStray (b : Brackets α) (value : List α → List α) : List (List α) → Template α → Prop
  | [], _ => True
  | name :: rest, t => b.Clean name t ∧ b.NoStray value rest (b.step name (value name) t)

instance (b : Brackets α) (name : List α) (t : Template α) : Decidable (b.Clean name t) :=
  inferInstanceAs (Decidable (_ ∧ ∀ hole ∈ t.holes, _))

instance decidableNoStray (b : Brackets α) (value : List α → List α) :
    ∀ (names : List (List α)) (t : Template α), Decidable (b.NoStray value names t)
  | [], _ => isTrue trivial
  | name :: rest, t =>
    have := decidableNoStray b value rest (b.step name (value name) t)
    inferInstanceAs (Decidable (_ ∧ _))

def openings (t : Template α) : Nat :=
  t.head.count b.opening + (t.holes.map fun hole => hole.2.count b.opening).sum

end Steps

variable {b : Brackets α} {name value : List α}

theorem isPrefixOf_wrap_iff {other : List α} (rest : List α) (h : b.IsName name)
    (hother : b.IsName other) :
    (b.wrap name).isPrefixOf (b.wrap other ++ rest) = true ↔ name = other := by
  rw [List.isPrefixOf_iff_prefix]
  constructor
  · rintro ⟨more, hmore⟩
    refine name_eq_of_prefix rest h hother ⟨more, ?_⟩
    simpa [wrap] using hmore
  · rintro rfl
    exact List.prefix_append _ _

theorem prefix_before_opening (c : α) (text rest : List α) (h : b.IsName name) :
    (b.wrap name).isPrefixOf (c :: text ++ b.opening :: rest) = true ↔
      (b.wrap name).isPrefixOf (c :: text) = true := by
  rw [List.isPrefixOf_iff_prefix, List.isPrefixOf_iff_prefix]
  constructor
  · rintro hpre
    by_cases hlength : (b.wrap name).length ≤ (c :: text).length
    · exact List.prefix_of_prefix_length_le hpre (List.prefix_append _ _) hlength
    · obtain ⟨more, hmore⟩ := hpre
      have htail : (name ++ [b.closing])[text.length]? = some b.opening := by
        have hget := congrArg (fun l => l[(c :: text).length]?) hmore
        simp only [wrap, List.cons_append, List.length_cons, List.getElem?_cons_succ] at hget
        rw [List.getElem?_append_left (by
          simp only [wrap, List.length_cons] at hlength
          omega), List.getElem?_append_right (Nat.le_refl _), Nat.sub_self] at hget
        exact hget
      exact absurd (List.mem_of_getElem? htail) (not_opening_tail h)
  · exact fun hpre => hpre.trans (List.prefix_append _ _)

theorem replaceFrom_no_opening {l : List α} (h : b.opening ∉ l) (rest : List α) :
    replaceFrom (b.wrap name) value 0 (l ++ rest) =
      l ++ replaceFrom (b.wrap name) value 0 rest := by
  induction l with
  | nil => rfl
  | cons c l ih =>
    have hhead : ¬ (b.wrap name).isPrefixOf (c :: (l ++ rest)) = true := by
      rw [List.isPrefixOf_iff_prefix]
      rintro ⟨more, hmore⟩
      exact h ((List.cons.inj hmore).1 ▸ List.mem_cons_self)
    rw [List.cons_append, replaceFrom, if_neg hhead,
      ih fun hmem => h (List.mem_cons_of_mem _ hmem), List.cons_append]

theorem replaceFrom_wrap {other : List α} (h : b.IsName name) (hother : b.IsName other)
    (rest : List α) : replaceFrom (b.wrap name) value 0 (b.wrap other ++ rest) =
      (if other = name then value else b.wrap other) ++
        replaceFrom (b.wrap name) value 0 rest := by
  have hiff := isPrefixOf_wrap_iff rest h hother
  have hcons : b.wrap other ++ rest = b.opening :: (other ++ [b.closing] ++ rest) := rfl
  rw [hcons] at hiff ⊢
  by_cases heq : other = name
  · have hskip := replaceFrom_skip (b.wrap name) value
      (other ++ [b.closing]) rest
    have hlength : (b.wrap name).length - 1 = (other ++ [b.closing]).length := by
      simp [wrap, heq]
    rw [if_pos heq, replaceFrom, if_pos (hiff.mpr heq.symm), hlength, hskip]
  · rw [if_neg heq, replaceFrom, if_neg fun hmatch => heq (hiff.mp hmatch).symm,
      replaceFrom_no_opening (not_opening_tail hother), ← List.cons_append]
    rfl

/-- Replacement works piece by piece. -/
theorem replaceFrom_append {other : List α} (h : b.IsName name) (hother : b.IsName other)
    (text rest : List α) (skip : Nat) (hskip : skip ≤ text.length) :
    replaceFrom (b.wrap name) value skip (text ++ (b.wrap other ++ rest)) =
      replaceFrom (b.wrap name) value skip text ++
        ((if other = name then value else b.wrap other) ++
          replaceFrom (b.wrap name) value 0 rest) := by
  induction text generalizing skip with
  | nil =>
    obtain rfl : skip = 0 := Nat.le_zero.mp hskip
    exact replaceFrom_wrap h hother rest
  | cons c text ih =>
    cases skip with
    | succ skip => exact ih skip (Nat.le_of_succ_le_succ hskip)
    | zero =>
      have hiff := prefix_before_opening c text (other ++ [b.closing] ++ rest) h
      have hsplit : c :: text ++ (b.wrap other ++ rest) =
          c :: text ++ b.opening :: (other ++ [b.closing] ++ rest) := by simp [wrap]
      by_cases hhead : (b.wrap name).isPrefixOf (c :: text) = true
      · have hlength := (List.isPrefixOf_iff_prefix.mp hhead).length_le
        have hfull : (b.wrap name).isPrefixOf (c :: (text ++ (b.wrap other ++ rest))) = true := by
          rw [← List.cons_append, hsplit]
          exact hiff.mpr hhead
        rw [List.cons_append, replaceFrom, if_pos hfull, replaceFrom, if_pos hhead,
          ih _ (by simp only [List.length_cons] at hlength; omega), List.append_assoc]
      · have hfull : ¬ (b.wrap name).isPrefixOf (c :: (text ++ (b.wrap other ++ rest))) = true := by
          rw [← List.cons_append, hsplit]
          exact fun hpre => hhead (hiff.mp hpre)
        rw [List.cons_append, replaceFrom, if_neg hfull, replaceFrom, if_neg hhead,
          ih 0 (Nat.zero_le _), List.cons_append]

def Named (b : Brackets α) (t : Template α) : Prop := ∀ hole ∈ t.holes, b.IsName hole.1

theorem flatten_step (h : b.IsName name) {t : Template α} (ht : b.Named t) :
    b.flatten (b.step name value t) = replace (b.wrap name) value (b.flatten t) := by
  obtain ⟨text, holes⟩ := t
  unfold flatten step replace
  dsimp only
  induction holes generalizing text with
  | nil => simp [stepHoles, flattenHoles, replace]
  | cons hole rest ih =>
    obtain ⟨other, next⟩ := hole
    have hrest := ih next fun hole hhole => ht hole (List.mem_cons_of_mem _ hhole)
    rw [flattenHoles, replaceFrom_append h (ht _ List.mem_cons_self) text _ 0 (Nat.zero_le _),
      ← hrest, stepHoles]
    dsimp only
    split_ifs with heq
    · simp [replace, List.append_assoc]
    · simp [replace, flattenHoles]

theorem named_step {t : Template α} (ht : b.Named t) : b.Named (b.step name value t) := by
  obtain ⟨text, holes⟩ := t
  unfold step
  dsimp only
  induction holes generalizing text with
  | nil => simp [stepHoles, Named]
  | cons hole rest ih =>
    obtain ⟨other, next⟩ := hole
    have hrest := ih next fun hole hhole => ht hole (List.mem_cons_of_mem _ hhole)
    rw [stepHoles]
    split_ifs with heq
    · exact hrest
    · intro hole hhole
      rcases List.mem_cons.mp hhole with rfl | hhole
      · exact ht (other, next) List.mem_cons_self
      · exact hrest hole hhole

theorem holes_step {t : Template α} :
    ∀ other ∈ (b.step name value t).holes.map (·.1), other ≠ name ∧ other ∈ t.holes.map (·.1) := by
  obtain ⟨text, holes⟩ := t
  unfold step
  dsimp only
  induction holes generalizing text with
  | nil => simp [stepHoles]
  | cons hole rest ih =>
    obtain ⟨other, next⟩ := hole
    rw [stepHoles]
    split_ifs with heq
    · intro o ho
      exact ⟨(ih next o ho).1, List.mem_cons_of_mem _ (ih next o ho).2⟩
    · intro o ho
      rcases List.mem_cons.mp ho with rfl | ho
      · exact ⟨heq, List.mem_cons_self⟩
      · exact ⟨(ih next o ho).1, List.mem_cons_of_mem _ (ih next o ho).2⟩

theorem count_replaceFrom_le (hvalue : b.opening ∉ value) (skip : Nat) (s : List α) :
    (replaceFrom (b.wrap name) value skip s).count b.opening ≤ s.count b.opening := by
  induction s generalizing skip with
  | nil => exact Nat.le_refl _
  | cons c rest ih =>
    cases skip with
    | succ skip => exact Nat.le_trans (ih skip) List.count_le_count_cons
    | zero =>
      rw [replaceFrom]
      split_ifs
      · rw [List.count_append, List.count_eq_zero_of_not_mem hvalue, Nat.zero_add]
        exact Nat.le_trans (ih _) List.count_le_count_cons
      · rw [List.count_cons, List.count_cons]
        exact Nat.add_le_add_right (ih 0) _

/-- A replacement that finds its placeholder loses an opening. -/
theorem count_replace_lt (hvalue : b.opening ∉ value) {s : List α} (h : b.wrap name <:+: s) :
    (replace (b.wrap name) value s).count b.opening < s.count b.opening := by
  unfold replace
  induction s with
  | nil =>
    have hnil := List.infix_nil.mp h
    cases hnil
  | cons c rest ih =>
    rw [replaceFrom]
    split_ifs with hhead
    · obtain ⟨more, hmore⟩ := List.isPrefixOf_iff_prefix.mp hhead
      obtain ⟨hc, -⟩ := List.cons.inj hmore
      rw [List.count_append, List.count_eq_zero_of_not_mem hvalue, Nat.zero_add, ← hc,
        List.count_cons_self]
      exact Nat.lt_succ_of_le (count_replaceFrom_le hvalue _ _)
    · rcases List.infix_cons_iff.mp h with hmatch | hin
      · exact absurd (List.isPrefixOf_iff_prefix.mpr hmatch) hhead
      · rw [List.count_cons, List.count_cons]
        exact Nat.add_lt_add_right (ih hin) _

theorem count_replace_le (name : List α) (hvalue : b.opening ∉ value) (s : List α) :
    (replace (b.wrap name) value s).count b.opening ≤ s.count b.opening :=
  count_replaceFrom_le hvalue 0 s

theorem openings_step_le (name : List α) (hvalue : b.opening ∉ value) (t : Template α) :
    b.openings (b.step name value t) ≤ b.openings t := by
  obtain ⟨text, holes⟩ := t
  unfold openings step
  dsimp only
  induction holes generalizing text with
  | nil => simpa [stepHoles] using count_replace_le name hvalue text
  | cons hole rest ih =>
    obtain ⟨other, next⟩ := hole
    have hrest := ih next
    have htext := count_replace_le name hvalue text
    rw [stepHoles]
    split_ifs
    · rw [List.count_append, List.count_append, List.count_eq_zero_of_not_mem hvalue,
        List.map_cons, List.sum_cons]
      dsimp only
      omega
    · rw [List.map_cons, List.sum_cons, List.map_cons, List.sum_cons]
      dsimp only
      omega

/-- A step that is not clean loses an opening of the texts. -/
theorem openings_step_lt (hvalue : b.opening ∉ value) {t : Template α} (h : ¬ b.Clean name t) :
    b.openings (b.step name value t) < b.openings t := by
  obtain ⟨text, holes⟩ := t
  induction holes generalizing text with
  | nil =>
    have hin : b.wrap name <:+: text := by
      by_contra hnot
      exact h ⟨hnot, by simp⟩
    simpa [openings, step, stepHoles] using count_replace_lt hvalue hin
  | cons hole rest ih =>
    obtain ⟨other, next⟩ := hole
    have htext := count_replace_le name hvalue text
    have hrest := openings_step_le name hvalue ⟨next, rest⟩
    have hless : (replace (b.wrap name) value text).count b.opening < text.count b.opening ∨
        b.openings (b.step name value ⟨next, rest⟩) < b.openings ⟨next, rest⟩ := by
      by_cases hin : b.wrap name <:+: text
      · exact Or.inl (count_replace_lt hvalue hin)
      · refine Or.inr (ih next fun hclean => h ⟨hin, ?_⟩)
        intro hole hhole
        rcases List.mem_cons.mp hhole with rfl | hhole
        · exact hclean.1
        · exact hclean.2 hole hhole
    unfold openings step at *
    dsimp only at *
    rw [stepHoles]
    split_ifs
    · rw [List.count_append, List.count_append, List.count_eq_zero_of_not_mem hvalue,
        List.map_cons, List.sum_cons]
      dsimp only
      omega
    · rw [List.map_cons, List.sum_cons, List.map_cons, List.sum_cons]
      dsimp only
      omega

theorem fill_step {values : List α → List α} {t : Template α} (h : b.Clean name t) :
    fill values (b.step name (values name) t) = fill values t := by
  obtain ⟨text, holes⟩ := t
  induction holes generalizing text with
  | nil => simp [fill, step, stepHoles, fillHoles, replace_of_absent h.1]
  | cons hole rest ih =>
    obtain ⟨other, next⟩ := hole
    have hrest := ih next ⟨h.2 _ List.mem_cons_self, fun hole hhole =>
      h.2 hole (List.mem_cons_of_mem _ hhole)⟩
    unfold fill step at hrest ⊢
    dsimp only at hrest ⊢
    rw [stepHoles, fillHoles]
    split_ifs with heq
    · rw [replace_of_absent h.1, heq, ← hrest]
      simp [List.append_assoc]
    · rw [replace_of_absent h.1, fillHoles, hrest]

theorem flatten_runTemplate (values : List α → List α) {names : List (List α)}
    (hnames : ∀ name ∈ names, b.IsName name) {t : Template α} (ht : b.Named t) :
    b.flatten (b.runTemplate values names t) = b.run values names (b.flatten t) := by
  induction names generalizing t with
  | nil => rfl
  | cons name rest ih =>
    have hname := hnames name List.mem_cons_self
    rw [runTemplate, List.foldl_cons, run, List.foldl_cons, ← flatten_step hname ht]
    exact ih (fun name hmem => hnames name (List.mem_cons_of_mem _ hmem)) (named_step ht)

theorem holes_runTemplate (b : Brackets α) (values : List α → List α) {names : List (List α)}
    {t : Template α} (h : ∀ hole ∈ t.holes, hole.1 ∈ names) : (b.runTemplate values names t).holes = [] := by
  induction names generalizing t with
  | nil =>
    rw [List.eq_nil_iff_forall_not_mem]
    exact fun hole hhole => absurd (h hole hhole) List.not_mem_nil
  | cons name rest ih =>
    refine ih fun hole hhole => ?_
    obtain ⟨hne, hmem⟩ := holes_step hole.1 (List.mem_map_of_mem hhole)
    obtain ⟨hole', hhole', heq⟩ := List.mem_map.mp hmem
    rcases List.mem_cons.mp (heq ▸ h hole' hhole') with hname | hrest
    · exact absurd hname hne
    · exact hrest

theorem openings_runTemplate_le {values : List α → List α} {names : List (List α)}
    (hvalues : ∀ name ∈ names, b.opening ∉ values name) (t : Template α) :
    b.openings (b.runTemplate values names t) ≤ b.openings t := by
  induction names generalizing t with
  | nil => exact Nat.le_refl _
  | cons name rest ih =>
    exact Nat.le_trans (ih (fun name hmem => hvalues name (List.mem_cons_of_mem _ hmem)) _)
      (openings_step_le name (hvalues name List.mem_cons_self) t)

theorem fill_runTemplate {values : List α → List α} {names : List (List α)} {t : Template α}
    (h : b.NoStray values names t) : fill values (b.runTemplate values names t) =
      fill values t := by
  induction names generalizing t with
  | nil => rfl
  | cons name rest ih => exact (ih h.2).trans (fill_step h.1)

theorem noStray_of_openings {values : List α → List α} {names : List (List α)}
    (hvalues : ∀ name ∈ names, b.opening ∉ values name) {t : Template α}
    (h : b.openings (b.runTemplate values names t) = b.openings t) :
    b.NoStray values names t := by
  induction names generalizing t with
  | nil => trivial
  | cons name rest ih =>
    have hrest : ∀ name ∈ rest, b.opening ∉ values name := fun name hmem =>
      hvalues name (List.mem_cons_of_mem _ hmem)
    have hle := openings_runTemplate_le hrest (b.step name (values name) t)
    have heq : b.openings (b.runTemplate values rest (b.step name (values name) t)) =
        b.openings t := h
    constructor
    · by_contra hstray
      have hlt := openings_step_lt (hvalues name List.mem_cons_self) hstray
      omega
    · have hstep := openings_step_le name (hvalues name List.mem_cons_self) t
      exact ih hrest (by omega)

theorem count_fill {values : List α → List α} {t : Template α}
    (h : ∀ hole ∈ t.holes, b.opening ∉ values hole.1) :
    (fill values t).count b.opening = b.openings t := by
  obtain ⟨text, holes⟩ := t
  unfold fill openings
  dsimp only at h ⊢
  rw [List.count_append]
  congr 1
  induction holes with
  | nil => rfl
  | cons hole rest ih =>
    obtain ⟨other, next⟩ := hole
    rw [fillHoles, List.count_append, List.count_append,
      List.count_eq_zero_of_not_mem (h _ List.mem_cons_self),
      ih fun hole hhole => h hole (List.mem_cons_of_mem _ hhole), List.map_cons, List.sum_cons,
      Nat.zero_add]

theorem run_eq_fill_iff {values : List α → List α} {names : List (List α)}
    (hnames : ∀ name ∈ names, b.IsName name)
    (hvalues : ∀ name ∈ names, b.opening ∉ values name) {t : Template α} (ht : b.Named t)
    (hholes : ∀ hole ∈ t.holes, hole.1 ∈ names) :
    b.run values names (b.flatten t) = fill values t ↔ b.NoStray values names t := by
  have hflatten := flatten_runTemplate values hnames ht
  have hempty := holes_runTemplate b values hholes
  constructor
  · intro h
    refine noStray_of_openings hvalues ?_
    have hcount := congrArg (List.count b.opening) (hflatten.trans h)
    rw [count_fill fun hole hhole => hvalues _ (hholes hole hhole)] at hcount
    rw [← hcount]
    unfold openings flatten
    rw [hempty]
    simp [flattenHoles]
  · intro h
    rw [← hflatten, ← fill_runTemplate h]
    unfold flatten fill
    rw [hempty]
    rfl

/-- A placeholder at the start of the text: its name and what follows. -/
def holeAt (b : Brackets α) : List α → Option (List α × List α)
  | [] => none
  | c :: rest =>
    let name := rest.takeWhile b.isWord
    match rest.drop name.length with
    | [] => none
    | d :: after =>
      if c = b.opening ∧ d = b.closing ∧ name ≠ [] then some (name, after) else none

def parseFrom (b : Brackets α) : Nat → List α → Template α
  | 0, s => ⟨s, []⟩
  | _ + 1, [] => ⟨[], []⟩
  | fuel + 1, c :: rest =>
    match b.holeAt (c :: rest) with
    | some (name, after) =>
      let t := b.parseFrom fuel after
      ⟨[], (name, t.head) :: t.holes⟩
    | none =>
      let t := b.parseFrom fuel rest
      ⟨c :: t.head, t.holes⟩

/-- The placeholders from left to right; one is a word between brackets. -/
def parse (b : Brackets α) (s : List α) : Template α := b.parseFrom s.length s

theorem holeAt_eq {s after : List α} (h : b.holeAt s = some (name, after)) :
    s = b.wrap name ++ after ∧ b.IsName name := by
  cases s with
  | nil => cases h
  | cons c rest =>
    simp only [holeAt] at h
    split at h
    · cases h
    · next d after' hdrop =>
      split_ifs at h with hc
      obtain ⟨rfl, rfl, -⟩ := hc
      obtain ⟨rfl, rfl⟩ := Prod.mk.inj (Option.some.inj h)
      constructor
      · have hsplit := List.take_append_drop (rest.takeWhile b.isWord).length rest
        rw [hdrop, List.prefix_iff_eq_take.mp (List.takeWhile_prefix b.isWord) |>.symm] at hsplit
        rw [wrap, List.cons_append, List.append_assoc]
        exact congrArg _ hsplit.symm
      · exact fun c hc => List.mem_takeWhile_imp hc

theorem flatten_parseFrom (fuel : Nat) (s : List α) : b.flatten (b.parseFrom fuel s) = s := by
  induction fuel generalizing s with
  | zero => simp [parseFrom, flatten, flattenHoles]
  | succ fuel ih =>
    cases s with
    | nil => rfl
    | cons c rest =>
      rw [parseFrom]
      split
      · next name after hhole =>
        have hafter := ih after
        rw [(holeAt_eq hhole).1]
        unfold flatten at hafter ⊢
        simp only [List.nil_append, flattenHoles, hafter]
      · have hrest := ih rest
        unfold flatten at hrest ⊢
        rw [List.cons_append, hrest]

theorem named_parseFrom (fuel : Nat) (s : List α) : b.Named (b.parseFrom fuel s) := by
  induction fuel generalizing s with
  | zero => simp [parseFrom, Named]
  | succ fuel ih =>
    cases s with
    | nil => simp [parseFrom, Named]
    | cons c rest =>
      rw [parseFrom]
      split
      · next name after hhole =>
        intro hole hmem
        rcases List.mem_cons.mp hmem with rfl | hmem
        · exact (holeAt_eq hhole).2
        · exact ih after hole hmem
      · exact ih rest

theorem flatten_parse (s : List α) : b.flatten (b.parse s) = s := flatten_parseFrom s.length s

theorem named_parse (s : List α) : b.Named (b.parse s) := named_parseFrom s.length s

section AnyNames

instance (b : Brackets α) (name : List α) : Decidable (b.IsName name) :=
  inferInstanceAs (Decidable (∀ c ∈ name, _))

/-- No replacement of any of these texts in brackets finds one where the template has no
placeholder; one that is no name is not to be found at all. -/
def Undisturbed (b : Brackets α) (value : List α → List α) : List (List α) → Template α → Prop
  | [], _ => True
  | name :: rest, t =>
    if b.IsName name then b.Clean name t ∧ b.Undisturbed value rest (b.step name (value name) t)
    else ¬ b.wrap name <:+: b.flatten t ∧ b.Undisturbed value rest t

instance decidableUndisturbed (b : Brackets α) (value : List α → List α) :
    ∀ (names : List (List α)) (t : Template α), Decidable (b.Undisturbed value names t)
  | [], _ => isTrue trivial
  | name :: rest, t =>
    if hname : b.IsName name then
      have := decidableUndisturbed b value rest (b.step name (value name) t)
      decidable_of_iff (b.Clean name t ∧ b.Undisturbed value rest (b.step name (value name) t))
        (iff_of_eq (if_pos hname).symm)
    else
      have := decidableUndisturbed b value rest t
      decidable_of_iff (¬ b.wrap name <:+: b.flatten t ∧ b.Undisturbed value rest t)
        (iff_of_eq (if_neg hname).symm)

variable {values : List α → List α} {names : List (List α)}

theorem run_eq_fill_of_undisturbed {t : Template α} (ht : b.Named t)
    (hholes : ∀ hole ∈ t.holes, hole.1 ∈ names) (h : b.Undisturbed values names t) :
    b.run values names (b.flatten t) = fill values t := by
  induction names generalizing t with
  | nil =>
    obtain ⟨text, holes⟩ := t
    cases holes with
    | nil => rfl
    | cons hole rest => exact absurd (hholes hole List.mem_cons_self) List.not_mem_nil
  | cons name rest ih =>
    rw [Undisturbed] at h
    have hrun : b.run values (name :: rest) (b.flatten t) =
        b.run values rest (replace (b.wrap name) (values name) (b.flatten t)) := rfl
    rw [hrun]
    split_ifs at h with hname
    · rw [← flatten_step hname ht, ← fill_step h.1]
      refine ih (named_step ht) (fun hole hhole => ?_) h.2
      obtain ⟨hne, hmem⟩ := holes_step hole.1 (List.mem_map_of_mem hhole)
      obtain ⟨hole', hhole', heq⟩ := List.mem_map.mp hmem
      exact (List.mem_cons.mp (heq ▸ hholes hole' hhole')).resolve_left hne
    · rw [replace_of_absent h.1]
      refine ih ht (fun hole hhole => ?_) h.2
      refine (List.mem_cons.mp (hholes hole hhole)).resolve_left fun heq => ?_
      exact hname (heq ▸ ht hole hhole)

/-- Where all of them are names it is that none is stray. -/
theorem undisturbed_iff {t : Template α} (hnames : ∀ name ∈ names, b.IsName name) :
    b.Undisturbed values names t ↔ b.NoStray values names t := by
  induction names generalizing t with
  | nil => exact Iff.rfl
  | cons name rest ih =>
    rw [Undisturbed, if_pos (hnames name List.mem_cons_self), NoStray,
      ih fun name hmem => hnames name (List.mem_cons_of_mem _ hmem)]

end AnyNames

end Brackets

end Templates
