import AgsCli.Support.Decimals
import AgsCli.Workflow.JsonPath

/-! # Language of the JSONPath subset

Expressions as `$` and a spelling of segments. The evaluator answers on some value exactly for
these, the validator accepts those of them whose names have no wildcard character. -/
namespace PathLanguage

open Json Strings Decimals JsonPath OrderedMap

inductive Segment
  | field (name : List Char)
  | index (text : List Char)

namespace Segment

def spelling : Segment → List Char
  | .field name => '.' :: name
  | .index text => '[' :: (text ++ [']'])

def Formed : Segment → Prop
  | .field name => name ≠ [] ∧ '.' ∉ name ∧ '[' ∉ name
  | .index text => (parseUsize text).isSome = true

/-- The name of a field has a character of a wildcard or a filter. -/
def Wild : Segment → Prop
  | .field name => ∃ c ∈ name, c = '*' ∨ c = '?' ∨ c = '@' ∨ c = '$'
  | .index _ => False

def step : Segment → Value → Option Value
  | .field name, v => v.get? (String.ofList name)
  | .index text, v => (parseUsize text).bind v.item?

def plain : Segment → Bool
  | .field name => plainName name
  | .index _ => true

end Segment

def spell (segs : List Segment) : List Char := segs.flatMap Segment.spelling

def walk : List Segment → Value → Option Value
  | [], v => some v
  | s :: rest, v => (s.step v).bind (walk rest)

def Expresses (e : String) (segs : List Segment) : Prop :=
  e.toList = '$' :: spell segs ∧ ∀ s ∈ segs, s.Formed

section Scan

theorem field_scan {name : List Char} (hdot : '.' ∉ name) (hopen : '[' ∉ name)
    (run rest : List Char) (cursor : Value) :
    evaluate (name ++ rest) .field run cursor = evaluate rest .field (run ++ name) cursor ∧
      accepts (name ++ rest) .field run = accepts rest .field (run ++ name) := by
  induction name generalizing run with
  | nil => rw [List.append_nil]; exact ⟨rfl, rfl⟩
  | cons c name ih =>
    have hc : c ≠ '.' := fun heq => hdot (heq ▸ List.mem_cons_self)
    have hc' : c ≠ '[' := fun heq => hopen (heq ▸ List.mem_cons_self)
    have hrest := ih (fun h => hdot (List.mem_cons_of_mem c h))
      (fun h => hopen (List.mem_cons_of_mem c h)) (run ++ [c])
    rw [List.append_assoc, List.singleton_append] at hrest
    rw [List.cons_append, evaluate_field, if_neg hc, if_neg hc', accepts_field, if_neg hc,
      if_neg hc']
    exact hrest

theorem index_scan {text : List Char} (hclose : ']' ∉ text) (run rest : List Char)
    (cursor : Value) :
    evaluate (text ++ rest) .index run cursor = evaluate rest .index (run ++ text) cursor ∧
      accepts (text ++ rest) .index run = accepts rest .index (run ++ text) := by
  induction text generalizing run with
  | nil => rw [List.append_nil]; exact ⟨rfl, rfl⟩
  | cons c text ih =>
    have hc : c ≠ ']' := fun heq => hclose (heq ▸ List.mem_cons_self)
    have hrest := ih (fun h => hclose (List.mem_cons_of_mem c h)) (run ++ [c])
    rw [List.append_assoc, List.singleton_append] at hrest
    rw [List.cons_append, evaluate_index, if_neg hc, accepts_index, if_neg hc]
    exact hrest

theorem spell_cons (s : Segment) (rest : List Segment) :
    spell (s :: rest) = s.spelling ++ spell rest := List.flatMap_cons

theorem spell_append (p q : List Segment) : spell (p ++ q) = spell p ++ spell q :=
  List.flatMap_append

/-- A name ends where the next segment starts. -/
theorem field_end {name : List Char} (hne : name ≠ []) (rest : List Segment) (v : Value) :
    evaluate (spell rest) .field name v =
      (v.get? (String.ofList name)).bind (evaluate (spell rest) .start []) ∧
    accepts (spell rest) .field name =
      (plainName name && accepts (spell rest) .start []) := by
  have hempty : name.isEmpty = false := List.isEmpty_eq_false_iff.mpr hne
  cases rest with
  | nil =>
    have hspell : spell [] = [] := rfl
    have hlast : evaluate [] .field name v =
        if name.isEmpty then none else v.get? (String.ofList name) := rfl
    refine ⟨?_, (Bool.and_true _).symm⟩
    rw [hspell, hlast, hempty, if_neg Bool.false_ne_true]
    cases v.get? (String.ofList name) with
    | none => rfl
    | some w => rfl
  | cons s rest =>
    rw [spell_cons]
    cases s with
    | field other =>
      rw [Segment.spelling, List.cons_append, evaluate_field, accepts_field, hempty]
      exact ⟨rfl, rfl⟩
    | index text =>
      rw [Segment.spelling, List.cons_append, evaluate_field, accepts_field, hempty]
      exact ⟨rfl, rfl⟩

theorem evaluate_spell {segs : List Segment} (h : ∀ s ∈ segs, s.Formed) (v : Value) :
    evaluate (spell segs) .start [] v = walk segs v := by
  induction segs generalizing v with
  | nil => rfl
  | cons s rest ih =>
    have hrest := fun w => ih (fun s hs => h s (List.mem_cons_of_mem _ hs)) w
    have hformed := h s List.mem_cons_self
    rw [spell_cons, walk]
    cases s with
    | field name =>
      obtain ⟨hne, hdot, hopen⟩ := hformed
      have hfirst : evaluate ((Segment.field name).spelling ++ spell rest) .start [] v =
          evaluate (name ++ spell rest) .field [] v := rfl
      rw [hfirst, (field_scan hdot hopen [] (spell rest) v).1, List.nil_append,
        (field_end hne rest v).1, Segment.step]
      exact Option.bind_congr fun w _ => hrest w
    | index text =>
      have hfirst : evaluate ((Segment.index text).spelling ++ spell rest) .start [] v =
          evaluate (text ++ ']' :: spell rest) .index [] v := by
        rw [Segment.spelling, List.cons_append, List.append_assoc]
        rfl
      obtain ⟨n, hn⟩ := Option.isSome_iff_exists.mp hformed
      rw [hfirst, (index_scan (no_close_of_parse hformed) [] _ v).1, List.nil_append,
        evaluate_index, if_pos rfl, Segment.step, hn]
      exact Option.bind_congr fun w _ => hrest w

theorem accepts_spell {segs : List Segment} (h : ∀ s ∈ segs, s.Formed) :
    accepts (spell segs) .start [] = segs.all Segment.plain := by
  induction segs with
  | nil => rfl
  | cons s rest ih =>
    have hrest := ih fun s hs => h s (List.mem_cons_of_mem _ hs)
    have hformed := h s List.mem_cons_self
    rw [spell_cons, List.all_cons, ← hrest]
    cases s with
    | field name =>
      obtain ⟨hne, hdot, hopen⟩ := hformed
      have hfirst : accepts ((Segment.field name).spelling ++ spell rest) .start [] =
          accepts (name ++ spell rest) .field [] := rfl
      rw [hfirst, (field_scan hdot hopen [] (spell rest) .null).2, List.nil_append,
        (field_end hne rest .null).2]
      rfl
    | index text =>
      have hfirst : accepts ((Segment.index text).spelling ++ spell rest) .start [] =
          accepts (text ++ ']' :: spell rest) .index [] := by
        rw [Segment.spelling, List.cons_append, List.append_assoc]
        rfl
      rw [hfirst, (index_scan (no_close_of_parse hformed) [] _ .null).2, List.nil_append,
        accepts_index, if_pos rfl, hformed]
      rfl

/-- What is left to read in a mode. -/
def Left : ScanMode → List Char → List Char → Prop
  | .start, _, chars => ∃ segs, chars = spell segs ∧ ∀ s ∈ segs, s.Formed
  | .field, run, chars => ∃ name segs, chars = name ++ spell segs ∧ run ++ name ≠ [] ∧
      '.' ∉ name ∧ '[' ∉ name ∧ ∀ s ∈ segs, s.Formed
  | .index, run, chars => ∃ text segs, chars = text ++ ']' :: spell segs ∧
      (parseUsize (run ++ text)).isSome = true ∧ ∀ s ∈ segs, s.Formed

theorem left_field {run chars : List Char} (hne : run ≠ []) (h : Left .start [] chars) :
    Left .field run chars := by
  obtain ⟨segs, hsegs, hformed⟩ := h
  exact ⟨[], segs, hsegs, by simpa using hne, List.not_mem_nil, List.not_mem_nil, hformed⟩

theorem left_dot {rest : List Char} (h : Left .field [] rest) : Left .start [] ('.' :: rest) := by
  obtain ⟨name, segs, rfl, hne, hdot, hopen, hformed⟩ := h
  refine ⟨.field name :: segs, by rw [spell_cons]; rfl, fun s hs => ?_⟩
  rcases List.mem_cons.mp hs with rfl | hs
  · exact ⟨hne, hdot, hopen⟩
  · exact hformed s hs

theorem left_open {rest : List Char} (h : Left .index [] rest) : Left .start [] ('[' :: rest) := by
  obtain ⟨text, segs, rfl, hparse, hformed⟩ := h
  refine ⟨.index text :: segs, ?_, fun s hs => ?_⟩
  · rw [spell_cons, Segment.spelling, List.cons_append, List.append_assoc]
    rfl
  · rcases List.mem_cons.mp hs with rfl | hs
    · exact hparse
    · exact hformed s hs

theorem left_more {run rest : List Char} {c : Char} (hdot : c ≠ '.') (hopen : c ≠ '[')
    (h : Left .field (run ++ [c]) rest) : Left .field run (c :: rest) := by
  obtain ⟨name, segs, rfl, hne, hdot', hopen', hformed⟩ := h
  refine ⟨c :: name, segs, rfl, by simp, ?_, ?_, hformed⟩
  · exact List.not_mem_cons_of_ne_of_not_mem hdot.symm hdot'
  · exact List.not_mem_cons_of_ne_of_not_mem hopen.symm hopen'

theorem left_digit {run rest : List Char} {c : Char} (h : Left .index (run ++ [c]) rest) :
    Left .index run (c :: rest) := by
  obtain ⟨text, segs, rfl, hparse, hformed⟩ := h
  rw [List.append_assoc, List.singleton_append] at hparse
  exact ⟨c :: text, segs, rfl, hparse, hformed⟩

theorem left_close {run rest : List Char} (hparse : (parseUsize run).isSome = true)
    (h : Left .start [] rest) : Left .index run (']' :: rest) := by
  obtain ⟨segs, rfl, hformed⟩ := h
  exact ⟨[], segs, rfl, by simpa using hparse, hformed⟩

/-- The evaluator answers on a spelling only. -/
theorem left_of_evaluate {chars : List Char} {mode : ScanMode} {run : List Char} {v : Value}
    (h : (evaluate chars mode run v).isSome = true) : Left mode run chars := by
  induction chars generalizing mode run v with
  | nil =>
    cases mode with
    | start => exact ⟨[], rfl, fun s hs => absurd hs List.not_mem_nil⟩
    | field =>
      refine left_field ?_ ⟨[], rfl, fun s hs => absurd hs List.not_mem_nil⟩
      rintro rfl
      cases h
    | index => cases h
  | cons c rest ih =>
    cases mode with
    | start =>
      rw [evaluate_start] at h
      split_ifs at h with hdot hopen
      · subst hdot
        exact left_dot (ih h)
      · subst hopen
        exact left_open (ih h)
      · cases h
    | field =>
      rw [evaluate_field] at h
      split_ifs at h with hdot hempty hopen hempty
      · cases h
      · subst hdot
        obtain ⟨x, hx⟩ := Option.isSome_iff_exists.mp h
        obtain ⟨w, -, hw⟩ := Option.bind_eq_some_iff.mp hx
        exact left_field (by simpa using hempty) (left_dot (ih (by rw [hw]; rfl)))
      · cases h
      · subst hopen
        obtain ⟨x, hx⟩ := Option.isSome_iff_exists.mp h
        obtain ⟨w, -, hw⟩ := Option.bind_eq_some_iff.mp hx
        exact left_field (by simpa using hempty) (left_open (ih (by rw [hw]; rfl)))
      · exact left_more hdot hopen (ih h)
    | index =>
      rw [evaluate_index] at h
      split_ifs at h with hclose
      · subst hclose
        cases hparse : parseUsize run with
        | none =>
          rw [hparse] at h
          cases h
        | some n =>
          rw [hparse] at h
          obtain ⟨x, hx⟩ := Option.isSome_iff_exists.mp h
          obtain ⟨w, -, hw⟩ := Option.bind_eq_some_iff.mp hx
          exact left_close (by rw [hparse]; rfl) (ih (by rw [hw]; rfl))
      · exact left_digit (ih h)

/-- So does the validator. -/
theorem left_of_accepts {chars : List Char} {mode : ScanMode} {run : List Char}
    (h : accepts chars mode run = true) : Left mode run chars := by
  induction chars generalizing mode run with
  | nil =>
    cases mode with
    | start => exact ⟨[], rfl, fun s hs => absurd hs List.not_mem_nil⟩
    | field =>
      refine left_field ?_ ⟨[], rfl, fun s hs => absurd hs List.not_mem_nil⟩
      rintro rfl
      cases h
    | index => cases h
  | cons c rest ih =>
    have hrun : ∀ run, plainName run = true → run ≠ [] := by
      rintro run hplain rfl
      cases hplain
    cases mode with
    | start =>
      rw [accepts_start] at h
      split_ifs at h with hdot hopen
      · subst hdot
        exact left_dot (ih h)
      · subst hopen
        exact left_open (ih h)
    | field =>
      rw [accepts_field] at h
      split_ifs at h with hdot hopen
      · obtain ⟨hplain, hrest⟩ := Bool.and_eq_true_iff.mp h
        subst hdot
        exact left_field (hrun run hplain) (left_dot (ih hrest))
      · obtain ⟨hplain, hrest⟩ := Bool.and_eq_true_iff.mp h
        subst hopen
        exact left_field (hrun run hplain) (left_open (ih hrest))
      · exact left_more hdot hopen (ih h)
    | index =>
      rw [accepts_index] at h
      split_ifs at h with hclose
      · obtain ⟨hparse, hrest⟩ := Bool.and_eq_true_iff.mp h
        subst hclose
        exact left_close hparse (ih hrest)
      · exact left_digit (ih h)

end Scan

section Values

/-- Every formed segment has a value it is found in. -/
theorem exists_step {s : Segment} (h : s.Formed) (v : Value) : ∃ w, s.step w = some v := by
  cases s with
  | field name =>
    refine ⟨.object [(String.ofList name, v)], ?_⟩
    rw [Segment.step, Value.get?, Entries.lookup_cons, if_pos rfl]
  | index text =>
    obtain ⟨n, hn⟩ := Option.isSome_iff_exists.mp h
    refine ⟨.array (List.replicate n .null ++ [v]), ?_⟩
    rw [Segment.step, hn, Option.bind_some, Value.item?, List.getElem?_append_right (by simp),
      List.length_replicate, Nat.sub_self]
    rfl

theorem exists_walk {segs : List Segment} (h : ∀ s ∈ segs, s.Formed) (v : Value) :
    ∃ w, walk segs w = some v := by
  induction segs with
  | nil => exact ⟨v, rfl⟩
  | cons s rest ih =>
    obtain ⟨u, hu⟩ := ih fun s hs => h s (List.mem_cons_of_mem _ hs)
    obtain ⟨w, hw⟩ := exists_step (h s List.mem_cons_self) u
    exact ⟨w, by rw [walk, hw, Option.bind_some, hu]⟩

theorem walk_append (p q : List Segment) (v : Value) :
    walk (p ++ q) v = (walk p v).bind (walk q) := by
  induction p generalizing v with
  | nil => rfl
  | cons s rest ih =>
    rw [List.cons_append, walk, walk, Option.bind_assoc]
    exact Option.bind_congr fun w _ => ih w

end Values

section Expressions

variable {e : String} {segs : List Segment}

theorem apply_of_expresses (h : Expresses e segs) (v : Value) :
    applyJsonpathSubset v e = walk segs v := by
  rw [applyJsonpathSubset, h.1]
  exact evaluate_spell h.2 v

theorem valid_of_expresses (h : Expresses e segs) :
    jsonpathIsValid e = segs.all Segment.plain := by
  rw [jsonpathIsValid, h.1]
  exact accepts_spell h.2

/-- The evaluator answers on some value exactly for the expressions of segments. -/
theorem evaluable_iff : (∃ v, (applyJsonpathSubset v e).isSome = true) ↔
    ∃ segs, Expresses e segs := by
  constructor
  · rintro ⟨v, hv⟩
    rw [applyJsonpathSubset] at hv
    split at hv
    · next rest hrest =>
      obtain ⟨segs, hsegs, hformed⟩ := left_of_evaluate hv
      exact ⟨segs, by rw [hrest, hsegs], hformed⟩
    · cases hv
  · rintro ⟨segs, h⟩
    obtain ⟨w, hw⟩ := exists_walk h.2 .null
    exact ⟨w, by rw [apply_of_expresses h, hw]; rfl⟩

theorem expresses_of_valid (h : jsonpathIsValid e = true) : ∃ segs, Expresses e segs := by
  rw [jsonpathIsValid] at h
  split at h
  · next rest hrest =>
    obtain ⟨segs, hsegs, hformed⟩ := left_of_accepts h
    exact ⟨segs, by rw [hrest, hsegs], hformed⟩
  · cases h

theorem plain_iff {s : Segment} (h : s.Formed) : s.plain = true ↔ ¬s.Wild := by
  cases s with
  | index text => exact ⟨fun _ hwild => hwild, fun _ => rfl⟩
  | field name =>
    have hempty : name.isEmpty = false := List.isEmpty_eq_false_iff.mpr h.1
    rw [Segment.plain, plainName, hempty, Bool.not_false, Bool.true_and, List.all_eq_true,
      Segment.Wild]
    constructor
    · rintro hall ⟨c, hc, hwild⟩
      have hplain := hall c hc
      rcases hwild with rfl | rfl | rfl | rfl
      all_goals cases hplain
    · intro hnot c hc
      by_contra hwild
      refine hnot ⟨c, hc, ?_⟩
      simp only [Bool.not_eq_true', Bool.not_eq_false, Bool.or_eq_true, decide_eq_true_eq] at hwild
      tauto

/-- An expression of segments, one of them with a wildcard character in its name. -/
def WildPath (e : String) : Prop := ∃ segs, Expresses e segs ∧ ∃ s ∈ segs, s.Wild

theorem valid_iff : jsonpathIsValid e = true ↔
    (∃ v, (applyJsonpathSubset v e).isSome = true) ∧ ¬WildPath e := by
  rw [evaluable_iff]
  constructor
  · intro hvalid
    refine ⟨expresses_of_valid hvalid, ?_⟩
    rintro ⟨segs, h, s, hs, hwild⟩
    rw [valid_of_expresses h, List.all_eq_true] at hvalid
    exact (plain_iff (h.2 s hs)).mp (hvalid s hs) hwild
  · rintro ⟨⟨segs, h⟩, hplain⟩
    rw [valid_of_expresses h, List.all_eq_true]
    intro s hs
    exact (plain_iff (h.2 s hs)).mpr fun hwild => hplain ⟨segs, h, s, hs, hwild⟩

end Expressions

/-- Validator and evaluator agree on an expression exactly when it is none of segments with a
wildcard character in a name; and evaluation composes. -/
theorem path_language_iff (e p q : String) :
    ((jsonpathIsValid e = true ↔ ∃ v, (applyJsonpathSubset v e).isSome = true) ↔
      ¬WildPath e) ∧
    (jsonpathIsValid ("$" ++ p) = true → jsonpathIsValid ("$" ++ q) = true → ∀ v,
      applyJsonpathSubset v ("$" ++ (p ++ q)) =
        (applyJsonpathSubset v ("$" ++ p)).bind fun w => applyJsonpathSubset w ("$" ++ q)) := by
  constructor
  · rw [valid_iff]
    constructor
    · intro hiff hwild
      have hsegs : ∃ segs, Expresses e segs := hwild.imp fun _ h => h.1
      exact (hiff.mpr (evaluable_iff.mpr hsegs)).2 hwild
    · intro hplain
      exact ⟨fun h => h.1, fun h => ⟨h, hplain⟩⟩
  · intro hp hq v
    obtain ⟨a, ha⟩ := expresses_of_valid hp
    obtain ⟨b, hb⟩ := expresses_of_valid hq
    have hchars : ∀ s : String, ("$" ++ s).toList = '$' :: s.toList := fun s => by
      rw [String.toList_append]
      rfl
    have hall : Expresses ("$" ++ (p ++ q)) (a ++ b) := by
      have ha' := ha.1
      have hb' := hb.1
      rw [hchars] at ha' hb'
      refine ⟨?_, fun s hs => (List.mem_append.mp hs).elim (ha.2 s) (hb.2 s)⟩
      rw [hchars, String.toList_append, (List.cons.inj ha').2, (List.cons.inj hb').2, spell_append]
    rw [apply_of_expresses hall, apply_of_expresses ha, walk_append]
    exact Option.bind_congr fun w _ => (apply_of_expresses hb w).symm

/-- `$.a` and `[1]` compose to `$.a[1]`. -/
theorem path_language_composed : applyJsonpathSubset
    (.ofPairs [("a", .array [.null, .bool true])]) ("$" ++ (".a" ++ "[1]")) =
      some (.bool true) :=
  ((path_language_iff "$.a" ".a" "[1]").2 (by decide) (by decide) _).trans (by decide)

/-- A member named `*` is found by an expression that is not valid. -/
theorem wildcard_evaluated : ¬(jsonpathIsValid "$.*" = true ↔
    ∃ v, (applyJsonpathSubset v "$.*").isSome = true) := by
  intro hiff
  have hvalid := hiff.mpr ⟨.object [("*", .null)], by decide⟩
  revert hvalid
  decide

end PathLanguage
