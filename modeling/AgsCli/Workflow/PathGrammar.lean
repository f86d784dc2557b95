import AgsCli.Support.Decimals
import AgsCli.Workflow.NestedPath

/-! # Grammar of nested binding paths

An accepted path is a row of pieces, keys and bracketed indices, with dots between them. The
grammar asks for a dot exactly in front of a key that is not the first piece, for keys without
brackets and for decimal indices; the parser is looser in four ways. -/
namespace PathGrammar

open Strings Decimals NestedPath

inductive Item
  | key (name : List Char)
  | index (text : List Char)

structure Piece where
  dotted : Bool
  item : Item

namespace Item

def spelling : Item → List Char
  | .key name => name
  | .index text => '[' :: (text ++ [']'])

def Formed : Item → Prop
  | .key name => name ≠ [] ∧ '.' ∉ name ∧ '[' ∉ name
  | .index text => (parseUsize text).isSome = true

def segment : Item → PathSegment
  | .key name => .key (String.ofList name)
  | .index text => .index ((parseUsize text).getD 0)

def isKey : Item → Bool
  | .key _ => true
  | .index _ => false

/-- The same key, or indices that differ in leading zeros only. -/
def ZeroAlike : Item → Item → Prop
  | .key a, .key b => a = b
  | .index a, .index b => significant a = significant b
  | _, _ => False

end Item

namespace Piece

def spelling (p : Piece) : List Char := (if p.dotted then ['.'] else []) ++ p.item.spelling

/-- What the grammar has no rule for: a dot in front of a bracket, a bracket in a key, an index
with a sign. -/
def Loose (p : Piece) : Prop :=
  match p.item with
  | .key name => ']' ∈ name
  | .index text => p.dotted = true ∨ '+' ∈ text

end Piece

def spell (ps : List Piece) : List Char := ps.flatMap Piece.spelling

def segments (ps : List Piece) : FieldPath := ps.map fun p => p.item.segment

/-- What a piece stands behind; a dot counts as the start. -/
inductive Behind
  | start
  | key
  | index
  deriving DecidableEq

def Behind.Allows : Behind → Piece → Prop
  | .start, p => p.dotted = false
  | .key, p => p.dotted = true ∨ p.item.isKey = false
  | .index, _ => True

def behind (item : Item) : Behind := if item.isKey then .key else .index

/-- The pieces the parser reads behind something. -/
def Readable : Behind → List Piece → Prop
  | _, [] => True
  | b, p :: ps => b.Allows p ∧ p.item.Formed ∧ Readable (behind p.item) ps

structure Spells (s : String) (ps : List Piece) : Prop where
  chars : s.toList = spell ps
  nonempty : ps ≠ []
  readable : Readable .start ps

def Separated : Behind → List Piece → Prop
  | _, [] => True
  | b, p :: ps =>
    (b = .index → p.item.isKey = true → p.dotted = true) ∧ Separated (behind p.item) ps

/-- `segment ('.' key | '[' index ']')*`. -/
def InGrammar (s : String) : Prop :=
  ∃ ps, Spells s ps ∧ (∀ p ∈ ps, ¬p.Loose) ∧ Separated .start ps

def LooselySpelled (s : String) : Prop :=
  ∃ ps, Spells s ps ∧ ((∃ p ∈ ps, p.Loose) ∨ ¬Separated .start ps)

section Reading

variable {path : String}

theorem spell_cons (p : Piece) (ps : List Piece) : spell (p :: ps) = p.spelling ++ spell ps :=
  List.flatMap_cons

theorem scan_index (path : String) {text : List Char} (hclose : ']' ∉ text) (rest : List Char)
    (position start : Nat) (run : List Char) (found : FieldPath) : ∃ position',
      scan path (text ++ rest) position (.index start) run found =
        scan path rest position' (.index start) (run ++ text) found := by
  induction text generalizing position run with
  | nil => exact ⟨position, by rw [List.append_nil]; rfl⟩
  | cons c text ih =>
    have hc : c ≠ ']' := fun heq => hclose (heq ▸ List.mem_cons_self)
    obtain ⟨position', hrest⟩ :=
      ih (fun h => hclose (List.mem_cons_of_mem c h)) (position + c.utf8Size) (run ++ [c])
    refine ⟨position', ?_⟩
    rw [List.cons_append, scan_cons_index, if_neg hc, hrest, List.append_assoc,
      List.singleton_append]

theorem scan_key (path : String) {name : List Char} (hdot : '.' ∉ name) (hopen : '[' ∉ name)
    (rest : List Char) (position : Nat) (run : List Char) (found : FieldPath) : ∃ position',
      scan path (name ++ rest) position .key run found =
        scan path rest position' .key (run ++ name) found := by
  induction name generalizing position run with
  | nil => exact ⟨position, by rw [List.append_nil]; rfl⟩
  | cons c name ih =>
    have hc : c ≠ '.' := fun heq => hdot (heq ▸ List.mem_cons_self)
    have hc' : c ≠ '[' := fun heq => hopen (heq ▸ List.mem_cons_self)
    obtain ⟨position', hrest⟩ := ih (fun h => hdot (List.mem_cons_of_mem c h))
      (fun h => hopen (List.mem_cons_of_mem c h)) (position + c.utf8Size) (run ++ [c])
    refine ⟨position', ?_⟩
    rw [List.cons_append, scan_cons_key, if_neg hc, if_neg hc', hrest, List.append_assoc,
      List.singleton_append]

/-- Where the scan is behind something. -/
def At : Behind → ScanMode → List Char → Prop
  | .start, mode, run => mode = .key ∧ run = []
  | .key, mode, run => mode = .key ∧ run ≠ []
  | .index, mode, run => mode = .closed ∧ run = []

theorem scan_nil {b : Behind} {mode : ScanMode} {run : List Char} (hat : At b mode run)
    (hlast : path.toList.getLast? ≠ some '.') {found : FieldPath}
    (hne : found ++ keySegment run ≠ []) (position : Nat) :
    scan path [] position mode run found = .ok (found ++ keySegment run) := by
  have hmode : ∀ start, mode ≠ .index start := by
    rintro start rfl
    cases b with
    | start | key | index => cases hat.1
  rw [scan_nil_eq _ _ _ _ hmode, if_neg hlast]
  simp only [List.isEmpty_eq_false_iff.mpr hne, Bool.false_eq_true, if_false]

theorem scan_dot {b : Behind} {mode : ScanMode} {run : List Char} (hat : At b mode run)
    (hb : b ≠ .start) (rest : List Char) (position : Nat) (found : FieldPath) :
    scan path ('.' :: rest) position mode run found =
      scan path rest (position + 1) .key [] (found ++ keySegment run) := by
  cases b with
  | start => exact absurd rfl hb
  | key =>
    obtain ⟨rfl, hrun⟩ := hat
    have hempty : run.isEmpty = false := List.isEmpty_eq_false_iff.mpr hrun
    simp [scan_cons_key, keySegment, hempty]
  | index =>
    obtain ⟨rfl, rfl⟩ := hat
    simp [scan_cons_closed, keySegment]

theorem scan_item (path : String) {b : Behind} {mode : ScanMode} {run : List Char} {item : Item}
    (hat : At b mode run) (hb : b = .key → item.isKey = false) (hformed : item.Formed)
    (rest : List Char) (position : Nat) (found : FieldPath) :
    ∃ mode' run' found' position', At (behind item) mode' run' ∧
      scan path (item.spelling ++ rest) position mode run found =
        scan path rest position' mode' run' found' ∧
      found' ++ keySegment run' = found ++ keySegment run ++ [item.segment] := by
  cases item with
  | index text =>
    have hopen : scan path ('[' :: (text ++ ']' :: rest)) position mode run found =
        scan path (text ++ ']' :: rest) (position + 1) (.index position) []
          (found ++ keySegment run) := by
      cases b with
      | start =>
        obtain ⟨rfl, rfl⟩ := hat
        simp [scan_cons_key]
      | key =>
        obtain ⟨rfl, -⟩ := hat
        simp [scan_cons_key]
      | index =>
        obtain ⟨rfl, rfl⟩ := hat
        simp [scan_cons_closed]
    obtain ⟨n, hn⟩ := Option.isSome_iff_exists.mp hformed
    obtain ⟨position', htext⟩ := scan_index path (no_close_of_parse hformed)
      (']' :: rest) (position + 1) position [] (found ++ keySegment run)
    refine ⟨.closed, [], found ++ keySegment run ++ [.index n], position' + 1, ⟨rfl, rfl⟩, ?_, ?_⟩
    · rw [Item.spelling, List.cons_append, List.append_assoc, List.singleton_append, hopen, htext,
        List.nil_append, scan_cons_index, if_pos rfl, hn]
    · rw [Item.segment, hn]
      exact List.append_nil _
  | key name =>
    obtain ⟨hne, hdot, hbracket⟩ := hformed
    have hempty : name.isEmpty = false := List.isEmpty_eq_false_iff.mpr hne
    have hfound : found ++ keySegment name =
        found ++ keySegment [] ++ [(Item.key name).segment] := by
      simp [keySegment, hempty, Item.segment]
    cases b with
    | key => exact absurd (hb rfl) Bool.noConfusion
    | start =>
      obtain ⟨rfl, rfl⟩ := hat
      obtain ⟨position', hname⟩ := scan_key path hdot hbracket rest position [] found
      exact ⟨.key, name, found, position', ⟨rfl, hne⟩, hname, hfound⟩
    | index =>
      obtain ⟨rfl, rfl⟩ := hat
      obtain ⟨c, name, rfl⟩ := List.exists_cons_of_ne_nil hne
      have hc : c ≠ '.' := fun heq => hdot (heq ▸ List.mem_cons_self)
      have hc' : c ≠ '[' := fun heq => hbracket (heq ▸ List.mem_cons_self)
      have hfirst : scan path (c :: (name ++ rest)) position .closed [] found =
          scan path (name ++ rest) (position + c.utf8Size) .key [c] found := by
        simp [scan_cons_closed, hc, hc']
      obtain ⟨position', hname⟩ := scan_key path
        (fun h => hdot (List.mem_cons_of_mem c h)) (fun h => hbracket (List.mem_cons_of_mem c h))
        rest (position + c.utf8Size) [c] found
      exact ⟨.key, c :: name, found, position', ⟨rfl, hne⟩, hfirst.trans hname, hfound⟩

theorem scan_spell {ps : List Piece} {b : Behind} {mode : ScanMode} {run : List Char}
    (hlast : path.toList.getLast? ≠ some '.') (hat : At b mode run) (hread : Readable b ps)
    {found : FieldPath} (hne : found ++ keySegment run ++ segments ps ≠ []) (position : Nat) :
    scan path (spell ps) position mode run found =
      .ok (found ++ keySegment run ++ segments ps) := by
  induction ps generalizing b mode run found position with
  | nil =>
    rw [segments, List.map_nil, List.append_nil] at hne ⊢
    exact scan_nil hat hlast hne position
  | cons p ps ih =>
    obtain ⟨hallows, hformed, hrest⟩ := hread
    obtain ⟨dotted, item⟩ := p
    have hsegments : segments (⟨dotted, item⟩ :: ps) = item.segment :: segments ps := rfl
    cases dotted with
    | true =>
      have hb : b ≠ .start := by
        rintro rfl
        cases hallows
      obtain ⟨mode', run', found', position', hat', hscan, hfound⟩ := scan_item path
        (b := .start) ⟨rfl, rfl⟩ (fun h => by cases h) hformed (spell ps) (position + 1)
        (found ++ keySegment run)
      have hend : found' ++ keySegment run' ++ segments ps =
          found ++ keySegment run ++ segments (⟨true, item⟩ :: ps) := by
        rw [hfound, hsegments]
        simp [keySegment]
      rw [spell_cons, Piece.spelling, if_pos rfl, List.append_assoc, List.singleton_append,
        scan_dot hat hb, hscan, ih hat' hrest (hend ▸ hne), hend]
    | false =>
      have hb : b = .key → item.isKey = false := by
        rintro rfl
        exact hallows.resolve_left Bool.false_ne_true
      obtain ⟨mode', run', found', position', hat', hscan, hfound⟩ :=
        scan_item path hat hb hformed (spell ps) position found
      have hend : found' ++ keySegment run' ++ segments ps =
          found ++ keySegment run ++ segments (⟨false, item⟩ :: ps) := by
        rw [hfound, hsegments]
        simp
      rw [spell_cons, Piece.spelling, if_neg Bool.false_ne_true, List.nil_append, hscan,
        ih hat' hrest (hend ▸ hne), hend]

theorem getLast_spelling {item : Item} (hformed : item.Formed) :
    item.spelling ≠ [] ∧ item.spelling.getLast? ≠ some '.' := by
  cases item with
  | key name =>
    refine ⟨hformed.1, fun h => hformed.2.1 ?_⟩
    exact List.mem_of_getLast? h
  | index text =>
    refine ⟨List.cons_ne_nil _ _, ?_⟩
    rw [Item.spelling, ← List.cons_append, List.getLast?_concat]
    decide

theorem getLast_spell {ps : List Piece} {b : Behind} (hread : Readable b ps) (hne : ps ≠ []) :
    spell ps ≠ [] ∧ (spell ps).getLast? ≠ some '.' := by
  induction ps generalizing b with
  | nil => exact absurd rfl hne
  | cons p ps ih =>
    obtain ⟨-, hformed, hrest⟩ := hread
    obtain ⟨hspelling, hlast⟩ := getLast_spelling hformed
    rw [spell_cons, Piece.spelling]
    by_cases hps : ps = []
    · subst hps
      rw [spell, List.flatMap_nil, List.append_nil, List.getLast?_append_of_ne_nil _ hspelling]
      exact ⟨List.append_ne_nil_of_right_ne_nil _ hspelling, hlast⟩
    · obtain ⟨hrestNe, hrestLast⟩ := ih hrest hps
      rw [List.getLast?_append_of_ne_nil _ hrestNe]
      exact ⟨List.append_ne_nil_of_right_ne_nil _ hrestNe, hrestLast⟩

theorem parse_of_spells {s : String} {ps : List Piece} (h : Spells s ps) :
    parse s = .ok (segments ps) := by
  obtain ⟨hne, hlast⟩ := getLast_spell h.readable h.nonempty
  rw [← h.chars] at hne hlast
  have hempty : s.toList.isEmpty = false := List.isEmpty_eq_false_iff.mpr hne
  have hsegments : [] ++ keySegment [] ++ segments ps = segments ps := rfl
  have hsome : segments ps ≠ [] := by
    rw [segments, Ne, List.map_eq_nil_iff]
    exact h.nonempty
  have hat : At .start .key [] := ⟨rfl, rfl⟩
  have hscan := scan_spell hlast hat h.readable (hsegments ▸ hsome) 0
  rw [parse, hempty, if_neg Bool.false_ne_true, h.chars]
  exact hscan

/-- What is left to read, and what it gives. -/
def Left (found out : FieldPath) : ScanMode → List Char → List Char → Prop
  | .key, run, chars => ∃ name ps, chars = name ++ spell ps ∧ '.' ∉ name ∧ '[' ∉ name ∧
      Readable (if run ++ name = [] then .start else .key) ps ∧
      out = found ++ keySegment (run ++ name) ++ segments ps
  | .closed, _, chars => ∃ ps, chars = spell ps ∧ Readable .index ps ∧ out = found ++ segments ps
  | .index _, run, chars => ∃ text ps, chars = text ++ ']' :: spell ps ∧
      (parseUsize (run ++ text)).isSome = true ∧ Readable .index ps ∧
      out = found ++ [(Item.index (run ++ text)).segment] ++ segments ps

theorem keySegment_of_ne {name : List Char} (h : name ≠ []) :
    keySegment name = [(Item.key name).segment] := by
  have hempty : name.isEmpty = false := List.isEmpty_eq_false_iff.mpr h
  simp [keySegment, hempty, Item.segment]

/-- Where nothing is read of a key, it is a piece of its own. -/
theorem start_of_left {found out : FieldPath} {chars : List Char}
    (h : Left found out .key [] chars) :
    ∃ ps, chars = spell ps ∧ Readable .start ps ∧ out = found ++ segments ps := by
  obtain ⟨name, ps, rfl, hdot, hopen, hread, rfl⟩ := h
  by_cases hname : name = []
  · subst hname
    exact ⟨ps, rfl, hread, by simp [keySegment]⟩
  · rw [List.nil_append, if_neg hname] at hread
    refine ⟨⟨false, .key name⟩ :: ps, by rw [spell_cons]; rfl,
      ⟨rfl, ⟨hname, hdot, hopen⟩, hread⟩, ?_⟩
    rw [List.nil_append, keySegment_of_ne hname, List.append_assoc]
    rfl

/-- Behind a dot stands a piece with the dot. -/
theorem dotted_of_left {found out : FieldPath} {chars : List Char} (hne : chars ≠ [])
    (h : Left found out .key [] chars) : ∃ ps, '.' :: chars = spell ps ∧
      (∀ b, b ≠ .start → Readable b ps) ∧ out = found ++ segments ps := by
  obtain ⟨ps, rfl, hread, rfl⟩ := start_of_left h
  cases ps with
  | nil => exact absurd rfl hne
  | cons p ps =>
    obtain ⟨hallows, hformed, hrest⟩ := hread
    have hdotted : p.dotted = false := hallows
    refine ⟨⟨true, p.item⟩ :: ps, ?_, fun b hb => ⟨?_, hformed, hrest⟩, rfl⟩
    · rw [spell_cons, spell_cons, Piece.spelling, Piece.spelling, hdotted]
      rfl
    · cases b with
      | start => exact absurd rfl hb
      | key => exact Or.inl rfl
      | index => trivial

theorem left_of_scan {chars : List Char} {position : Nat} {mode : ScanMode} {run : List Char}
    {found out : FieldPath} (h : scan path chars position mode run found = .ok out)
    (hsuffix : chars <:+ path.toList) (hclosed : mode = .closed → run = []) :
    Left found out mode run chars := by
  have hdot : ∀ {rest : List Char}, '.' :: rest <:+ path.toList → rest = [] →
      path.toList.getLast? = some '.' := by
    rintro rest ⟨before, hbefore⟩ rfl
    rw [← hbefore, List.getLast?_concat]
  -- a dot that ends the path is rejected in whatever mode
  have hrest : ∀ {rest : List Char} {position : Nat} {found : FieldPath},
      '.' :: rest <:+ path.toList → scan path rest position .key [] found = .ok out →
      rest ≠ [] := by
    rintro rest position found hsuffix hscan rfl
    rw [scan_nil_eq _ _ _ _ (by rintro start ⟨⟩), if_pos (hdot hsuffix rfl)] at hscan
    cases hscan
  induction chars generalizing position mode run found with
  | nil =>
    have hend : ∀ {segs : FieldPath}, (if path.toList.getLast? = some '.' then
        Except.error (FieldPathError.emptyKey path (path.utf8ByteSize - 1))
        else if segs.isEmpty then .error .empty else .ok segs) = .ok out → out = segs := by
      intro segs hsegs
      split_ifs at hsegs
      exact (Except.ok.inj hsegs).symm
    cases mode with
    | key =>
      refine ⟨[], [], rfl, List.not_mem_nil, List.not_mem_nil, trivial, ?_⟩
      rw [List.append_nil, segments, List.map_nil, List.append_nil]
      exact hend h
    | closed =>
      obtain rfl := hclosed rfl
      refine ⟨[], rfl, trivial, ?_⟩
      have hout := hend h
      simpa [keySegment, segments] using hout
    | index start => cases h
  | cons c rest ih =>
    have hsuffix' : rest <:+ path.toList := (List.suffix_cons c rest).trans hsuffix
    cases mode with
    | index start =>
      rw [scan_cons_index] at h
      split_ifs at h with hclose
      · subst hclose
        cases hparse : parseUsize run with
        | none =>
          rw [hparse] at h
          cases h
        | some n =>
          rw [hparse] at h
          obtain ⟨ps, rfl, hread, rfl⟩ := ih h hsuffix' fun _ => rfl
          refine ⟨[], ps, rfl, by rw [List.append_nil, hparse]; rfl, hread, ?_⟩
          rw [List.append_nil, Item.segment, hparse]
          rfl
      · obtain ⟨text, ps, rfl, hparse, hread, rfl⟩ := ih h hsuffix' fun heq => by cases heq
        rw [List.append_assoc, List.singleton_append] at hparse
        exact ⟨c :: text, ps, rfl, hparse, hread, by simp⟩
    | closed =>
      obtain rfl := hclosed rfl
      by_cases hc : c = '.'
      · subst hc
        have hscan : scan path rest (position + 1) .key [] found = .ok out := by
          simpa [scan_cons_closed] using h
        obtain ⟨ps, hps, hread, hout⟩ := dotted_of_left (hrest hsuffix hscan)
          (ih hscan hsuffix' fun heq => by cases heq)
        exact ⟨ps, hps, hread .index (by decide), hout⟩
      · by_cases hc' : c = '['
        · subst hc'
          have hscan : scan path rest (position + 1) (.index position) [] found = .ok out := by
            simpa [scan_cons_closed, keySegment] using h
          obtain ⟨text, ps, rfl, hparse, hread, rfl⟩ := ih hscan hsuffix' fun heq => by cases heq
          refine ⟨⟨false, .index text⟩ :: ps, ?_, ⟨trivial, hparse, hread⟩, ?_⟩
          · rw [spell_cons, Piece.spelling, Item.spelling]
            simp
          · rw [List.nil_append, List.append_assoc]
            rfl
        · have hscan : scan path rest (position + c.utf8Size) .key [c] found = .ok out := by
            simpa [scan_cons_closed, hc, hc'] using h
          obtain ⟨name, ps, rfl, hdot', hopen', hread, rfl⟩ :=
            ih hscan hsuffix' fun heq => by cases heq
          refine ⟨⟨false, .key (c :: name)⟩ :: ps, by rw [spell_cons]; rfl, ⟨trivial, ?_, ?_⟩, ?_⟩
          · exact ⟨List.cons_ne_nil _ _, List.not_mem_cons_of_ne_of_not_mem (Ne.symm hc) hdot',
              List.not_mem_cons_of_ne_of_not_mem (Ne.symm hc') hopen'⟩
          · rwa [List.singleton_append, if_neg (List.cons_ne_nil _ _)] at hread
          · rw [List.singleton_append, keySegment_of_ne (List.cons_ne_nil _ _), List.append_assoc]
            rfl
    | key =>
      by_cases hc : c = '.'
      · subst hc
        by_cases hrun : run = []
        · subst hrun
          simp [scan_cons_key] at h
        · have hempty : run.isEmpty = false := List.isEmpty_eq_false_iff.mpr hrun
          have hscan : scan path rest (position + 1) .key []
              (found ++ [.key (String.ofList run)]) = .ok out := by
            simpa [scan_cons_key, hempty] using h
          obtain ⟨ps, hps, hread, hout⟩ := dotted_of_left (hrest hsuffix hscan)
            (ih hscan hsuffix' fun heq => by cases heq)
          refine ⟨[], ps, hps, List.not_mem_nil, List.not_mem_nil, ?_, ?_⟩
          · rw [List.append_nil, if_neg hrun]
            exact hread .key (by decide)
          · rw [hout, List.append_nil, keySegment_of_ne hrun]
            rfl
      · by_cases hc' : c = '['
        · subst hc'
          have hscan : scan path rest (position + 1) (.index position) []
              (found ++ keySegment run) = .ok out := by
            simpa [scan_cons_key] using h
          obtain ⟨text, ps, rfl, hparse, hread, rfl⟩ := ih hscan hsuffix' fun heq => by cases heq
          refine ⟨[], ⟨false, .index text⟩ :: ps, ?_, List.not_mem_nil, List.not_mem_nil, ?_, ?_⟩
          · rw [spell_cons, Piece.spelling, Item.spelling]
            simp
          · refine ⟨?_, hparse, hread⟩
            split_ifs
            · rfl
            · exact Or.inr rfl
          · rw [List.nil_append, List.append_nil, List.append_assoc]
            rfl
        · have hscan : scan path rest (position + c.utf8Size) .key (run ++ [c]) found = .ok out := by
            simpa [scan_cons_key, hc, hc'] using h
          obtain ⟨name, ps, rfl, hdot', hopen', hread, rfl⟩ :=
            ih hscan hsuffix' fun heq => by cases heq
          have hrun : run ++ [c] ++ name = run ++ c :: name := by simp
          rw [hrun] at hread ⊢
          exact ⟨c :: name, ps, rfl, List.not_mem_cons_of_ne_of_not_mem (Ne.symm hc) hdot',
            List.not_mem_cons_of_ne_of_not_mem (Ne.symm hc') hopen', hread, rfl⟩

theorem spells_of_parse {s : String} {out : FieldPath} (h : parse s = .ok out) :
    ∃ ps, Spells s ps ∧ out = segments ps := by
  rw [parse] at h
  split_ifs at h with hempty
  obtain ⟨ps, hps, hread, hout⟩ := start_of_left
    (left_of_scan h (List.suffix_refl _) fun heq => by cases heq)
  refine ⟨ps, ⟨hps, ?_, hread⟩, by simpa using hout⟩
  rintro rfl
  rw [hps] at hempty
  exact hempty rfl

end Reading

section Unique

/-- Two runs that stop at the first character of another kind. -/
theorem stop_inj {keep : Char → Bool} {a b x y : List Char} (ha : ∀ c ∈ a, keep c = true)
    (hb : ∀ c ∈ b, keep c = true) (hx : ∀ c, x.head? = some c → keep c = false)
    (hy : ∀ c, y.head? = some c → keep c = false) (h : a ++ x = b ++ y) : a = b ∧ x = y := by
  have hstop : ∀ {a x : List Char}, (∀ c ∈ a, keep c = true) →
      (∀ c, x.head? = some c → keep c = false) → (a ++ x).takeWhile keep = a := by
    intro a x ha hx
    rw [List.takeWhile_append_of_pos ha]
    cases x with
    | nil => simp
    | cons c x => simp [hx c rfl]
  have hab : a = b := by rw [← hstop ha hx, h, hstop hb hy]
  rw [hab] at h
  exact ⟨hab, List.append_cancel_left h⟩

theorem item_head {item : Item} (hformed : item.Formed) (rest : List Char) :
    ∃ c more, item.spelling ++ rest = c :: more ∧ c ≠ '.' ∧ (item.isKey = true ↔ c ≠ '[') := by
  cases item with
  | key name =>
    obtain ⟨hne, hdot, hopen⟩ := hformed
    obtain ⟨c, name, rfl⟩ := List.exists_cons_of_ne_nil hne
    refine ⟨c, name ++ rest, rfl, fun heq => hdot (heq ▸ List.mem_cons_self), ?_⟩
    exact ⟨fun _ heq => hopen (heq ▸ List.mem_cons_self), fun _ => rfl⟩
  | index text =>
    refine ⟨'[', text ++ [']'] ++ rest, rfl, by decide, ?_⟩
    exact ⟨fun h => absurd h Bool.false_ne_true, fun h => absurd rfl h⟩

theorem head_behind_key {ps : List Piece} (h : Readable .key ps) (c : Char)
    (hc : (spell ps).head? = some c) : c = '.' ∨ c = '[' := by
  cases ps with
  | nil => cases hc
  | cons p ps =>
    obtain ⟨hallows, hformed, -⟩ := h
    rw [spell_cons, Piece.spelling] at hc
    by_cases hdotted : p.dotted = true
    · rw [if_pos hdotted] at hc
      exact Or.inl (Option.some.inj hc).symm
    · obtain ⟨d, more, heq, -, hkey⟩ := item_head hformed (spell ps)
      rw [if_neg hdotted, List.nil_append, heq] at hc
      obtain rfl := Option.some.inj hc
      have hindex : p.item.isKey = false := hallows.resolve_left hdotted
      rw [hindex] at hkey
      by_contra hnot
      exact absurd (hkey.mpr fun heq => hnot (Or.inr heq)) Bool.false_ne_true

theorem item_inj {a b : Item} {ps qs : List Piece} (ha : a.Formed) (hb : b.Formed)
    (hps : Readable (behind a) ps) (hqs : Readable (behind b) qs)
    (h : a.spelling ++ spell ps = b.spelling ++ spell qs) : a = b ∧ spell ps = spell qs := by
  obtain ⟨c, more, hc, -, hkeyA⟩ := item_head ha (spell ps)
  obtain ⟨d, more', hd, -, hkeyB⟩ := item_head hb (spell qs)
  have hcd : c = d := (List.cons.inj (hc.symm.trans (h.trans hd))).1
  rw [hcd] at hkeyA
  cases a with
  | key name =>
    cases b with
    | index text => cases hkeyB.mpr (hkeyA.mp rfl)
    | key other =>
      have hkeep : ∀ {name : List Char}, '.' ∉ name → '[' ∉ name → ∀ c ∈ name,
          (c ≠ '.' && c ≠ '[') = true := by
        intro name hdot hopen c hc
        have hne : c ≠ '.' ∧ c ≠ '[' :=
          ⟨fun heq => hdot (heq ▸ hc), fun heq => hopen (heq ▸ hc)⟩
        simp [hne]
      have hstop : ∀ {ps : List Piece}, Readable .key ps → ∀ c, (spell ps).head? = some c →
          (c ≠ '.' && c ≠ '[') = false := by
        intro ps hps c hc
        rcases head_behind_key hps c hc with rfl | rfl
        · rfl
        · rfl
      obtain ⟨heq, hrest⟩ := stop_inj (hkeep ha.2.1 ha.2.2) (hkeep hb.2.1 hb.2.2) (hstop hps)
        (hstop hqs) h
      exact ⟨congrArg Item.key heq, hrest⟩
  | index text =>
    cases b with
    | key name => cases hkeyA.mpr (hkeyB.mp rfl)
    | index other =>
      have hkeep : ∀ {text : List Char}, (parseUsize text).isSome = true → ∀ c ∈ text,
          decide (c ≠ ']') = true := by
        intro text hparse c hc
        exact decide_eq_true fun heq => no_close_of_parse hparse (heq ▸ hc)
      have hstop : ∀ (rest : List Char) (c : Char), (']' :: rest).head? = some c →
          decide (c ≠ ']') = false := by
        intro rest c hc
        obtain rfl := Option.some.inj hc
        rfl
      have htext : text ++ ']' :: spell ps = other ++ ']' :: spell qs := by
        have htail := congrArg List.tail h
        simpa [Item.spelling] using htail
      obtain ⟨heq, hrest⟩ := stop_inj (hkeep ha) (hkeep hb) (hstop _) (hstop _) htext
      exact ⟨congrArg Item.index heq, (List.cons.inj hrest).2⟩

theorem spell_inj {ps qs : List Piece} {b : Behind} (hps : Readable b ps) (hqs : Readable b qs)
    (h : spell ps = spell qs) : ps = qs := by
  induction ps generalizing b qs with
  | nil =>
    cases qs with
    | nil => rfl
    | cons q qs => exact absurd h.symm (getLast_spell hqs (List.cons_ne_nil q qs)).1
  | cons p ps ih =>
    cases qs with
    | nil => exact absurd h (getLast_spell hps (List.cons_ne_nil p ps)).1
    | cons q qs =>
      obtain ⟨hallowsP, hformedP, hrestP⟩ := hps
      obtain ⟨hallowsQ, hformedQ, hrestQ⟩ := hqs
      obtain ⟨dottedP, itemP⟩ := p
      obtain ⟨dottedQ, itemQ⟩ := q
      rw [spell_cons, spell_cons, Piece.spelling, Piece.spelling] at h
      obtain ⟨c, more, hc, hdotC, -⟩ := item_head hformedP (spell ps)
      obtain ⟨d, more', hd, hdotD, -⟩ := item_head hformedQ (spell qs)
      have hfinish : itemP.spelling ++ spell ps = itemQ.spelling ++ spell qs →
          itemP = itemQ ∧ ps = qs := by
        intro hitems
        obtain ⟨rfl, hspell⟩ := item_inj hformedP hformedQ hrestP hrestQ hitems
        exact ⟨rfl, ih hrestP hrestQ hspell⟩
      cases dottedP with
      | true =>
        cases dottedQ with
        | true =>
          rw [if_pos rfl, List.append_assoc, List.append_assoc] at h
          obtain ⟨rfl, rfl⟩ := hfinish (List.cons.inj h).2
          rfl
        | false =>
          rw [if_pos rfl, if_neg Bool.false_ne_true, List.nil_append, hd] at h
          exact absurd (List.cons.inj h).1.symm hdotD
      | false =>
        cases dottedQ with
        | true =>
          rw [if_pos rfl, if_neg Bool.false_ne_true, List.nil_append, hc] at h
          exact absurd (List.cons.inj h).1 hdotC
        | false =>
          rw [if_neg Bool.false_ne_true, List.nil_append, List.nil_append] at h
          obtain ⟨rfl, rfl⟩ := hfinish h
          rfl

theorem spells_unique {s : String} {ps qs : List Piece} (hps : Spells s ps) (hqs : Spells s qs) :
    ps = qs :=
  spell_inj hps.readable hqs.readable (hps.chars.symm.trans hqs.chars)

end Unique

section Printing

def canonicalItem : PathSegment → Item
  | .key name => .key name.toList
  | .index n => .index (Nat.toDigits 10 n)

def canonicalFrom (b : Behind) : FieldPath → List Piece
  | [] => []
  | s :: rest =>
    ⟨b ≠ .start && (canonicalItem s).isKey, canonicalItem s⟩ ::
      canonicalFrom (behind (canonicalItem s)) rest

/-- The canonical form: dots in front of keys, plain indices. -/
def print (path : FieldPath) : String := String.ofList (spell (canonicalFrom .start path))

def Printable : PathSegment → Prop
  | .key name => name ≠ "" ∧ '.' ∉ name.toList ∧ '[' ∉ name.toList
  | .index n => n < 2 ^ 64

theorem printable_segment {item : Item} (h : item.Formed) : Printable item.segment := by
  cases item with
  | key name =>
    obtain ⟨hne, hdot, hopen⟩ := h
    refine ⟨fun heq => hne ?_, ?_, ?_⟩
    · have hlist := congrArg String.toList heq
      rwa [String.toList_ofList] at hlist
    · rwa [String.toList_ofList]
    · rwa [String.toList_ofList]
  | index text =>
    obtain ⟨n, hn⟩ := Option.isSome_iff_exists.mp h
    have hbound := lt_of_parseUsize hn
    rw [Item.segment, hn]
    exact hbound

theorem printable_segments {ps : List Piece} {b : Behind} (h : Readable b ps) :
    ∀ s ∈ segments ps, Printable s := by
  induction ps generalizing b with
  | nil => exact fun s hs => absurd hs List.not_mem_nil
  | cons p ps ih =>
    obtain ⟨-, hformed, hrest⟩ := h
    intro s hs
    rcases List.mem_cons.mp hs with rfl | hs
    · exact printable_segment hformed
    · exact ih hrest s hs

theorem canonicalItem_formed {s : PathSegment} (h : Printable s) :
    (canonicalItem s).Formed ∧ (canonicalItem s).segment = s := by
  cases s with
  | key name =>
    obtain ⟨hne, hdot, hopen⟩ := h
    refine ⟨⟨fun heq => hne (String.toList_eq_nil_iff.mp heq), hdot, hopen⟩, ?_⟩
    rw [canonicalItem, Item.segment, String.ofList_toList]
  | index n =>
    have hparse := parseUsize_toDigits h
    refine ⟨by rw [canonicalItem, Item.Formed, hparse]; rfl, ?_⟩
    rw [canonicalItem, Item.segment, hparse]
    rfl

theorem canonicalFrom_readable {path : FieldPath} (h : ∀ s ∈ path, Printable s) (b : Behind) :
    Readable b (canonicalFrom b path) ∧ segments (canonicalFrom b path) = path := by
  induction path generalizing b with
  | nil => exact ⟨trivial, rfl⟩
  | cons s rest ih =>
    obtain ⟨hformed, hsegment⟩ := canonicalItem_formed (h s List.mem_cons_self)
    obtain ⟨hread, hrest⟩ :=
      ih (fun s hs => h s (List.mem_cons_of_mem _ hs)) (behind (canonicalItem s))
    refine ⟨⟨?_, hformed, hread⟩, ?_⟩
    · cases b with
      | start => rfl
      | key =>
        by_cases hkey : (canonicalItem s).isKey = true
        · exact Or.inl (by simp [hkey])
        · exact Or.inr (by simpa using hkey)
      | index => trivial
    · rw [canonicalFrom, segments, List.map_cons, hsegment]
      exact congrArg (s :: ·) hrest

theorem parse_print {s : String} {path : FieldPath} (h : parse s = .ok path) :
    (∀ segment ∈ path, Printable segment) ∧ parse (print path) = .ok path := by
  obtain ⟨ps, hps, rfl⟩ := spells_of_parse h
  have hprintable := printable_segments hps.readable
  obtain ⟨hread, hsegments⟩ := canonicalFrom_readable hprintable .start
  have hspells : Spells (print (segments ps)) (canonicalFrom .start (segments ps)) := by
    refine ⟨String.toList_ofList, fun hnil => hps.nonempty ?_, hread⟩
    rw [hnil] at hsegments
    exact List.map_eq_nil_iff.mp hsegments.symm
  refine ⟨hprintable, ?_⟩
  rw [parse_of_spells hspells, hsegments]

end Printing

section Aliases

/-- Two spellings that differ in leading zeros of indices only. -/
def ZeroAlike (s t : String) : Prop :=
  ∃ ps qs, Spells s ps ∧ Spells t qs ∧
    List.Forall₂ (fun p q => p.dotted = q.dotted ∧ p.item.ZeroAlike q.item) ps qs

theorem item_alike {a b : Item} (ha : a.Formed) (hb : b.Formed) (h : a.segment = b.segment)
    (hsignA : ∀ text, a = .index text → '+' ∉ text)
    (hsignB : ∀ text, b = .index text → '+' ∉ text) : a.ZeroAlike b := by
  cases a with
  | key name =>
    cases b with
    | key other => exact String.ofList_injective (PathSegment.key.inj h)
    | index text => cases h
  | index text =>
    cases b with
    | key name => cases h
    | index other =>
      obtain ⟨n, hn⟩ := Option.isSome_iff_exists.mp ha
      obtain ⟨m, hm⟩ := Option.isSome_iff_exists.mp hb
      have hvalues := PathSegment.index.inj h
      rw [hn, hm] at hvalues
      have hnm : n = m := hvalues
      subst hnm
      exact significant_of_decimal (decimal_of_parseUsize hn (hsignA text rfl))
        (decimal_of_parseUsize hm (hsignB other rfl))

/-- In the grammar a piece's dot is decided by what it stands behind. -/
theorem dotted_eq {b : Behind} {p : Piece} (hallows : b.Allows p) (hloose : ¬p.Loose)
    (hseparated : b = .index → p.item.isKey = true → p.dotted = true) :
    p.dotted = (b ≠ .start && p.item.isKey) := by
  obtain ⟨dotted, item⟩ := p
  cases item with
  | index text =>
    have hplain : dotted = false := by
      by_contra hdotted
      exact hloose (Or.inl (by simpa using hdotted))
    simpa [Item.isKey] using hplain
  | key name =>
    cases b with
    | start => exact hallows
    | key => exact hallows.resolve_right fun h => by cases h
    | index => exact hseparated rfl rfl

theorem pieces_alike {ps qs : List Piece} {b : Behind} (hps : Readable b ps) (hqs : Readable b qs)
    (h : segments ps = segments qs) (hlooseP : ∀ p ∈ ps, ¬p.Loose) (hlooseQ : ∀ q ∈ qs, ¬q.Loose)
    (hsepP : Separated b ps) (hsepQ : Separated b qs) :
    List.Forall₂ (fun p q => p.dotted = q.dotted ∧ p.item.ZeroAlike q.item) ps qs := by
  induction ps generalizing b qs with
  | nil =>
    obtain rfl := List.map_eq_nil_iff.mp h.symm
    exact .nil
  | cons p ps ih =>
    cases qs with
    | nil => cases h
    | cons q qs =>
      obtain ⟨hallowsP, hformedP, hrestP⟩ := hps
      obtain ⟨hallowsQ, hformedQ, hrestQ⟩ := hqs
      obtain ⟨hsegment, hsegments⟩ := List.cons.inj h
      have hsign : ∀ {p : Piece}, ¬p.Loose → ∀ text, p.item = .index text → '+' ∉ text := by
        intro p hloose text heq hplus
        apply hloose
        rw [Piece.Loose, heq]
        exact Or.inr hplus
      have hitems := item_alike hformedP hformedQ hsegment (hsign (hlooseP p List.mem_cons_self))
        (hsign (hlooseQ q List.mem_cons_self))
      have hkey : p.item.isKey = q.item.isKey := by
        revert hitems
        cases p.item <;> cases q.item <;> intro hitems
        · rfl
        · cases hitems
        · cases hitems
        · rfl
      have hbehind : behind p.item = behind q.item := by rw [behind, behind, hkey]
      refine .cons ⟨?_, hitems⟩ ?_
      · rw [dotted_eq hallowsP (hlooseP p List.mem_cons_self) hsepP.1,
          dotted_eq hallowsQ (hlooseQ q List.mem_cons_self) hsepQ.1, hkey]
      · have hsepQ' := hsepQ.2
        rw [← hbehind] at hrestQ hsepQ'
        exact ih hrestP hrestQ hsegments (fun p hp => hlooseP p (List.mem_cons_of_mem _ hp))
          (fun q hq => hlooseQ q (List.mem_cons_of_mem _ hq)) hsepP.2 hsepQ'

theorem spelled_strictly {s : String} {ps : List Piece} (h : Spells s ps)
    (hstrict : ¬LooselySpelled s) : (∀ p ∈ ps, ¬p.Loose) ∧ Separated .start ps := by
  constructor
  · exact fun p hp hloose => hstrict ⟨ps, h, Or.inl ⟨p, hp, hloose⟩⟩
  · by_contra hsep
    exact hstrict ⟨ps, h, Or.inr hsep⟩

end Aliases

def Accepted (s : String) : Prop := ∃ path, parse s = .ok path

/-- The parser accepts the grammar exactly on strings that are not loosely spelled; what it accepts
is read again from its canonical form, and among the others only leading zeros make aliases. -/
theorem parse_grammar_iff (s t : String) :
    ((Accepted s ↔ InGrammar s) ↔ ¬LooselySpelled s) ∧
    (∀ path, parse s = .ok path →
      (∀ segment ∈ path, Printable segment) ∧ parse (print path) = .ok path) ∧
    ∀ path, ¬LooselySpelled s → ¬LooselySpelled t → parse s = .ok path →
      parse t = .ok path → ZeroAlike s t := by
  refine ⟨⟨?_, ?_⟩, fun path h => parse_print h, ?_⟩
  · rintro hiff ⟨ps, hps, hloose⟩
    obtain ⟨qs, hqs, hstrict, hsep⟩ := hiff.mp ⟨_, parse_of_spells hps⟩
    rw [spells_unique hps hqs] at hloose
    rcases hloose with ⟨p, hp, hloose⟩ | hnot
    · exact hstrict p hp hloose
    · exact hnot hsep
  · intro hstrict
    constructor
    · rintro ⟨path, h⟩
      obtain ⟨ps, hps, rfl⟩ := spells_of_parse h
      exact ⟨ps, hps, spelled_strictly hps hstrict⟩
    · rintro ⟨ps, hps, -⟩
      exact ⟨_, parse_of_spells hps⟩
  · intro path hs ht hparseS hparseT
    obtain ⟨ps, hps, rfl⟩ := spells_of_parse hparseS
    obtain ⟨qs, hqs, hsame⟩ := spells_of_parse hparseT
    obtain ⟨hlooseP, hsepP⟩ := spelled_strictly hps hs
    obtain ⟨hlooseQ, hsepQ⟩ := spelled_strictly hqs ht
    exact ⟨ps, qs, hps, hqs,
      pieces_alike hps.readable hqs.readable hsame hlooseP hlooseQ hsepP hsepQ⟩

theorem indexed_spelled (text : List Char) (h : (parseUsize text).isSome = true) :
    Spells (String.ofList ('a' :: '[' :: (text ++ [']']))) [⟨false, .key ['a']⟩, ⟨false, .index text⟩] where
  chars := by
    rw [String.toList_ofList, spell_cons, spell_cons]
    simp [Piece.spelling, Item.spelling, spell]
  nonempty := List.cons_ne_nil _ _
  readable := ⟨rfl, ⟨List.cons_ne_nil _ _, by decide, by decide⟩, Or.inr rfl, h, trivial⟩

theorem indexed_strict {text : List Char} (h : (parseUsize text).isSome = true)
    (hsign : '+' ∉ text) : ¬LooselySpelled (String.ofList ('a' :: '[' :: (text ++ [']']))) := by
  rintro ⟨ps, hps, hloose⟩
  rw [spells_unique hps (indexed_spelled text h)] at hloose
  rcases hloose with ⟨p, hp, hloose⟩ | hsep
  · rcases List.mem_cons.mp hp with rfl | hp
    · exact absurd hloose (by decide : ']' ∉ ['a'])
    · obtain rfl := List.mem_singleton.mp hp
      exact hloose.elim Bool.false_ne_true hsign
  · exact hsep ⟨nofun, nofun, trivial⟩

/-- `a[1]` and `a[01]` are one path. -/
theorem parse_grammar_zero : ZeroAlike "a[1]" "a[01]" ∧
    parse (print [.key "a", .index 1]) = .ok [.key "a", .index 1] :=
  ⟨(parse_grammar_iff _ _).2.2 [.key "a", .index 1]
      (@indexed_strict ['1'] (by decide) (by decide))
      (@indexed_strict ['0', '1'] (by decide) (by decide)) (by decide) (by decide),
    ((parse_grammar_iff "a[01]" "a[1]").2.1 [.key "a", .index 1] (by decide)).2⟩

/-- A dot in front of a bracket is accepted, outside the grammar, as an alias. -/
theorem dotted_index_accepted : ¬(Accepted "a.[0]" ↔ InGrammar "a.[0]") ∧
    parse "a.[0]" = parse "a[0]" ∧ parse "a[+0]" = parse "a[0]" ∧
    parse "a[0]b" = parse "a[0].b" ∧ Accepted "a]b" := by
  refine ⟨fun hiff => ?_, by decide, by decide, by decide, ⟨[.key "a]b"], by decide⟩⟩
  have hzero : (parseUsize ['0']).isSome = true := by decide
  have hspells : Spells "a.[0]" [⟨false, .key ['a']⟩, ⟨true, .index ['0']⟩] :=
    ⟨by decide, List.cons_ne_nil _ _,
      ⟨rfl, ⟨List.cons_ne_nil _ _, by decide, by decide⟩, Or.inl rfl, hzero, trivial⟩⟩
  obtain ⟨ps, hps, hstrict, -⟩ := hiff.mp ⟨_, parse_of_spells hspells⟩
  rw [spells_unique hps hspells] at hstrict
  exact hstrict ⟨true, .index ['0']⟩ (List.mem_cons_of_mem _ List.mem_cons_self) (Or.inl rfl)

end PathGrammar
