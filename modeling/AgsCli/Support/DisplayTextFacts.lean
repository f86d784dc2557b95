import AgsCli.Dispatch.SeparatorDrift
import AgsCli.Support.DisplayText

/-! # Help texts: slices and losses

Which slices of the help texts can fail, and what breaking lines and collapsing spaces keep. -/
namespace DisplayText

open ByteSlices Casing Strings SeparatorDrift
open String (utf8Len)

/-- The characters that are no white space. -/
def solid (text : List Char) : List Char := text.filter fun c => !isWhiteSpace c

theorem solid_append (a b : List Char) : solid (a ++ b) = solid a ++ solid b :=
  List.filter_append ..

theorem bind_isSome {α β : Type} {o : Option α} {f : α → Option β} (h : o.isSome = true)
    (hf : ∀ a, (f a).isSome = true) : (o >>= f).isSome = true := by
  obtain ⟨a, rfl⟩ := Option.isSome_iff_exists.mp h
  exact hf a

section Slices

theorem utf8Len_concat (text : List Char) (c : Char) :
    utf8Len (text ++ [c]) = utf8Len text + c.utf8Size := by
  simp

theorem sliceFrom_eq (before : List Char) {text after : List Char} {start : Nat}
    (htext : text = before ++ after)
    (hstart : start = utf8Len before) : sliceFrom start text = some after := by
  rw [htext, hstart, sliceFrom, cut_append]
  rfl

theorem slice_eq (before : List Char) {text middle after : List Char} {start stop : Nat}
    (htext : text = before ++ (middle ++ after)) (hstart : start = utf8Len before)
    (hstop : stop = utf8Len before + utf8Len middle) : slice start stop text = some middle := by
  have hcut : cut stop text = some (before ++ middle, after) := by
    rw [htext, hstop, ← String.utf8Len_append, ← List.append_assoc]
    exact cut_append _ after
  rw [slice, if_pos (by omega), hcut]
  exact sliceFrom_eq before rfl hstart

/-- A slice that starts where a part of the text starts is the start of that part. -/
theorem slice_start {before after middle : List Char} {stop : Nat}
    (h : slice (utf8Len before) stop (before ++ after) = some middle) : middle <+: after := by
  unfold slice at h
  split_ifs at h with hle
  obtain ⟨⟨front, back⟩, hcut, hslice⟩ := Option.bind_eq_some_iff.mp h
  obtain ⟨⟨front', middle'⟩, hcut', rfl⟩ := Option.map_eq_some_iff.mp hslice
  obtain ⟨htext, -⟩ := cut_eq_some hcut
  obtain ⟨rfl, hlength⟩ := cut_eq_some hcut'
  rw [List.append_assoc] at htext
  have hsame := cut_append front' (middle' ++ back)
  rw [← htext, hlength, cut_append] at hsame
  cases hsame
  exact List.prefix_append _ _

theorem trimStart_suffix (text : List Char) : trimStart text <:+ text :=
  List.dropWhile_suffix _

end Slices

section Links

theorem linkAt_isSome (before after : List Char) :
    (linkAt (before ++ '[' :: after) (utf8Len before)).isSome = true := by
  have hopen : '['.utf8Size = 1 ∧ ']'.utf8Size = 1 ∧ '('.utf8Size = 1 := by decide
  have hlabel : sliceFrom (utf8Len before + 1) (before ++ '[' :: after) = some after :=
    sliceFrom_eq (before ++ ['[']) (by simp) (by simp [hopen.1])
  unfold linkAt
  simp only [Option.bind_eq_bind, hlabel, Option.bind_some]
  cases hclose : find [']'] after with
  | none => rfl
  | some length =>
    obtain ⟨label, rest, rfl, rfl⟩ := find_split hclose
    dsimp only
    have hbefore : utf8Len before + 1 + utf8Len label + 1 =
        utf8Len (before ++ '[' :: (label ++ [']'])) := by
      simp [hopen.1, hopen.2.1]
      omega
    have htext : before ++ '[' :: (label ++ ([']'] ++ rest)) =
        (before ++ '[' :: (label ++ [']'])) ++ rest := by simp
    split_ifs with htarget
    · rw [hbefore, htext] at htarget
      obtain ⟨target, rfl⟩ := slice_start htarget
      have hafter : utf8Len before + 1 + utf8Len label + 2 =
          utf8Len (before ++ '[' :: (label ++ [']', '('])) := by
        simp [hopen]
        omega
      have hrest : sliceFrom (utf8Len before + 1 + utf8Len label + 2)
          (before ++ '[' :: (label ++ ([']'] ++ (['('] ++ target)))) = some target :=
        sliceFrom_eq (before ++ '[' :: (label ++ [']', '('])) (by simp) hafter
      rw [hrest, Option.bind_some]
      cases hparen : find [')'] target with
      | none => rfl
      | some length =>
        obtain ⟨url, last, rfl, rfl⟩ := find_split hparen
        have hlink : slice (utf8Len before + 1) (utf8Len before + 1 + utf8Len label)
            (before ++ '[' :: (label ++ ([']'] ++ (['('] ++ (url ++ ([')'] ++ last)))))) =
            some label :=
          slice_eq (before ++ ['[']) (by simp; rfl) (by simp [hopen]) (by simp [hopen])
        have hurl : slice (utf8Len before + 1 + utf8Len label + 2)
            (utf8Len before + 1 + utf8Len label + 2 + utf8Len url)
            (before ++ '[' :: (label ++ ([']'] ++ (['('] ++ (url ++ ([')'] ++ last)))))) =
            some url :=
          slice_eq (before ++ '[' :: (label ++ [']', '('])) (by simp; rfl)
            hafter (by rw [hafter])
        simp only [hlink, hurl, Option.bind_some]
        rfl
    · rfl

theorem linksFrom_isSome (before after : List Char) (until_ : Nat) :
    (linksFrom (before ++ after) until_ (charIndices (utf8Len before) after)).isSome = true := by
  induction after generalizing before until_ with
  | nil => rfl
  | cons c after ih =>
    have hnext := (utf8Len_concat before c).symm
    have htext : before ++ c :: after = (before ++ [c]) ++ after := by simp
    have hrest : ∀ until_, (linksFrom (before ++ c :: after) until_
        (charIndices (utf8Len before + c.utf8Size) after)).isSome = true := by
      intro until_
      rw [htext, hnext]
      exact ih (before ++ [c]) until_
    rw [charIndices, linksFrom]
    split_ifs with hskip hopen
    · exact hrest until_
    · subst hopen
      obtain ⟨found, hfound⟩ := Option.isSome_iff_exists.mp (linkAt_isSome before after)
      rw [hfound]
      simp only [Option.bind_eq_bind, Option.bind_some]
      cases found with
      | none => exact bind_isSome (hrest until_) fun _ => rfl
      | some link => exact bind_isSome (hrest (link.2 + 1)) fun _ => rfl
    · exact bind_isSome (hrest until_) fun _ => rfl

theorem convertMarkdownLinks_isSome (text : List Char) :
    (convertMarkdownLinks text).isSome = true := linksFrom_isSome [] text 0

end Links

section Spaces

theorem solid_collapseInner (previousSpace : Bool) (text : List Char) :
    solid (collapseInnerSpaces previousSpace text) = solid text := by
  have hspace : isWhiteSpace ' ' = true := by decide
  induction text generalizing previousSpace with
  | nil => rfl
  | cons c rest ih =>
    unfold collapseInnerSpaces
    split_ifs with hc hprevious
    · rw [ih, hc, solid, solid, List.filter_cons_of_neg (by simp [hspace])]
    · rw [hc, solid, List.filter_cons_of_neg (by simp [hspace]), ← solid, ih, solid, solid,
        List.filter_cons_of_neg (by simp [hspace])]
    · have hrest := ih false
      unfold solid at hrest ⊢
      rw [List.filter_cons, List.filter_cons, hrest]

/-- The indentation is the part before the bullet. -/
theorem collapseSpaces_eq (line : List Char) : ∃ indent,
    line = indent ++ trimStart line ∧ collapseSpaces line =
      some (if bullet.isPrefixOf (trimStart line) then
        indent ++ collapseInnerSpaces false (trimStart line)
      else collapseInnerSpaces false line) := by
  obtain ⟨indent, hindent⟩ := trimStart_suffix line
  refine ⟨indent, hindent.symm, ?_⟩
  have hlength : utf8Len line = utf8Len indent + utf8Len (trimStart line) := by
    rw [← String.utf8Len_append, hindent]
  have hcut : cut (utf8Len line - utf8Len (trimStart line)) line =
      some (indent, trimStart line) := by
    rw [hlength, Nat.add_sub_cancel]
    conv_lhs => rw [← hindent]
    exact cut_append indent _
  unfold collapseSpaces
  dsimp only
  split_ifs with hbullet hshort
  · omega
  · rw [hcut]
    rfl
  · rfl

theorem solid_collapseSpaces {line out : List Char} (h : collapseSpaces line = some out) :
    solid out = solid line := by
  obtain ⟨indent, hline, heq⟩ := collapseSpaces_eq line
  rw [heq] at h
  cases h
  split_ifs
  · conv_rhs => rw [hline]
    rw [solid_append, solid_append, solid_collapseInner]
  · exact solid_collapseInner false line

end Spaces

section Lines

theorem solid_stripReturn (line : List Char) : solid (stripReturn line) = solid line := by
  unfold stripReturn
  split_ifs with hlast
  · conv_rhs => rw [← List.dropLast_append_getLast? _ hlast]
    rw [solid_append]
    exact (List.append_nil _).symm
  · rfl

theorem solid_joinWith (pieces : List (List Char)) :
    solid (joinWith ['\n'] pieces) = pieces.flatMap solid := by
  have hnewline : isWhiteSpace '\n' = true := by decide
  unfold joinWith
  induction pieces with
  | nil => rfl
  | cons piece rest ih =>
    cases rest with
    | nil => simp
    | cons next rest =>
      have hsep : solid ['\n'] = [] := List.filter_cons_of_neg (by simp [hnewline])
      rw [List.intercalate_cons_cons, solid_append, solid_append, ih, hsep, List.append_nil]
      rfl

theorem solid_lines (text : List Char) : (lines text).flatMap solid = solid text := by
  have hjoin := solid_joinWith (text.splitOn '\n')
  rw [joinWith, List.intercalate_splitOn] at hjoin
  unfold lines
  cases hpieces : (text.splitOn '\n').reverse with
  | nil =>
    rw [List.reverse_eq_nil_iff.mp hpieces] at hjoin
    exact hjoin.symm
  | cons last others =>
    rw [List.reverse_eq_cons_iff.mp hpieces, List.flatMap_append, List.flatMap_singleton] at hjoin
    have hstrip : ((others.map stripReturn).reverse).flatMap solid =
        others.reverse.flatMap solid := by
      rw [← List.map_reverse, List.flatMap_map]
      simp only [solid_stripReturn]
    rw [hjoin, List.flatMap_append, hstrip]
    split_ifs with hlast
    · rw [hlast]
      rfl
    · rw [List.flatMap_singleton]

end Lines

section Sentences

variable (table : CaseTable)

theorem startsSentence_split {index : Nat} {after : List Char}
    (h : startsSentence table (charIndices index after) = true) :
    ∃ c rest, after = ' ' :: c :: rest := by
  match after, h with
  | space :: c :: rest, h =>
    rw [charIndices, charIndices, startsSentence, Bool.and_eq_true, decide_eq_true_eq] at h
    exact ⟨c, rest, by rw [h.1]⟩

/-- A long line is cut within itself, and only spaces are dropped. -/
theorem sentencesFrom_spec (before after currentLine : List Char) (skipSpace : Bool)
    (hskip : skipSpace = true → ∃ rest, after = ' ' :: rest) :
    ∃ pieces, sentencesFrom table (before ++ after) skipSpace currentLine
        (charIndices (utf8Len before) after) = some pieces ∧
      pieces.flatMap solid = solid (currentLine ++ after) := by
  induction after generalizing before currentLine skipSpace with
  | nil =>
    rw [charIndices, sentencesFrom]
    split_ifs with hempty
    · exact ⟨[], rfl, by rw [hempty]; rfl⟩
    · exact ⟨[currentLine], rfl, by simp⟩
  | cons c after ih =>
    have hnext := (utf8Len_concat before c).symm
    have htext : before ++ c :: after = (before ++ [c]) ++ after := by simp
    have hgo := fun current skip => ih (before ++ [c]) current skip
    rw [charIndices, sentencesFrom, hnext, htext]
    by_cases hs : skipSpace = true
    · rw [if_pos hs]
      obtain ⟨pieces, hpieces, hsolid⟩ := hgo currentLine false (by simp)
      obtain ⟨rest, hrest⟩ := hskip hs
      obtain ⟨rfl, rfl⟩ := List.cons.inj hrest
      refine ⟨pieces, hpieces, ?_⟩
      have hspace : isWhiteSpace ' ' = true := by decide
      rw [hsolid, solid_append, solid_append, solid, solid, solid,
        List.filter_cons_of_neg (by simp [hspace])]
    · rw [if_neg hs]
      dsimp only
      obtain ⟨pieces, hpieces, hsolid⟩ := hgo (currentLine ++ [c]) false (by simp)
      rw [List.append_assoc, List.singleton_append] at hsolid
      split_ifs with hbreak
      · have hstarts :
            startsSentence table (charIndices (utf8Len (before ++ [c])) after) = true := by
          simp only [Bool.and_eq_true] at hbreak
          exact hbreak.1.2
        obtain ⟨d, rest, rfl⟩ := startsSentence_split table hstarts
        obtain ⟨pieces', hpieces', hsolid'⟩ := hgo [] true fun _ => ⟨d :: rest, rfl⟩
        have hslice : sliceFrom (utf8Len (before ++ [c]) + ' '.utf8Size)
            ((before ++ [c]) ++ ' ' :: d :: rest) = some (d :: rest) :=
          sliceFrom_eq ((before ++ [c]) ++ [' ']) (by simp) (utf8Len_concat _ _).symm
        simp only [charIndices, hslice, Option.bind_eq_bind, Option.bind_some] at hpieces hpieces' ⊢
        split_ifs
        · exact ⟨pieces, hpieces, hsolid⟩
        · refine ⟨(currentLine ++ [c]) :: pieces', by rw [hpieces']; rfl, ?_⟩
          rw [List.flatMap_cons, hsolid', ← solid_append, List.nil_append, List.append_assoc,
            List.singleton_append]
      · exact ⟨pieces, hpieces, hsolid⟩

end Sentences

section Texts

theorem mapM_isSome {α β : Type} {f : α → Option β} {l : List α} :
    (l.mapM f).isSome = true ↔ ∀ a ∈ l, (f a).isSome = true := by
  induction l with
  | nil => simp
  | cons a rest ih =>
    rw [List.mapM_cons, List.forall_mem_cons, ← ih]
    cases f a with
    | none => simp
    | some b => cases rest.mapM f <;> simp

theorem paragraphLines_isSome (proseBuffer lines : List (List Char)) :
    (paragraphLines proseBuffer lines).isSome = true := by
  induction lines generalizing proseBuffer with
  | nil => rfl
  | cons line rest ih =>
    obtain ⟨trimmed, htrimmed⟩ := Option.isSome_iff_exists.mp
      (convertMarkdownLinks_isSome (trimHeadingPrefix (trimEnd (trimStart line))))
    rw [paragraphLines, htrimmed]
    simp only [Option.bind_eq_bind, Option.bind_some]
    by_cases hbullet : bullet.isPrefixOf trimmed = true
    · rw [if_pos hbullet]
      exact bind_isSome (ih []) fun _ => rfl
    · rw [if_neg hbullet]
      exact ih _

/-- Before its last step no slice of a description fails. -/
theorem flatten_isSome (text : List Char) : (flatten text).isSome = true := by
  refine bind_isSome (mapM_isSome.mpr fun paragraph _ => ?_) fun paragraphs => ?_
  · exact bind_isSome (paragraphLines_isSome [] (lines paragraph)) fun _ => rfl
  · refine bind_isSome (mapM_isSome.mpr fun line _ => ?_) fun _ => rfl
    obtain ⟨indent, -, hline⟩ := collapseSpaces_eq line
    rw [hline]
    rfl

theorem truncateSummary_isSome (text : List Char) :
    (truncateSummary text 80).isSome = true ↔ utf8Len text ≤ 80 ∨ Boundary 77 text := by
  unfold truncateSummary
  by_cases hshort : utf8Len text ≤ 80
  · rw [if_pos hshort]
    exact ⟨fun _ => Or.inl hshort, fun _ => rfl⟩
  · rw [if_neg hshort, if_neg (by decide), Option.isSome_map]
    exact ⟨Or.inr, fun h => h.resolve_left hshort⟩

variable (table : CaseTable)

theorem actionCode_plain : ∃ rest, actionCode = 'a' :: rest ∧ Plain actionCode :=
  ⟨"ction code".toList, rfl, ascii_of_all rfl, by decide⟩

/-- The offset behind the lower case of the text before "action code" is a boundary. -/
def CodeAligned (text : List Char) : Prop :=
  ∀ before, textBefore actionCode text = some before →
    Boundary (utf8Len (toLowercase table before)) text

theorem stripActionCode_isSome (text : List Char) :
    (stripActionCode table text).isSome = true ↔ CodeAligned table text := by
  obtain ⟨rest, hcode, hplain⟩ := actionCode_plain
  have hfind : find actionCode (toLowercase table text) =
      (textBefore actionCode text).map fun front => utf8Len (toLowercase table front) := by
    rw [hcode] at hplain ⊢
    exact find_lowerFrom table hplain [] text
  unfold stripActionCode CodeAligned
  rw [hfind]
  cases textBefore actionCode text with
  | none => exact ⟨fun _ _ h => (nomatch h), fun _ => rfl⟩
  | some before =>
    simp only [Option.map_some, Option.isSome_map, Option.some.injEq]
    exact ⟨fun h _ heq => heq ▸ h, fun h => h before rfl⟩

theorem normalizeDescription_isSome (text : List Char) :
    (normalizeDescription table text).isSome = true ↔
      ∀ flat, flatten text = some flat → CodeAligned table flat := by
  obtain ⟨flat, hflat⟩ := Option.isSome_iff_exists.mp (flatten_isSome text)
  rw [normalizeDescription, hflat, Option.bind_eq_bind, Option.bind_some, stripActionCode_isSome]
  simp only [Option.some.injEq, forall_eq']

/-- Breaking lines between sentences takes no character but white space away, and cuts nothing. -/
theorem splitLongSentences_spec (text : List Char) :
    ∃ out, splitLongSentences table text = some out ∧ solid out = solid text := by
  have hline : ∀ line, ∃ pieces,
      (if bullet.isPrefixOf (trimStart line) || utf8Len line ≤ 120 then some [line]
        else sentencesFrom table line false [] (charIndices 0 line)) = some pieces ∧
      pieces.flatMap solid = solid line := by
    intro line
    split_ifs
    · exact ⟨[line], rfl, by simp⟩
    · exact sentencesFrom_spec table [] line [] false (by simp)
  have hlines : ∀ l : List (List Char), ∃ result, (l.mapM fun line =>
      if bullet.isPrefixOf (trimStart line) || utf8Len line ≤ 120 then some [line]
      else sentencesFrom table line false [] (charIndices 0 line)) = some result ∧
      result.flatten.flatMap solid = l.flatMap solid := by
    intro l
    induction l with
    | nil => exact ⟨[], rfl, rfl⟩
    | cons line rest ih =>
      obtain ⟨pieces, hpieces, hsolid⟩ := hline line
      obtain ⟨result, hresult, hrest⟩ := ih
      refine ⟨pieces :: result, ?_, ?_⟩
      · rw [List.mapM_cons, hpieces, hresult]
        rfl
      · rw [List.flatten_cons, List.flatMap_append, hsolid, hrest, List.flatMap_cons]
  obtain ⟨result, hresult, hsolid⟩ := hlines (lines text)
  refine ⟨joinWith ['\n'] result.flatten, ?_, ?_⟩
  · rw [splitLongSentences, hresult]
    rfl
  · rw [solid_joinWith, hsolid, solid_lines]

end Texts

end DisplayText
