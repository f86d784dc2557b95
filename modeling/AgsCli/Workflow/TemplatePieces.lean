import AgsCli.Workflow.Resolve

/-! # Template pieces

The tokens of a template, as both the compiler's placeholder scan over bytes and the renderer's
scan over characters read them. A template the scan accepts resolves exactly when its placeholders
have values. -/
namespace TemplatePieces

open OrderedMap Json ProtocolError WorkflowTypes Compile Resolve

inductive Piece
  | text (c : Char)
  | hole (name : String)
  deriving DecidableEq

/-- The pieces left to read in a mode; none when a placeholder is not closed. -/
def pieces : List Char → TemplateMode → Option (List Piece)
  | [], .opened | [], .name _ => none
  | [], .closed => some [.text '}']
  | [], .text => some []
  | c :: rest, .opened =>
    if c = '{' then (pieces rest .text).map (.text '{' :: ·)
    else if c = '}' then (pieces rest .text).map (.hole "" :: ·)
    else pieces rest (.name [c])
  | c :: rest, .name run =>
    if c = '}' then (pieces rest .text).map (.hole (String.ofList run) :: ·)
    else pieces rest (.name (run ++ [c]))
  | c :: rest, .closed =>
    if c = '}' then (pieces rest .text).map (.text '}' :: ·)
    else if c = '{' then (pieces rest .opened).map (.text '}' :: ·)
    else (pieces rest .text).map fun ps => .text '}' :: .text c :: ps
  | c :: rest, .text =>
    if c = '{' then pieces rest .opened
    else if c = '}' then pieces rest .closed
    else (pieces rest .text).map (.text c :: ·)

section Scan

def addNames (found : List String) : List Piece → List String
  | [] => found
  | .text _ :: ps => addNames found ps
  | .hole name :: ps => addNames (if found.contains name then found else found ++ [name]) ps

theorem mem_addNames {found : List String} {ps : List Piece} {name : String} :
    name ∈ addNames found ps ↔ name ∈ found ∨ .hole name ∈ ps := by
  induction ps generalizing found with
  | nil => simp [addNames]
  | cons p ps ih =>
    cases p with
    | text c => simp [addNames, ih]
    | hole other =>
      rw [addNames, ih]
      by_cases hfound : found.contains other = true
      · rw [if_pos hfound]
        have hmem : other ∈ found := List.contains_iff_mem.mp hfound
        constructor
        · rintro (h | h)
          · exact Or.inl h
          · exact Or.inr (List.mem_cons_of_mem _ h)
        · rintro (h | h)
          · exact Or.inl h
          · rcases List.mem_cons.mp h with heq | h
            · cases heq
              exact Or.inl hmem
            · exact Or.inr h
      · rw [if_neg hfound]
        simp [or_assoc]

theorem scanPlaceholders_pieces {template : String} {chars : List Char} {mode : TemplateMode}
    {found names : List String} (h : scanPlaceholders template chars mode found = .ok names) :
    ∃ ps, pieces chars mode = some ps ∧ names = addNames found ps := by
  induction chars generalizing mode found with
  | nil =>
    cases mode with
    | opened | name run => cases h
    | text =>
      cases h
      exact ⟨[], rfl, rfl⟩
    | closed =>
      cases h
      exact ⟨[.text '}'], rfl, rfl⟩
  | cons c rest ih =>
    cases mode with
    | opened =>
      simp only [scanPlaceholders] at h
      simp only [pieces]
      split_ifs at h ⊢ with hopen hclose
      · obtain ⟨ps, hps, hnames⟩ := ih h
        exact ⟨.text '{' :: ps, by rw [hps]; rfl, hnames⟩
      · exact ih h
    | name run =>
      simp only [scanPlaceholders] at h
      simp only [pieces]
      by_cases hclose : c = '}'
      · rw [if_pos hclose] at h ⊢
        obtain ⟨ps, hps, hnames⟩ := ih h
        exact ⟨.hole (String.ofList run) :: ps, by rw [hps]; rfl, hnames⟩
      · rw [if_neg hclose] at h ⊢
        exact ih h
    | closed =>
      simp only [scanPlaceholders, ne_eq, not_true_eq_false, decide_false, Bool.and_false,
        Bool.false_eq_true, if_false] at h
      simp only [pieces]
      by_cases hclose : c = '}'
      · have hopen : c ≠ '{' := by rintro rfl; cases hclose
        rw [if_neg hopen] at h
        obtain ⟨ps, hps, hnames⟩ := ih h
        exact ⟨.text '}' :: ps, by rw [if_pos hclose, hps]; rfl, hnames⟩
      · rw [if_neg hclose]
        split_ifs at h ⊢ with hopen
        · obtain ⟨ps, hps, hnames⟩ := ih h
          exact ⟨.text '}' :: ps, by rw [hps]; rfl, hnames⟩
        · obtain ⟨ps, hps, hnames⟩ := ih h
          exact ⟨.text '}' :: .text c :: ps, by rw [hps]; rfl, hnames⟩
    | text =>
      simp only [scanPlaceholders] at h
      simp only [pieces]
      by_cases hopen : c = '{'
      · rw [if_pos hopen] at h ⊢
        exact ih h
      · rw [if_neg hopen] at h ⊢
        by_cases hclose : c = '}'
        · simp only [hclose, decide_true, Bool.true_and, ne_eq, reduceCtorEq, not_false_eq_true,
            if_true] at h ⊢
          exact ih h
        · simp only [hclose, decide_false, Bool.false_and, Bool.false_eq_true, if_false] at h ⊢
          obtain ⟨ps, hps, hnames⟩ := ih h
          exact ⟨.text c :: ps, by rw [hps]; rfl, hnames⟩

end Scan

section Fill

variable (values : Values) (mode : QuoteMode)

def rendered (name : String) : Option (List Char) :=
  (values.get? name).map fun v => (quoted mode (jsonToParamString v)).toList

def fill : List Piece → Option (List Char)
  | [] => some []
  | .text c :: ps => (fill ps).map (c :: ·)
  | .hole name :: ps => (rendered values mode name).bind fun t => (fill ps).map (t ++ ·)

variable {values : Values} {mode : QuoteMode}

theorem scanTemplate_pieces (chars : List Char) (scan : TemplateMode) (out : List Char) :
    scanTemplate values mode chars scan out =
      (pieces chars scan).bind fun ps => (fill values mode ps).map (out ++ ·) := by
  have htext : ∀ (o : Option (List Piece)) (c : Char) (out : List Char),
      (o.map (Piece.text c :: ·)).bind (fun ps => (fill values mode ps).map (out ++ ·)) =
        o.bind fun ps => (fill values mode ps).map (out ++ [c] ++ ·) := by
    intro o c out
    cases o with
    | none => rfl
    | some ps => simp [fill, Function.comp_def]
  have hhole : ∀ (o : Option (List Piece)) (name : String) (out : List Char) (v : Value),
      values.get? name = some v →
      (o.map (Piece.hole name :: ·)).bind (fun ps => (fill values mode ps).map (out ++ ·)) =
        o.bind fun ps => (fill values mode ps).map
          (out ++ (quoted mode (jsonToParamString v)).toList ++ ·) := by
    intro o name out v hv
    cases o with
    | none => rfl
    | some ps => simp [fill, rendered, hv, Function.comp_def]
  have habsent : ∀ (o : Option (List Piece)) (name : String) (out : List Char),
      values.get? name = none →
      (o.map (Piece.hole name :: ·)).bind (fun ps => (fill values mode ps).map (out ++ ·)) =
        none := by
    intro o name out hv
    cases o with
    | none => rfl
    | some ps => simp [fill, rendered, hv]
  induction chars generalizing scan out with
  | nil =>
    cases scan with
    | opened | name run => rfl
    | text => simp [scanTemplate, pieces, fill]
    | closed => simp [scanTemplate, pieces, fill]
  | cons c rest ih =>
    cases scan with
    | opened =>
      simp only [scanTemplate, pieces]
      by_cases hopen : c = '{'
      · rw [if_pos hopen, if_pos hopen, htext, ih]
      · rw [if_neg hopen, if_neg hopen]
        by_cases hclose : c = '}'
        · rw [if_pos hclose, if_pos hclose]
          cases hv : values.get? "" with
          | none => exact (habsent _ _ _ hv).symm
          | some v => exact (ih _ _).trans (hhole _ _ _ _ hv).symm
        · rw [if_neg hclose, if_neg hclose, ih]
    | name run =>
      simp only [scanTemplate, pieces]
      by_cases hclose : c = '}'
      · rw [if_pos hclose, if_pos hclose]
        cases hv : values.get? (String.ofList run) with
        | none => exact (habsent _ _ _ hv).symm
        | some v => exact (ih _ _).trans (hhole _ _ _ _ hv).symm
      · rw [if_neg hclose, if_neg hclose, ih]
    | closed =>
      simp only [scanTemplate, pieces]
      by_cases hclose : c = '}'
      · rw [if_pos hclose, if_pos hclose, htext, ih]
      · rw [if_neg hclose, if_neg hclose]
        by_cases hopen : c = '{'
        · rw [if_pos hopen, if_pos hopen, htext, ih]
        · have htwo := htext ((pieces rest .text).map (.text c :: ·)) '}' out
          rw [Option.map_map] at htwo
          rw [if_neg hopen, if_neg hopen, ih]
          refine Eq.trans ?_ (htwo.trans (htext _ c _)).symm
          rw [List.append_assoc]
          rfl
    | text =>
      simp only [scanTemplate, pieces]
      by_cases hopen : c = '{'
      · rw [if_pos hopen, if_pos hopen, ih]
      · rw [if_neg hopen, if_neg hopen]
        by_cases hclose : c = '}'
        · rw [if_pos hclose, if_pos hclose, ih]
        · rw [if_neg hclose, if_neg hclose, htext, ih]

theorem interpolateTemplate_eq (template : String) :
    interpolateTemplate template values mode =
      ((pieces template.toList .text).bind (fill values mode)).map String.ofList := by
  rw [interpolateTemplate, scanTemplate_pieces]
  simp

theorem fill_isSome_iff (ps : List Piece) :
    (fill values mode ps).isSome = true ↔ ∀ name, .hole name ∈ ps → values.contains name = true := by
  induction ps with
  | nil => simp [fill]
  | cons p ps ih =>
    cases p with
    | text c => simpa [fill] using ih
    | hole name =>
      have hcontains : values.contains name = (values.get? name).isSome := by
        rw [Bool.eq_iff_iff, BTreeMap.contains_eq_true, Option.isSome_iff_exists]
      constructor
      · intro h other hmem
        cases hv : values.get? name with
        | none => simp [fill, rendered, hv] at h
        | some v =>
          have hrest : (fill values mode ps).isSome = true := by
            simpa [fill, rendered, hv] using h
          rcases List.mem_cons.mp hmem with heq | hmem
          · cases heq
            rw [hcontains, hv]
            rfl
          · exact ih.mp hrest other hmem
      · intro h
        have hname := h name List.mem_cons_self
        rw [hcontains, Option.isSome_iff_exists] at hname
        obtain ⟨v, hv⟩ := hname
        have hrest := ih.mpr fun other hmem => h other (List.mem_cons_of_mem _ hmem)
        simpa [fill, rendered, hv] using hrest

/-- Only the entries of the holes matter. -/
theorem fill_congr {values' : Values} {ps : List Piece}
    (h : ∀ name, .hole name ∈ ps → values.get? name = values'.get? name) :
    fill values mode ps = fill values' mode ps := by
  induction ps with
  | nil => rfl
  | cons p ps ih =>
    have hrest := ih fun name hmem => h name (List.mem_cons_of_mem _ hmem)
    cases p with
    | text c => rw [fill, fill, hrest]
    | hole name => rw [fill, fill, rendered, rendered, hrest, h name List.mem_cons_self]

end Fill

section Bytes

def utf8 (chars : List Char) : List UInt8 := chars.flatMap String.utf8EncodeChar

def openBrace : UInt8 := 0x7b

def closeBrace : UInt8 := 0x7d

def unclosed (template : String) : RuntimeError :=
  .internal s!"Format template '{template}' has an unclosed `\x7b`"

def emptyName (template : String) : RuntimeError :=
  .internal s!"Format template '{template}' has an empty `\x7b\x7d` placeholder"

/-- The loop of `format_placeholders` over the bytes that are left; a slice is its bytes. -/
def scanBytes (template : String) (out : List (List UInt8)) :
    List UInt8 → Except RuntimeError (List (List UInt8))
  | [] => .ok out
  | b :: rest =>
    if b = openBrace ∧ rest.head? = some openBrace then scanBytes template out rest.tail
    else if b = closeBrace ∧ rest.head? = some closeBrace then scanBytes template out rest.tail
    else if b = openBrace then
      let name := rest.takeWhile (· ≠ closeBrace)
      if name.length = rest.length then .error (unclosed template)
      else if name = [] then .error (emptyName template)
      else scanBytes template (if out.contains name then out else out ++ [name])
        (rest.drop (name.length + 1))
    else scanBytes template out rest
termination_by bytes => bytes.length
decreasing_by all_goals simp only [List.length_cons, List.length_tail, List.length_drop]; omega

theorem utf8_cons (c : Char) (rest : List Char) :
    utf8 (c :: rest) = String.utf8EncodeChar c ++ utf8 rest := List.flatMap_cons

theorem utf8_injective : Function.Injective utf8 := by
  intro a b h
  have hencode : a.utf8Encode = b.utf8Encode := congrArg List.toByteArray h
  rw [← String.toByteArray_ofList, ← String.toByteArray_ofList, String.toByteArray_inj] at hencode
  have hlist := congrArg String.toList hencode
  rwa [String.toList_ofList, String.toList_ofList] at hlist

theorem toNat_byte {n : Nat} (h : n < 256) : (UInt8.ofNat n).toNat = n := by
  rw [UInt8.toNat_ofNat']
  exact Nat.mod_eq_of_lt h

theorem high_not_brace {n : Nat} (hlow : 0x80 ≤ n) (hbound : n < 256) :
    UInt8.ofNat n ≠ openBrace ∧ UInt8.ofNat n ≠ closeBrace := by
  have hbrace : ∀ b : UInt8, b.toNat < 0x80 → UInt8.ofNat n ≠ b := by
    intro b hb heq
    have hnat := congrArg UInt8.toNat heq
    rw [toNat_byte hbound] at hnat
    omega
  exact ⟨hbrace openBrace (by decide), hbrace closeBrace (by decide)⟩

theorem byte_inj {c d : Char} (hc : c.val.toNat < 256) (hd : d.val.toNat < 256)
    (h : UInt8.ofNat c.val.toNat = UInt8.ofNat d.val.toNat) : c = d := by
  have hvals := congrArg UInt8.toNat h
  rw [toNat_byte hc, toNat_byte hd] at hvals
  exact Char.ext (UInt32.toNat_inj.mp hvals)

theorem bytes_not_brace {c : Char} (hopen : c ≠ '{') (hclose : c ≠ '}') :
    ∀ b ∈ String.utf8EncodeChar c, b ≠ openBrace ∧ b ≠ closeBrace := by
  intro b hb
  simp only [String.utf8EncodeChar] at hb
  split_ifs at hb with h1 h2 h3
  · obtain rfl := List.mem_singleton.mp hb
    have hc : c.val.toNat < 256 := by omega
    exact ⟨fun heq => hopen (byte_inj hc (by decide) heq),
      fun heq => hclose (byte_inj hc (by decide) heq)⟩
  all_goals
    simp only [List.mem_cons, List.not_mem_nil, or_false] at hb
    rcases hb with rfl | rfl | hb
  all_goals first
    | exact high_not_brace (by omega) (by omega)
    | (rcases hb with rfl | rfl; all_goals exact high_not_brace (by omega) (by omega))

theorem encodeChar_ne_nil (c : Char) : String.utf8EncodeChar c ≠ [] := by
  simp only [String.utf8EncodeChar]
  split_ifs <;> exact List.cons_ne_nil _ _

theorem utf8_eq_nil {chars : List Char} (h : utf8 chars = []) : chars = [] :=
  utf8_injective h

theorem scanBytes_skip {template : String} {out : List (List UInt8)} {bytes : List UInt8}
    (h : ∀ b ∈ bytes, b ≠ openBrace ∧ b ≠ closeBrace) (rest : List UInt8) :
    scanBytes template out (bytes ++ rest) = scanBytes template out rest := by
  induction bytes with
  | nil => rfl
  | cons b bytes ih =>
    obtain ⟨hopen, hclose⟩ := h b List.mem_cons_self
    rw [List.cons_append, scanBytes]
    simp only [hopen, hclose, false_and, if_false]
    exact ih fun b hb => h b (List.mem_cons_of_mem _ hb)

/-- The head byte tells whether a brace comes next. -/
theorem head_utf8 (chars : List Char) : ((utf8 chars).head? = some openBrace ↔
    chars.head? = some '{') ∧ ((utf8 chars).head? = some closeBrace ↔ chars.head? = some '}') := by
  cases chars with
  | nil => exact ⟨by simp [utf8], by simp [utf8]⟩
  | cons c rest =>
    by_cases hopen : c = '{'
    · subst hopen
      exact ⟨⟨fun _ => rfl, fun _ => rfl⟩,
        ⟨fun h => absurd (Option.some.inj h) (by decide), fun h => by cases h⟩⟩
    · by_cases hclose : c = '}'
      · subst hclose
        exact ⟨⟨fun h => absurd (Option.some.inj h) (by decide), fun h => by cases h⟩,
          ⟨fun _ => rfl, fun _ => rfl⟩⟩
      · obtain ⟨b, bytes, hbytes⟩ := List.exists_cons_of_ne_nil (encodeChar_ne_nil c)
        have hb := bytes_not_brace hopen hclose b (hbytes ▸ List.mem_cons_self)
        rw [utf8_cons, hbytes]
        simp [hb.1, hb.2, hopen, hclose]

/-- The bytes of a name, up to the closing brace. -/
theorem takeWhile_utf8 (chars : List Char) :
    (utf8 chars).takeWhile (· ≠ closeBrace) = utf8 (chars.takeWhile (· ≠ '}')) := by
  induction chars with
  | nil => rfl
  | cons c rest ih =>
    by_cases hclose : c = '}'
    · subst hclose
      rfl
    · have hbytes : ∀ b ∈ String.utf8EncodeChar c, decide (b ≠ closeBrace) = true := by
        intro b hb
        by_cases hopen : c = '{'
        · subst hopen
          obtain rfl := List.mem_singleton.mp hb
          decide
        · exact decide_eq_true (bytes_not_brace hopen hclose b hb).2
      rw [utf8_cons, List.takeWhile_append_of_pos hbytes, ih, List.takeWhile_cons,
        if_pos (decide_eq_true hclose), utf8_cons]

variable {template : String} {found : List String}

theorem scanPlaceholders_name (chars run : List Char) :
    scanPlaceholders template chars (.name run) found =
      if (chars.takeWhile (· ≠ '}')).length = chars.length then .error (unclosed template)
      else scanPlaceholders template (chars.drop ((chars.takeWhile (· ≠ '}')).length + 1)) .text
        (addNames found [.hole (String.ofList (run ++ chars.takeWhile (· ≠ '}')))]) := by
  induction chars generalizing run with
  | nil => rfl
  | cons c rest ih =>
    by_cases hclose : c = '}'
    · subst hclose
      simp [scanPlaceholders, addNames]
    · rw [scanPlaceholders, if_neg hclose, ih, List.takeWhile_cons, if_pos (decide_eq_true hclose)]
      simp only [List.length_cons, Nat.add_right_cancel_iff, List.append_assoc,
        List.singleton_append, List.drop_succ_cons]

theorem scanPlaceholders_opened {chars : List Char} (h : chars.head? ≠ some '{') :
    scanPlaceholders template chars .opened found =
      if (chars.takeWhile (· ≠ '}')).length = chars.length then .error (unclosed template)
      else if chars.takeWhile (· ≠ '}') = [] then .error (emptyName template)
      else scanPlaceholders template (chars.drop ((chars.takeWhile (· ≠ '}')).length + 1)) .text
        (addNames found [.hole (String.ofList (chars.takeWhile (· ≠ '}')))]) := by
  cases chars with
  | nil => rfl
  | cons c rest =>
    have hopen : c ≠ '{' := fun heq => h (congrArg some heq)
    by_cases hclose : c = '}'
    · subst hclose
      simp [scanPlaceholders, emptyName]
    · rw [scanPlaceholders, if_neg hopen, if_neg hclose, scanPlaceholders_name,
        List.takeWhile_cons, if_pos (decide_eq_true hclose)]
      simp only [List.length_cons, Nat.add_right_cancel_iff, List.singleton_append,
        List.drop_succ_cons, List.cons_ne_nil, if_false]

theorem scanPlaceholders_closed {chars : List Char} (h : chars.head? ≠ some '}') :
    scanPlaceholders template chars .closed found = scanPlaceholders template chars .text found := by
  cases chars with
  | nil => rfl
  | cons c rest =>
    have hclose : c ≠ '}' := fun heq => h (congrArg some heq)
    simp [scanPlaceholders, hclose]

def nameBytes (names : List String) : List (List UInt8) := names.map fun n => utf8 n.toList

theorem nameBytes_addNames (name : List Char) :
    nameBytes (addNames found [.hole (String.ofList name)]) =
      if (nameBytes found).contains (utf8 name) then nameBytes found
      else nameBytes found ++ [utf8 name] := by
  have hcontains : (nameBytes found).contains (utf8 name) = found.contains (String.ofList name) := by
    rw [Bool.eq_iff_iff, List.contains_iff_mem, List.contains_iff_mem]
    constructor
    · intro h
      obtain ⟨n, hn, heq⟩ := List.mem_map.mp h
      rw [← utf8_injective heq, String.ofList_toList]
      exact hn
    · intro h
      exact List.mem_map.mpr ⟨_, h, congrArg utf8 String.toList_ofList⟩
  rw [addNames, addNames, hcontains]
  split_ifs
  · rfl
  · rw [nameBytes, List.map_append, List.map_singleton, String.toList_ofList]
    rfl

/-- The bytes after a placeholder are those of the characters after it. -/
theorem drop_utf8 {chars : List Char}
    (h : (chars.takeWhile (· ≠ '}')).length ≠ chars.length) :
    (utf8 (chars.takeWhile (· ≠ '}'))).length ≠ (utf8 chars).length ∧
      (utf8 chars).drop ((utf8 (chars.takeWhile (· ≠ '}'))).length + 1) =
        utf8 (chars.drop ((chars.takeWhile (· ≠ '}')).length + 1)) := by
  have hsplit := List.takeWhile_append_dropWhile (p := (· ≠ '}')) (l := chars)
  generalize chars.takeWhile (· ≠ '}') = name at h hsplit ⊢
  cases hdrop : chars.dropWhile (· ≠ '}') with
  | nil =>
    rw [hdrop, List.append_nil] at hsplit
    exact absurd (congrArg List.length hsplit) h
  | cons d after =>
    have hd : d = '}' := by
      have hhead := List.head?_dropWhile_not (· ≠ '}') chars
      rw [hdrop] at hhead
      simpa using hhead
    rw [hdrop, hd] at hsplit
    subst hsplit
    have hbytes : utf8 (name ++ '}' :: after) = utf8 name ++ closeBrace :: utf8 after := by
      rw [utf8, List.flatMap_append, List.flatMap_cons]
      rfl
    rw [hbytes]
    constructor
    · rw [List.length_append, List.length_cons]
      omega
    · rw [List.drop_length_add_append, List.drop_length_add_append]
      rfl

theorem scanBytes_utf8 (chars : List Char) : scanBytes template (nameBytes found) (utf8 chars) =
    (scanPlaceholders template chars .text found).map nameBytes := by
  induction hn : chars.length using Nat.strong_induction_on generalizing chars found with
  | _ n ih =>
    cases chars with
    | nil => rw [utf8, List.flatMap_nil, scanBytes]; rfl
    | cons c rest =>
      rw [List.length_cons] at hn
      obtain ⟨hheadOpen, hheadClose⟩ := head_utf8 rest
      by_cases hopen : c = '{'
      · subst hopen
        have hbytes : utf8 ('{' :: rest) = openBrace :: utf8 rest := rfl
        have hfirst : scanPlaceholders template ('{' :: rest) .text found =
            scanPlaceholders template rest .opened found := rfl
        rw [hbytes, scanBytes, hfirst]
        by_cases hnext : rest.head? = some '{'
        · obtain ⟨after, rfl⟩ : ∃ after, rest = '{' :: after := List.head?_eq_some_iff.mp hnext
          have hafter : (utf8 ('{' :: after)).tail = utf8 after := rfl
          rw [if_pos ⟨rfl, hheadOpen.mpr rfl⟩, hafter, scanPlaceholders, if_pos rfl]
          exact ih after.length (by rw [List.length_cons] at hn; omega) after rfl
        · have hnot : ¬(utf8 rest).head? = some openBrace := fun h => hnext (hheadOpen.mp h)
          have hne : openBrace ≠ closeBrace := by decide
          rw [scanPlaceholders_opened hnext, takeWhile_utf8]
          simp only [hnot, hne, and_false, false_and, if_false, if_true]
          by_cases hlength : (rest.takeWhile (· ≠ '}')).length = rest.length
          · have hall : rest.takeWhile (· ≠ '}') = rest :=
              (List.takeWhile_prefix _).eq_of_length hlength
            rw [hall, if_pos rfl, if_pos rfl]
            rfl
          · obtain ⟨hbytesLength, hdrop⟩ := drop_utf8 hlength
            rw [if_neg hbytesLength, if_neg hlength, hdrop]
            by_cases hempty : rest.takeWhile (· ≠ '}') = []
            · have hnone : utf8 [] = [] := rfl
              rw [if_pos hempty, hempty, if_pos hnone]
              rfl
            · rw [if_neg hempty, if_neg fun h => hempty (utf8_eq_nil h), ← nameBytes_addNames]
              refine ih _ ?_ _ rfl
              rw [List.length_drop]
              omega
      · by_cases hclose : c = '}'
        · subst hclose
          have hbytes : utf8 ('}' :: rest) = closeBrace :: utf8 rest := rfl
          have hne : closeBrace ≠ openBrace := by decide
          have hfirst : scanPlaceholders template ('}' :: rest) .text found =
              scanPlaceholders template rest .closed found := rfl
          rw [hbytes, scanBytes, hfirst]
          simp only [hne, false_and, if_false]
          by_cases hnext : rest.head? = some '}'
          · obtain ⟨after, rfl⟩ : ∃ after, rest = '}' :: after := List.head?_eq_some_iff.mp hnext
            have hafter : (utf8 ('}' :: after)).tail = utf8 after := rfl
            have hsecond : scanPlaceholders template ('}' :: after) .closed found =
                scanPlaceholders template after .text found := rfl
            rw [if_pos ⟨trivial, hheadClose.mpr rfl⟩, hafter, hsecond]
            exact ih after.length (by rw [List.length_cons] at hn; omega) after rfl
          · rw [if_neg fun h => hnext (hheadClose.mp h.2), scanPlaceholders_closed hnext]
            exact ih rest.length (by omega) rest rfl
        · have hfirst : scanPlaceholders template (c :: rest) .text found =
              scanPlaceholders template rest .text found := by
            simp [scanPlaceholders, hopen, hclose]
          rw [utf8_cons, scanBytes_skip (bytes_not_brace hopen hclose), hfirst]
          exact ih rest.length (by omega) rest rfl

/-- `format_placeholders` is the scan over the template's bytes. -/
theorem formatPlaceholders_bytes (template : String) :
    scanBytes template [] (utf8 template.toList) = (formatPlaceholders template).map nameBytes := by
  have hscan : scanBytes template (nameBytes []) (utf8 template.toList) =
      (scanPlaceholders template template.toList .text []).map nameBytes :=
    scanBytes_utf8 template.toList
  exact hscan

end Bytes

section Doubled

def doubled (s : String) : String :=
  String.ofList (s.toList.flatMap fun c => if c = '{' ∨ c = '}' then [c, c] else [c])

theorem pieces_doubled (chars : List Char) :
    pieces (chars.flatMap fun c => if c = '{' ∨ c = '}' then [c, c] else [c]) .text =
      some (chars.map .text) := by
  induction chars with
  | nil => rfl
  | cons c rest ih =>
    rw [List.flatMap_cons]
    by_cases hopen : c = '{'
    · subst hopen
      simp [pieces, ih]
    · by_cases hclose : c = '}'
      · subst hclose
        simp [pieces, ih]
      · simp [pieces, hopen, hclose, ih]

theorem fill_text {values : Values} {mode : QuoteMode} (chars : List Char) :
    fill values mode (chars.map .text) = some chars := by
  induction chars with
  | nil => rfl
  | cons c rest ih => rw [List.map_cons, fill, ih]; rfl

end Doubled

/-- The names a template's placeholders have are what its rendering needs and all it reads. -/
theorem placeholders_interpolation :
    (∀ template names values mode, formatPlaceholders template = .ok names →
      ((interpolateTemplate template values mode).isSome = true ↔
        ∀ name ∈ names, values.contains name = true) ∧
      ∀ values' : Values, (∀ name ∈ names, values.get? name = values'.get? name) →
        interpolateTemplate template values mode = interpolateTemplate template values' mode) ∧
    (∀ s values mode, interpolateTemplate (doubled s) values mode = some s) ∧
    ∀ (f : FormatBinding) names supplied, formatPlaceholders f.template = .ok names →
      (∀ name ∈ names, supplied.contains name = true) → resolveFormat supplied f ≠ none := by
  have hneeds : ∀ template names (values : Values) mode,
      formatPlaceholders template = .ok names →
      ((interpolateTemplate template values mode).isSome = true ↔
        ∀ name ∈ names, values.contains name = true) := by
    intro template names values mode hnames
    obtain ⟨ps, hps, rfl⟩ := scanPlaceholders_pieces hnames
    rw [interpolateTemplate_eq, hps, Option.isSome_map, Option.bind_some, fill_isSome_iff]
    simp only [mem_addNames, List.not_mem_nil, false_or]
  refine ⟨fun template names values mode hnames => ⟨hneeds template names values mode hnames, ?_⟩,
    ?_, ?_⟩
  · intro values' hsame
    obtain ⟨ps, hps, rfl⟩ := scanPlaceholders_pieces hnames
    have hfill : fill values mode ps = fill values' mode ps :=
      fill_congr fun name hmem => hsame name (mem_addNames.mpr (Or.inr hmem))
    rw [interpolateTemplate_eq, interpolateTemplate_eq, hps, Option.bind_some, Option.bind_some,
      hfill]
  · intro s values mode
    rw [interpolateTemplate_eq, doubled, String.toList_ofList, pieces_doubled, Option.bind_some,
      fill_text, Option.map_some, String.ofList_toList]
  · intro f names supplied hnames hpresent hnone
    have hsome := (hneeds f.template names supplied .plain hnames).mpr hpresent
    rw [resolveFormat, Option.map_eq_none_iff] at hnone
    rw [hnone] at hsome
    cases hsome

/-- A placeholder between escaped braces, with a value. -/
theorem placeholders_interpolation_escaped :
    (interpolateTemplate "\x7b\x7b\x7bid\x7d\x7d\x7d" (.ofList [("id", .string "a")])
        .plain).isSome = true ∧
      resolveFormat (.ofList [("id", .string "a")]) ⟨"\x7b\x7b\x7bid\x7d\x7d\x7d"⟩ ≠ none :=
  ⟨(placeholders_interpolation.1 "\x7b\x7b\x7bid\x7d\x7d\x7d" ["id"]
      (.ofList [("id", .string "a")]) .plain (by decide)).1.mpr (by decide),
    placeholders_interpolation.2.2 ⟨"\x7b\x7b\x7bid\x7d\x7d\x7d"⟩ ["id"]
      (.ofList [("id", .string "a")]) (by decide) (by decide)⟩

example : interpolateTemplate "\x7b\x7b\x7bid\x7d\x7d\x7d" (.ofList [("id", .string "a")]) .plain =
    some "\x7ba\x7d" := by decide

end TemplatePieces
