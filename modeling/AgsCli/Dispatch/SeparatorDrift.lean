import AgsCli.Dispatch.Classify

/-! # Separator offsets

The separator of a validation message is found in a lower-cased copy and cut out of the message
itself. The cut lies where lower casing leaves the text before the separator. -/
namespace SeparatorDrift

open ByteSlices Casing Classify Json Strings
open String (utf8Len)

/-- Whether a text starts with a separator in any ASCII case. -/
def startsWith (separator cs : List Char) : Bool :=
  separator == (cs.take separator.length).map Char.toLower

def textBefore (separator : List Char) : List Char → Option (List Char)
  | [] => none
  | c :: rest =>
    if startsWith separator (c :: rest) then some []
    else (textBefore separator rest).map (c :: ·)

def splitPoint (message : List Char) : Option (List Char × List Char) :=
  separators.findSome? fun separator => (textBefore separator message).map (·, separator)

/-- The offsets behind the lower case of the text before the separator are boundaries of the
message. -/
def Aligned (table : CaseTable) (message : List Char) : Prop :=
  ∀ before separator, splitPoint message = some (before, separator) →
    Boundary (utf8Len (toLowercase table before)) message ∧
      Boundary (utf8Len (toLowercase table before) + separator.length) message

variable (table : CaseTable)

section Lowering

/-- Outside ASCII nothing lowers to a character of a separator but the `i` of a dotted one. -/
theorem lowerAt_other {c : Char} (h : 128 ≤ c.toNat) (before rest : List Char) :
    lowerAt table before c rest = ['i', '\u0307'] ∨
      lowerAt table before c rest ≠ [] ∧
        ∀ d ∈ lowerAt table before c rest, d = 'k' ∨ 128 ≤ d.toNat := by
  unfold lowerAt
  split_ifs with hsigma hfinal
  · refine Or.inr ⟨List.cons_ne_nil _ _, fun d hd => Or.inr ?_⟩
    rw [List.mem_singleton.mp hd]
    decide
  · refine Or.inr ⟨List.cons_ne_nil _ _, fun d hd => Or.inr ?_⟩
    rw [List.mem_singleton.mp hd]
    decide
  · by_cases hdotted : c = '\u0130'
    · subst hdotted
      exact Or.inl table.lower_dotted
    · refine Or.inr ⟨table.lower_ne_nil c, fun d hd => ?_⟩
      by_cases hkelvin : c = '\u212A'
      · rw [hkelvin, table.lower_kelvin] at hd
        exact Or.inl (List.mem_singleton.mp hd)
      · exact Or.inr (table.lower_other c h hdotted hkelvin d hd)

theorem utf8Len_lowerAt (before rest : List Char) (c : Char) :
    utf8Len (lowerAt table before c rest) = utf8Len (table.lower c) := by
  unfold lowerAt
  split_ifs with hsigma hfinal
  · rw [hsigma, table.lower_sigma]
    rfl
  · rw [hsigma, table.lower_sigma]
  · rfl

/-- What is around a text does not change the length of its lower case. -/
theorem utf8Len_lowerFrom (before cs : List Char) :
    utf8Len (lowerFrom table before cs) = utf8Len (cs.flatMap table.lower) := by
  induction cs generalizing before with
  | nil => rfl
  | cons c rest ih =>
    rw [lowerFrom, List.flatMap_cons, String.utf8Len_append, String.utf8Len_append,
      utf8Len_lowerAt, ih]

end Lowering

section Search

/-- The texts that lower casing makes of no others than their own cases. -/
structure Plain (separator : List Char) : Prop where
  ascii : ∀ c ∈ separator, c.toNat < 128 ∧ c ≠ 'k'
  last : separator.getLast? ≠ some 'i'

theorem Plain.tail {c : Char} {rest : List Char} (h : Plain (c :: rest)) : Plain rest := by
  refine ⟨fun d hd => h.ascii d (List.mem_cons_of_mem _ hd), ?_⟩
  intro hlast
  refine h.last ?_
  cases rest with
  | nil => cases hlast
  | cons d rest => rwa [List.getLast?_cons_cons]

/-- The copy starts with a separator exactly where the message does. -/
theorem isPrefixOf_lowerFrom {separator : List Char} (h : Plain separator)
    (before cs : List Char) :
    separator.isPrefixOf (lowerFrom table before cs) = startsWith separator cs := by
  induction separator generalizing before cs with
  | nil => rfl
  | cons s separator ih =>
    obtain ⟨hs, hkelvin⟩ := h.ascii s List.mem_cons_self
    cases cs with
    | nil => rfl
    | cons c rest =>
      have hstarts : startsWith (s :: separator) (c :: rest) =
          ((s == c.toLower) && startsWith separator rest) := rfl
      rw [hstarts, lowerFrom]
      by_cases hc : c.toNat < 128
      · rw [lowerAt_ascii table hc, List.singleton_append, List.isPrefixOf, ih h.tail]
      · have hne : s ≠ c.toLower := by
          rw [toLower_of_not_ascii (not_lt.mp hc)]
          rintro rfl
          exact hc hs
        rw [beq_false_of_ne hne, Bool.false_and]
        rcases lowerAt_other table (not_lt.mp hc) before rest with hdotted | ⟨hnil, hforeign⟩
        · rw [hdotted, List.cons_append, List.isPrefixOf]
          cases separator with
          | nil =>
            have hi : s ≠ 'i' := fun heq => h.last (congrArg some heq)
            rw [beq_false_of_ne hi, Bool.false_and]
          | cons t separator =>
            have ht : t ≠ '\u0307' := by
              rintro rfl
              have hmark := (h.ascii '\u0307' (List.mem_cons_of_mem _ List.mem_cons_self)).1
              revert hmark
              decide
            rw [List.cons_append, List.isPrefixOf, beq_false_of_ne ht, Bool.false_and,
              Bool.and_false]
        · obtain ⟨p, piece, hpiece⟩ := List.exists_cons_of_ne_nil hnil
          rw [hpiece] at hforeign ⊢
          have hp : s ≠ p := by
            rintro rfl
            rcases hforeign s List.mem_cons_self with hk | hwide
            · exact hkelvin hk
            · omega
          rw [List.cons_append, List.isPrefixOf, beq_false_of_ne hp, Bool.false_and]

theorem tail_lowerAt {first : Char} (hfirst : first.toNat < 128 ∧ first ≠ 'k')
    (before rest : List Char) (c : Char) :
    ∃ p piece, lowerAt table before c rest = p :: piece ∧ first ∉ piece := by
  by_cases hc : c.toNat < 128
  · exact ⟨c.toLower, [], lowerAt_ascii table hc before rest, List.not_mem_nil⟩
  · rcases lowerAt_other table (not_lt.mp hc) before rest with hdotted | ⟨hnil, hforeign⟩
    · refine ⟨'i', ['\u0307'], hdotted, fun hmem => ?_⟩
      obtain rfl := List.mem_singleton.mp hmem
      exact absurd hfirst.1 (by decide)
    · obtain ⟨p, piece, hpiece⟩ := List.exists_cons_of_ne_nil hnil
      refine ⟨p, piece, hpiece, fun hmem => ?_⟩
      rcases hforeign first (hpiece ▸ List.mem_cons_of_mem _ hmem) with hk | hwide
      · exact hfirst.2 hk
      · exact absurd hfirst.1 (not_lt.mpr hwide)

/-- The offset found in the copy is the length of the lower case of the text before. -/
theorem find_lowerFrom {first : Char} {separator : List Char} (h : Plain (first :: separator))
    (before cs : List Char) : find (first :: separator) (lowerFrom table before cs) =
      (textBefore (first :: separator) cs).map fun front => utf8Len (toLowercase table front) := by
  induction cs generalizing before with
  | nil => rfl
  | cons c rest ih =>
    have hhead := isPrefixOf_lowerFrom table h before (c :: rest)
    obtain ⟨p, piece, hpiece, habsent⟩ :=
      tail_lowerAt table (h.ascii first List.mem_cons_self) before rest c
    rw [lowerFrom, hpiece] at hhead ⊢
    rw [textBefore]
    by_cases hstarts : startsWith (first :: separator) (c :: rest) = true
    · rw [hstarts] at hhead
      rw [if_pos hstarts, List.cons_append, find, ← List.cons_append, if_pos hhead]
      rfl
    · rw [Bool.not_eq_true] at hstarts
      rw [hstarts] at hhead
      rw [hstarts, if_neg Bool.false_ne_true, find_cons_append habsent hhead, ih,
        Option.map_map, Option.map_map, ← hpiece, utf8Len_lowerAt]
      congr 1
      funext front
      simp only [Function.comp_apply, toLowercase, utf8Len_lowerFrom]
      rw [List.flatMap_cons, String.utf8Len_append]

theorem ascii_of_all {separator : List Char}
    (h : (separator.all fun c => c.toNat < 128 && c ≠ 'k') = true) :
    ∀ c ∈ separator, c.toNat < 128 ∧ c ≠ 'k' := by
  intro c hc
  simpa using List.all_eq_true.mp h c hc

theorem separators_plain {separator : List Char} (h : separator ∈ separators) :
    ∃ rest, separator = 'd' :: rest ∧ Plain separator := by
  rcases List.mem_cons.mp h with rfl | h
  · exact ⟨"etails:".toList, rfl, ascii_of_all rfl, by decide⟩
  · obtain rfl := List.mem_singleton.mp h
    exact ⟨"etail:".toList, rfl, ascii_of_all rfl, by decide⟩

theorem find_separator {separator : List Char} (h : separator ∈ separators) (cs : List Char) :
    find separator (toLowercase table cs) =
      (textBefore separator cs).map fun front => utf8Len (toLowercase table front) := by
  obtain ⟨rest, rfl, hplain⟩ := separators_plain h
  exact find_lowerFrom table hplain [] cs

/-- The search of the copy finds the split point of the message. -/
theorem findSome_separators (cs : List Char) :
    (separators.findSome? fun separator =>
      (find separator (toLowercase table cs)).map (·, separator)) =
      (splitPoint cs).map fun found => (utf8Len (toLowercase table found.1), found.2) := by
  have hmem : "details:".toList ∈ separators ∧ "detail:".toList ∈ separators :=
    ⟨List.mem_cons_self, List.mem_cons_of_mem _ List.mem_cons_self⟩
  have hdetails := find_separator table hmem.1 cs
  have hdetail := find_separator table hmem.2 cs
  unfold splitPoint separators
  rw [List.findSome?_cons, List.findSome?_cons, List.findSome?_cons, List.findSome?_cons, hdetails,
    hdetail]
  cases textBefore "details:".toList cs with
  | some front => rfl
  | none => cases textBefore "detail:".toList cs <;> rfl

end Search

/-- A copy holds a separator exactly where the message has a split point. -/
theorem any_separators (cs : List Char) :
    (separators.any fun separator => (find separator (toLowercase table cs)).isSome) =
      (splitPoint cs).isSome := by
  have hfound := congrArg Option.isSome (findSome_separators table cs)
  rw [Option.isSome_map] at hfound
  rw [← hfound, List.isSome_findSome?]
  simp only [Option.isSome_map]

section Returns

theorem splitValidationErrorMessage_isSome (raw : String) :
    (splitValidationErrorMessage table raw).isSome = true ↔ Aligned table raw.toList := by
  unfold splitValidationErrorMessage
  extract_lets lower
  rw [findSome_separators]
  cases hsplit : splitPoint raw.toList with
  | none =>
    have haligned : Aligned table raw.toList := fun before separator hfound => by
      rw [hsplit] at hfound
      cases hfound
    refine iff_of_true ?_ haligned
    simp only [Option.map_none]
    split_ifs <;> rfl
  | some found =>
    obtain ⟨before, separator⟩ := found
    have haligned : Aligned table raw.toList ↔
        Boundary (utf8Len (toLowercase table before)) raw.toList ∧
          Boundary (utf8Len (toLowercase table before) + separator.length) raw.toList := by
      constructor
      · intro h
        exact h before separator hsplit
      · intro h before' separator' hfound
        rw [hsplit] at hfound
        cases hfound
        exact h
    rw [haligned]
    simp only [Option.map_some, Boundary]
    cases cut (utf8Len (toLowercase table before)) raw.toList with
    | none => simp
    | some front => simp

theorem stripUserIdSuffix_isSome (message : String) : (stripUserIdSuffix message).isSome = true := by
  unfold stripUserIdSuffix
  split
  · rfl
  · rename_i hfound
    rw [Option.isSome_map]
    exact (boundary_of_find hfound).1

theorem cleanMessage_isSome (body : Value) : (cleanMessage body).isSome = true := by
  unfold cleanMessage
  split
  · rfl
  · rw [Option.isSome_map]
    exact stripUserIdSuffix_isSome _

theorem operationFailedHeadline_isSome (method resource : String) :
    (operationFailedHeadline table method resource).isSome = true := by
  unfold operationFailedHeadline
  extract_lets verb resourceNoun noun
  rw [Option.isSome_map]
  unfold noun
  split
  · rfl
  · rename_i hfound
    rw [Option.isSome_map]
    exact (boundary_of_find hfound).2

theorem classifyByMapping_isSome (mapping : ErrorMapping) (resource method : String)
    (clean detail : Option String) :
    (classifyByMapping table mapping resource method clean detail).isSome = true := by
  unfold classifyByMapping
  split
  · rw [Option.isSome_map]
    exact operationFailedHeadline_isSome table method resource
  · rfl

theorem classifyByHttpStatus_isSome {body : Value}
    (hsplit : (splitValidationErrorMessage table (sanitizedMessage body)).isSome = true)
    (status : Nat) (service resource : String) (clean detail : Option String) :
    (classifyByHttpStatus table status body service resource clean detail).isSome = true := by
  unfold classifyByHttpStatus
  split
  all_goals first
    | rfl
    | (split_ifs <;> rfl)
    | (rw [Option.isSome_map]
       split_ifs
       · rfl
       · exact hsplit)

theorem classifyByHttpStatus_isSome_of_status {status : Nat}
    (hstatus : ¬isValidationStatus status = true) {body : Value} (service resource : String)
    (clean detail : Option String) :
    (classifyByHttpStatus table status body service resource clean detail).isSome = true := by
  unfold classifyByHttpStatus
  split
  all_goals first
    | rfl
    | (split_ifs <;> rfl)
    | exact absurd rfl hstatus

end Returns

section Alignment

theorem textBefore_split {separator cs before : List Char}
    (h : textBefore separator cs = some before) :
    ∃ shown after, cs = before ++ (shown ++ after) ∧ separator = shown.map Char.toLower := by
  induction cs generalizing before with
  | nil => cases h
  | cons c rest ih =>
    rw [textBefore] at h
    split_ifs at h with hstarts
    · cases h
      exact ⟨_, _, (List.take_append_drop separator.length (c :: rest)).symm, eq_of_beq hstarts⟩
    · obtain ⟨front, hfront, rfl⟩ := Option.map_eq_some_iff.mp h
      obtain ⟨shown, after, rfl, hshown⟩ := ih hfront
      exact ⟨shown, after, rfl, hshown⟩

theorem splitPoint_eq_some {cs before separator : List Char}
    (h : splitPoint cs = some (before, separator)) :
    separator ∈ separators ∧ textBefore separator cs = some before := by
  obtain ⟨found, hmem, hfound⟩ := List.exists_of_findSome?_eq_some h
  obtain ⟨front, hfront, heq⟩ := Option.map_eq_some_iff.mp hfound
  obtain ⟨rfl, rfl⟩ := Prod.mk.inj heq
  exact ⟨hmem, hfront⟩

theorem utf8Len_ascii {cs : List Char} (h : ∀ c ∈ cs, c.toNat < 128) : utf8Len cs = cs.length := by
  induction cs with
  | nil => rfl
  | cons c rest ih =>
    obtain ⟨hc, hrest⟩ := List.forall_mem_cons.mp h
    have hsize : c.utf8Size = 1 := Char.utf8Size_eq_one_iff.mpr
      (UInt32.le_iff_toNat_le.mpr (Nat.lt_succ_iff.mp hc))
    rw [String.utf8Len_cons, ih hrest, hsize, List.length_cons]

/-- The classification returns where lower casing keeps the length of what stands before the
separator. -/
theorem aligned_of_length {message : List Char}
    (h : ∀ before separator, splitPoint message = some (before, separator) →
      utf8Len (toLowercase table before) = utf8Len before) : Aligned table message := by
  intro before separator hsplit
  obtain ⟨hmem, htext⟩ := splitPoint_eq_some hsplit
  obtain ⟨shown, after, rfl, rfl⟩ := textBefore_split htext
  obtain ⟨-, -, hplain⟩ := separators_plain hmem
  have hascii : ∀ c ∈ shown, c.toNat < 128 := by
    intro c hc
    by_contra hwide
    have hlower := (hplain.ascii c.toLower (List.mem_map_of_mem (f := Char.toLower) hc)).1
    rw [toLower_of_not_ascii (not_lt.mp hwide)] at hlower
    exact hwide hlower
  rw [h before _ hsplit, List.length_map, ← utf8Len_ascii hascii]
  refine ⟨boundary_iff.mpr ⟨before, _, rfl, rfl⟩, boundary_iff.mpr ⟨before ++ shown, after, ?_, ?_⟩⟩
  · rw [List.append_assoc]
  · rw [String.utf8Len_append]

end Alignment

/-- Classifying an API error returns exactly where the separator of a validation message is cut
out at boundaries; so does the split of the message itself. -/
theorem classification_returns_iff (lookupError : LookupError) (status : Nat) (body : Value)
    (service resource method raw : String) :
    ((splitValidationErrorMessage table raw).isSome = true ↔ Aligned table raw.toList) ∧
      ((classifyToRuntimeError table lookupError status body service resource
          method).isSome = true ↔
        (isValidationStatus status = true → Aligned table (sanitizedMessage body).toList)) := by
  refine ⟨splitValidationErrorMessage_isSome table raw, ?_⟩
  have hsplit := splitValidationErrorMessage_isSome table (sanitizedMessage body)
  have hseparators := any_separators table (sanitizedMessage body).toList
  rw [classifyToRuntimeError, Option.isSome_map]
  unfold classifyErrorMessageAndMetadata
  extract_lets errorCode detail sanitized lower
  have hany : (separators.any fun separator => (find separator lower).isSome) =
      (splitPoint sanitized.toList).isSome := hseparators
  rw [hany]
  split_ifs with hvalidation
  · rw [Bool.and_eq_true] at hvalidation
    rw [Option.isSome_map, hsplit]
    exact ⟨fun h _ => h, fun h => h hvalidation.1⟩
  · have haligned : isValidationStatus status = true → Aligned table sanitized.toList := by
      intro hstatus before separator hfound
      rw [hstatus, hfound] at hvalidation
      exact absurd rfl hvalidation
    refine iff_of_true ?_ haligned
    obtain ⟨clean, hclean⟩ := Option.isSome_iff_exists.mp (cleanMessage_isSome body)
    rw [hclean, Option.bind_some]
    split
    · exact classifyByMapping_isSome table _ resource method clean detail
    · by_cases hstatus : isValidationStatus status = true
      · exact classifyByHttpStatus_isSome table (hsplit.mpr (haligned hstatus)) status service
          resource clean detail
      · exact classifyByHttpStatus_isSome_of_status table hstatus service resource clean detail

/-- The lower case of the dotted I is a byte longer, so the cut lies beyond the end. -/
theorem dotted_separator_panics :
    splitValidationErrorMessage sampleTable "\u0130details:" = none ∧
      classifyToRuntimeError sampleTable (fun _ _ => none) 400
        (.ofPairs [("errorMessage", .string "\u0130details:")]) "iam" "users" "get" = none := by
  decide

end SeparatorDrift
