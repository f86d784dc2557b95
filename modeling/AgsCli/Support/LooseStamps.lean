import AgsCli.Support.Timestamps
import AgsCli.Support.Decimals

/-! # The texts the timestamp reader takes

A wider grammar than that of RFC 3339: the fields are numbers of any length and in no range. -/
namespace LooseStamps

open Strings CliInputs Timestamps

/-- A year, a month and a day with `-` between them, then the first `T`. The year has no minus, the
month and the day may have a plus. -/
def DateText (s rest : String) : Prop :=
  ∃ year month day : List Char,
    s.toList = year ++ '-' :: (month ++ '-' :: (day ++ 'T' :: rest.toList)) ∧ '-' ∉ year ∧
    (parseI64 (String.ofList year)).isSome ∧ (parseU32 month).isSome ∧ (parseU32 day).isSome

/-- A time before its offset, with the offset's size in seconds: a final `Z`, or a sign and two
numbers in digits with `:` between them. -/
inductive OffsetText : String → String → Int → Prop
  | utc {rest time : String} (text : rest.toList = time.toList ++ ['Z']) : OffsetText rest time 0
  | signed {rest time : String} {sign : Char} {hours minutes : List Char} {oh om : Int}
      (text : rest.toList = time.toList ++ sign :: (hours ++ ':' :: minutes))
      (isSign : sign = '+' ∨ sign = '-') (digits : ∀ c ∈ hours ++ minutes, isAsciiDigit c)
      (readHours : parseI64 (String.ofList hours) = some oh)
      (readMinutes : parseI64 (String.ofList minutes) = some om) :
      OffsetText rest time (oh * 3600 + om * 60)

/-- An hour, a minute and a second, each with a sign or none; a fraction is any text behind a
point. -/
def ClockText (time : String) : Prop :=
  ∃ hour minute second fraction : List Char,
    time.toList = hour ++ ':' :: (minute ++ ':' :: (second ++ fraction)) ∧
    (fraction = [] ∨ fraction.head? = some '.') ∧ (parseI64 (String.ofList hour)).isSome ∧
    (parseI64 (String.ofList minute)).isSome ∧ (parseI64 (String.ofList second)).isSome

/-- The text is outside the wide grammar as well, and its offset no number that leaves its range. -/
def Rejected (s : String) : Prop :=
  ∀ rest time seconds, DateText s rest → OffsetText rest time seconds →
    Fits seconds ∧ ¬ClockText time

theorem splitOnce_append {sep : Char} {front : List Char} (h : sep ∉ front) (back : List Char) :
    splitOnce sep (String.ofList (front ++ sep :: back)) =
      some (String.ofList front, String.ofList back) := by
  have hfront : (front ++ sep :: back).takeWhile (· ≠ sep) = front :=
    TerminalText.takeWhile_append_of (by simpa using fun c hc (heq : c = sep) => h (heq ▸ hc))
      (by simp) back
  simp only [splitOnce, String.toList_ofList, hfront, List.drop_left]

theorem splitOnce_none {sep : Char} {chars : List Char} (h : sep ∉ chars) :
    splitOnce sep (String.ofList chars) = none := by
  have hall : chars.takeWhile (· ≠ sep) = chars :=
    List.takeWhile_eq_self_iff.mpr (by simpa using fun c hc (heq : c = sep) => h (heq ▸ hc))
  simp only [splitOnce, String.toList_ofList, hall, List.drop_length]

theorem splitOnce_some {sep : Char} {s : String} {parts : String × String}
    (h : splitOnce sep s = some parts) :
    s.toList = parts.1.toList ++ sep :: parts.2.toList := by
  obtain ⟨chars, rfl⟩ : ∃ chars, s = String.ofList chars := ⟨s.toList, by simp⟩
  by_cases hmem : sep ∈ chars
  · obtain ⟨front, back, rfl, hfront⟩ := List.eq_append_cons_of_mem hmem
    rw [splitOnce_append hfront] at h
    cases h
    simp
  · rw [splitOnce_none hmem] at h
    cases h

theorem ne_of_digit {c d : Char} (h : isAsciiDigit c) (hd : isAsciiDigit d = false) : c ≠ d := by
  rintro rfl
  rw [h] at hd
  cases hd

theorem not_mem_of_digits {chars : List Char} (h : ∀ c ∈ chars, isAsciiDigit c) {d : Char}
    (hd : isAsciiDigit d = false) : d ∉ chars := by
  intro hmem
  exact ne_of_digit (h d hmem) hd rfl

theorem splitOnce_front {sep : Char} {s : String} {parts : String × String}
    (h : splitOnce sep s = some parts) : sep ∉ parts.1.toList := by
  simp only [splitOnce] at h
  split at h
  · cases h
  · cases h
    rw [String.toList_ofList]
    intro hmem
    simpa using List.mem_takeWhile_imp hmem

theorem stripSuffix_append (front : List Char) :
    stripSuffix? "Z" (String.ofList (front ++ ['Z'])) = some (String.ofList front) := by
  have hsuffix : ['Z'].isSuffixOf (front ++ ['Z']) = true :=
    List.isSuffixOf_iff_suffix.mpr ⟨front, rfl⟩
  simp [stripSuffix?, hsuffix]

theorem stripSuffix_none {chars : List Char} (h : chars.getLast? ≠ some 'Z') :
    stripSuffix? "Z" (String.ofList chars) = none := by
  have hsuffix : ['Z'].isSuffixOf chars = false := by
    rw [Bool.eq_false_iff]
    intro hsuffix
    obtain ⟨front, rfl⟩ := List.isSuffixOf_iff_suffix.mp hsuffix
    exact h (by simp)
  simp [stripSuffix?, hsuffix]

theorem findOffset_utc (front : List Char) :
    findOffset (String.ofList (front ++ ['Z'])) = some (String.ofList front, none) := by
  unfold findOffset
  rw [stripSuffix_append]

/-- Without a final `Z` the last sign decides. -/
theorem findOffset_sign {front back : List Char} {sign : Char} (hsign : sign = '+' ∨ sign = '-')
    (hback : ∀ c ∈ back, c ≠ '+' ∧ c ≠ '-') (hlast : back.getLast? ≠ some 'Z') :
    findOffset (String.ofList (front ++ sign :: back)) =
      (splitOnce ':' (String.ofList back)).bind fun hm =>
        (parseI64 hm.1).bind fun oh => (parseI64 hm.2).bind fun om =>
          some (String.ofList front, some (decide (sign = '-'), oh, om)) := by
  have hstrip : stripSuffix? "Z" (String.ofList (front ++ sign :: back)) = none := by
    refine stripSuffix_none ?_
    cases back with
    | nil => rcases hsign with rfl | rfl <;> simp
    | cons c t => simpa [List.getLast?_append, List.getLast?_cons_cons] using hlast
  have hrun : (back.reverse ++ sign :: front.reverse).takeWhile
      (fun c => c ≠ '+' ∧ c ≠ '-') = back.reverse :=
    TerminalText.takeWhile_append_of (by simpa using hback)
      (by simpa using fun h => hsign.resolve_left h) front.reverse
  unfold findOffset
  rw [hstrip]
  simp only [String.toList_ofList, List.reverse_append, List.reverse_cons, List.append_assoc,
    List.singleton_append, hrun, List.drop_left, List.head?_cons, List.reverse_reverse,
    List.drop_succ_cons, List.drop_zero, Option.bind_eq_bind, Option.bind_some]
  rfl

theorem findOffset_none {chars : List Char} (hsigns : ∀ c ∈ chars, c ≠ '+' ∧ c ≠ '-')
    (hlast : chars.getLast? ≠ some 'Z') : findOffset (String.ofList chars) = none := by
  have hrun : chars.reverse.takeWhile (fun c => c ≠ '+' ∧ c ≠ '-') = chars.reverse :=
    List.takeWhile_eq_self_iff.mpr (by simpa using hsigns)
  unfold findOffset
  rw [stripSuffix_none hlast]
  simp only [String.toList_ofList, hrun, List.drop_length, List.head?_nil]
  rfl

theorem exists_last {α : Type} {p : α → Prop} {l : List α} (h : ∃ a ∈ l, p a) :
    ∃ front a back, l = front ++ a :: back ∧ p a ∧ ∀ b ∈ back, ¬ p b := by
  classical
  induction l with
  | nil =>
    obtain ⟨a, ha, -⟩ := h
    cases ha
  | cons x t ih =>
    by_cases ht : ∃ a ∈ t, p a
    · obtain ⟨front, a, back, rfl, ha, hback⟩ := ih ht
      exact ⟨x :: front, a, back, rfl, ha, hback⟩
    · obtain ⟨a, ha, hpa⟩ := h
      rcases List.mem_cons.mp ha with rfl | ha
      · exact ⟨[], a, t, rfl, hpa, fun b hb hpb => ht ⟨b, hb, hpb⟩⟩
      · exact absurd ⟨a, ha, hpa⟩ ht

theorem parseI64_chars {s : String} {n : Int} (h : parseI64 s = some n) :
    ∀ c ∈ s.toList, isAsciiDigit c ∨ c = '+' ∨ c = '-' := by
  unfold parseI64 at h
  split at h
  rename_i negative digits heq
  split at h
  · cases h
  · rename_i hbad
    rw [Bool.or_eq_true, not_or, Bool.not_eq_true, Bool.not_eq_true, Bool.not_eq_false'] at hbad
    have hall := List.all_eq_true.mp hbad.2
    have htail : s.toList = digits ∨ s.toList = '+' :: digits ∨ s.toList = '-' :: digits := by
      split at heq <;> simp only [Prod.mk.injEq] at heq <;> obtain ⟨-, rfl⟩ := heq
      · exact Or.inr (Or.inr ‹_›)
      · exact Or.inr (Or.inl ‹_›)
      · exact Or.inl rfl
    intro c hc
    rcases htail with hplain | hplus | hminus
    · exact Or.inl (hall c (hplain ▸ hc))
    · rw [hplus] at hc
      rcases List.mem_cons.mp hc with rfl | hc
      · exact Or.inr (Or.inl rfl)
      · exact Or.inl (hall c hc)
    · rw [hminus] at hc
      rcases List.mem_cons.mp hc with rfl | hc
      · exact Or.inr (Or.inr rfl)
      · exact Or.inl (hall c hc)

theorem parseI64_free {chars : List Char} (h : (parseI64 (String.ofList chars)).isSome) {d : Char}
    (hd : isAsciiDigit d = false) (hsign : d ≠ '+' ∧ d ≠ '-') : d ∉ chars := by
  obtain ⟨n, hn⟩ := Option.isSome_iff_exists.mp h
  intro hmem
  have hchars := parseI64_chars hn d (by rwa [String.toList_ofList])
  rcases hchars with hdigit | hplus | hminus
  · rw [hd] at hdigit
    cases hdigit
  · exact hsign.1 hplus
  · exact hsign.2 hminus

theorem parseU32_free {chars : List Char} (h : (parseU32 chars).isSome) {d : Char}
    (hd : isAsciiDigit d = false) (hsign : d ≠ '+') : d ∉ chars := by
  obtain ⟨n, hn⟩ := Option.isSome_iff_exists.mp h
  rw [parseU32, Option.filter_eq_some_iff] at hn
  intro hmem
  rcases Decimals.digits_of_parseUsize hn.1 d hmem with hdigit | hplus
  · rw [hd] at hdigit
    cases hdigit
  · exact hsign hplus

/-- The fold of `parseI64`. -/
def decimalValue (seed : Int) (chars : List Char) : Int :=
  chars.foldl (fun n c => n * 10 + (c.toNat - '0'.toNat)) seed

theorem decimalValue_nonneg {chars : List Char} (h : ∀ c ∈ chars, isAsciiDigit c) {seed : Int}
    (hseed : 0 ≤ seed) : 0 ≤ decimalValue seed chars := by
  induction chars generalizing seed with
  | nil => exact hseed
  | cons c rest ih =>
    have hc := h c List.mem_cons_self
    rw [isAsciiDigit, Bool.and_eq_true, decide_eq_true_eq, decide_eq_true_eq] at hc
    have hlow : '0'.toNat ≤ c.toNat := hc.1
    have hnext : 0 ≤ seed * 10 + ((c.toNat : Int) - '0'.toNat) := by omega
    exact ih (fun d hd => h d (List.mem_cons_of_mem c hd)) hnext

theorem parseI64_digits_eq {chars : List Char} (hne : chars ≠ [])
    (h : ∀ c ∈ chars, isAsciiDigit c) :
    parseI64 (String.ofList chars) =
      if -2 ^ 63 ≤ decimalValue 0 chars ∧ decimalValue 0 chars < 2 ^ 63
      then some (decimalValue 0 chars) else none := by
  have hminus : '-' ∉ chars := not_mem_of_digits h (by decide)
  have hplus : '+' ∉ chars := not_mem_of_digits h (by decide)
  have hall : chars.all isAsciiDigit = true := List.all_eq_true.mpr h
  unfold parseI64
  rw [String.toList_ofList]
  split
  rename_i heq
  split at heq
  · exact absurd List.mem_cons_self hminus
  · exact absurd List.mem_cons_self hplus
  · simp only [Prod.mk.injEq] at heq
    obtain ⟨rfl, rfl⟩ := heq
    have hempty : chars.isEmpty = false := by
      simpa using hne
    rw [hempty, hall]
    rfl

theorem parseI64_nonneg {chars : List Char} (hdigits : ∀ c ∈ chars, isAsciiDigit c) {n : Int}
    (h : parseI64 (String.ofList chars) = some n) : 0 ≤ n := by
  by_cases hne : chars = []
  · subst hne
    cases h
  · rw [parseI64_digits_eq hne hdigits] at h
    split_ifs at h
    cases h
    exact decimalValue_nonneg hdigits le_rfl

theorem readDate_iff {s rest : String} :
    (∃ date, readDate s = some date ∧ date.2.2.2 = rest) ↔ DateText s rest := by
  constructor
  · rintro ⟨date, hdate, rfl⟩
    simp only [readDate, Option.bind_eq_bind, Option.bind_eq_some_iff, Option.pure_def,
      Option.some.injEq] at hdate
    obtain ⟨⟨front, rest⟩, hT, ⟨year, monthDay⟩, hyear, ⟨month, day⟩, hmonth, y, hy, m, hm, d, hd,
      rfl⟩ := hdate
    have htext := splitOnce_some hT
    have hfront := splitOnce_some hyear
    have hback := splitOnce_some hmonth
    dsimp only at htext hfront hback ⊢
    refine ⟨year.toList, month.toList, day.toList, ?_, splitOnce_front hyear, ?_, ?_, ?_⟩
    · rw [htext, hfront, hback]
      simp
    · rw [String.ofList_toList, hy]
      rfl
    · rw [hm]
      rfl
    · rw [hd]
      rfl
  · rintro ⟨year, month, day, htext, hminus, hy, hm, hd⟩
    have hyear : 'T' ∉ year := parseI64_free hy (by decide) (by decide)
    have hmonth : 'T' ∉ month := parseU32_free hm (by decide) (by decide)
    have hday : 'T' ∉ day := parseU32_free hd (by decide) (by decide)
    have hfront : 'T' ∉ year ++ '-' :: (month ++ '-' :: day) := by
      simp [hyear, hmonth, hday]
    have hs : s = String.ofList ((year ++ '-' :: (month ++ '-' :: day)) ++ 'T' :: rest.toList) := by
      rw [← String.toList_inj, htext]
      simp
    obtain ⟨y, hy⟩ := Option.isSome_iff_exists.mp hy
    obtain ⟨m, hm'⟩ := Option.isSome_iff_exists.mp hm
    obtain ⟨d, hd⟩ := Option.isSome_iff_exists.mp hd
    refine ⟨(y, m, d, rest), ?_, rfl⟩
    rw [hs, readDate, splitOnce_append hfront]
    simp only [Option.bind_eq_bind, Option.bind_some]
    rw [splitOnce_append hminus]
    simp only [Option.bind_some]
    rw [splitOnce_append (parseU32_free hm (by decide) (by decide))]
    simp [hy, hm', hd]

def offsetSize : Option (Bool × Int × Int) → Int
  | none => 0
  | some (_, oh, om) => oh * 3600 + om * 60

/-- What a found offset says of the text: a final `Z`, or a sign and two numbers in digits. -/
theorem findOffset_inv {rest time : String} {parsed : Option (Bool × Int × Int)}
    (h : findOffset rest = some (time, parsed)) :
    (parsed = none ∧ rest.toList = time.toList ++ ['Z']) ∨
      ∃ sign hours minutes oh om, parsed = some (decide (sign = '-'), oh, om) ∧
        rest.toList = time.toList ++ sign :: (hours ++ ':' :: minutes) ∧
        (sign = '+' ∨ sign = '-') ∧ (∀ c ∈ hours ++ minutes, isAsciiDigit c) ∧
        parseI64 (String.ofList hours) = some oh ∧ parseI64 (String.ofList minutes) = some om := by
  obtain ⟨chars, rfl⟩ : ∃ chars, rest = String.ofList chars := ⟨rest.toList, by simp⟩
  by_cases hZ : chars.getLast? = some 'Z'
  · obtain ⟨front, rfl⟩ := List.getLast?_eq_some_iff.mp hZ
    rw [findOffset_utc] at h
    cases h
    exact Or.inl ⟨rfl, by simp⟩
  · by_cases hsigns : ∃ c ∈ chars, c = '+' ∨ c = '-'
    · obtain ⟨front, sign, back, rfl, hsign, hback⟩ := exists_last hsigns
      have hback' : ∀ d ∈ back, d ≠ '+' ∧ d ≠ '-' := fun d hd =>
        ⟨fun h => hback d hd (Or.inl h), fun h => hback d hd (Or.inr h)⟩
      have hend : back.getLast? ≠ some 'Z' := by
        intro h
        rw [List.getLast?_append, List.getLast?_cons, h] at hZ
        exact hZ rfl
      rw [findOffset_sign hsign hback' hend] at h
      simp only [Option.bind_eq_some_iff] at h
      obtain ⟨⟨hours, minutes⟩, hsplit, oh, hoh, om, hom, hparsed⟩ := h
      cases hparsed
      have htext := splitOnce_some hsplit
      rw [String.toList_ofList] at htext
      dsimp only at htext hoh hom
      refine Or.inr ⟨sign, hours.toList, minutes.toList, oh, om, rfl, ?_, hsign, ?_,
        by simpa using hoh, by simpa using hom⟩
      · rw [String.toList_ofList, String.toList_ofList, htext]
      · intro c hc
        have hmem : c ∈ back := by
          rw [htext]
          simp only [List.mem_append, List.mem_cons] at hc ⊢
          tauto
        have hchars : isAsciiDigit c ∨ c = '+' ∨ c = '-' := by
          rcases List.mem_append.mp hc with hc | hc
          · exact parseI64_chars hoh c hc
          · exact parseI64_chars hom c hc
        exact hchars.resolve_right fun h => h.elim (hback' c hmem).1 (hback' c hmem).2
    · rw [findOffset_none (fun d hd => ⟨fun h => hsigns ⟨d, hd, Or.inl h⟩,
        fun h => hsigns ⟨d, hd, Or.inr h⟩⟩) hZ] at h
      cases h

theorem findOffset_iff {rest time : String} {seconds : Int} :
    (∃ parsed, findOffset rest = some (time, parsed) ∧ offsetSize parsed = seconds) ↔
      OffsetText rest time seconds := by
  constructor
  · rintro ⟨parsed, hfound, rfl⟩
    rcases findOffset_inv hfound with ⟨rfl, htext⟩ |
      ⟨sign, hours, minutes, oh, om, rfl, htext, hsign, hdigits, hoh, hom⟩
    · exact OffsetText.utc htext
    · exact OffsetText.signed htext hsign hdigits hoh hom
  · obtain ⟨chars, rfl⟩ : ∃ chars, rest = String.ofList chars := ⟨rest.toList, by simp⟩
    intro htext
    cases htext with
    | utc text =>
      rw [String.toList_ofList] at text
      rw [text]
      exact ⟨none, by rw [findOffset_utc, String.ofList_toList], rfl⟩
    | @signed sign hours minutes oh om text isSign digits readHours readMinutes =>
      rw [String.toList_ofList] at text
      have hback : ∀ c ∈ hours ++ ':' :: minutes, isAsciiDigit c ∨ c = ':' := by
        intro c hc
        simp only [List.mem_append, List.mem_cons] at hc digits
        rcases hc with hc | rfl | hc
        · exact Or.inl (digits c (Or.inl hc))
        · exact Or.inr rfl
        · exact Or.inl (digits c (Or.inr hc))
      have hfree : ∀ d, isAsciiDigit d = false → d ≠ ':' → d ∉ hours ++ ':' :: minutes := by
        intro d hd hcolon hmem
        rcases hback d hmem with h | h
        · rw [hd] at h
          cases h
        · exact hcolon h
      have hcolon : ':' ∉ hours :=
        not_mem_of_digits (fun c hc => digits c (List.mem_append_left _ hc)) (by decide)
      have hsigns : ∀ c ∈ hours ++ ':' :: minutes, c ≠ '+' ∧ c ≠ '-' := fun c hc =>
        ⟨fun h => hfree '+' (by decide) (by decide) (h ▸ hc),
          fun h => hfree '-' (by decide) (by decide) (h ▸ hc)⟩
      have hend : (hours ++ ':' :: minutes).getLast? ≠ some 'Z' := fun h =>
        hfree 'Z' (by decide) (by decide) (List.mem_of_getLast? h)
      refine ⟨some (decide (sign = '-'), oh, om), ?_, rfl⟩
      rw [text, findOffset_sign isSign hsigns hend, splitOnce_append hcolon]
      simp [readHours, readMinutes]

theorem readTime_iff {time : String} : (readTime time).isSome ↔ ClockText time := by
  constructor
  · intro h
    obtain ⟨clock, hclock⟩ := Option.isSome_iff_exists.mp h
    simp only [readTime, Option.bind_eq_bind, Option.bind_eq_some_iff, Option.pure_def,
      Option.some.injEq] at hclock
    obtain ⟨⟨hour, minuteSecond⟩, hhour, ⟨minute, second⟩, hminute, h, hh, m, hm, n, hn, -⟩ :=
      hclock
    have hfront := splitOnce_some hhour
    have hback := splitOnce_some hminute
    rw [String.toList_ofList] at hfront
    dsimp only at hfront hback hh hm hn
    refine ⟨hour.toList, minute.toList, second.toList, time.toList.dropWhile (· ≠ '.'), ?_, ?_,
      ?_, ?_, ?_⟩
    · have hwhole := List.takeWhile_append_dropWhile (p := fun c => decide (c ≠ '.'))
        (l := time.toList)
      conv_lhs => rw [← hwhole, hfront, hback]
      simp
    · cases hdrop : time.toList.dropWhile (· ≠ '.') with
      | nil => exact Or.inl rfl
      | cons c rest =>
        have hne : time.toList.dropWhile (· ≠ '.') ≠ [] := by
          rw [hdrop]
          exact List.cons_ne_nil _ _
        have hc := List.head_dropWhile_not (fun c => decide (c ≠ '.')) hne
        simp only [hdrop, List.head_cons, decide_eq_false_iff_not, not_not] at hc
        exact Or.inr (congrArg some hc)
    · rw [String.ofList_toList, hh]
      rfl
    · rw [String.ofList_toList, hm]
      rfl
    · rw [String.ofList_toList, hn]
      rfl
  · rintro ⟨hour, minute, second, fraction, htext, hfraction, hh, hm, hs⟩
    have hpoint : ∀ {chars : List Char}, (parseI64 (String.ofList chars)).isSome → '.' ∉ chars :=
      fun h => parseI64_free h (by decide) (by decide)
    have hfree : ∀ c ∈ hour ++ ':' :: (minute ++ ':' :: second), c ≠ '.' := by
      rintro c hc rfl
      simp [hpoint hh, hpoint hm, hpoint hs] at hc
    have hclock : time.toList.takeWhile (· ≠ '.') = hour ++ ':' :: (minute ++ ':' :: second) := by
      have hwhole : time.toList = (hour ++ ':' :: (minute ++ ':' :: second)) ++ fraction := by
        rw [htext]
        simp
      have hnone : fraction.takeWhile (· ≠ '.') = [] := by
        rcases hfraction with rfl | hpoint
        · rfl
        · obtain ⟨rest, rfl⟩ := List.head?_eq_some_iff.mp hpoint
          rfl
      rw [hwhole, List.takeWhile_append_of_pos (by simpa using hfree), hnone, List.append_nil]
    obtain ⟨h, hh'⟩ := Option.isSome_iff_exists.mp hh
    obtain ⟨m, hm'⟩ := Option.isSome_iff_exists.mp hm
    obtain ⟨n, hn⟩ := Option.isSome_iff_exists.mp hs
    rw [readTime, hclock, splitOnce_append (parseI64_free hh (by decide) (by decide))]
    simp only [Option.bind_eq_bind, Option.bind_some]
    rw [splitOnce_append (parseI64_free hm (by decide) (by decide))]
    simp [hh', hm', hn]

/-- The sums of an offset leave their range exactly when its size does. -/
theorem splitOffset_found {rest time : String} {parsed : Option (Bool × Int × Int)}
    (h : findOffset rest = some (time, parsed)) :
    if Fits (offsetSize parsed) then ∃ offset, splitOffset rest = .ok (time, offset)
    else splitOffset rest = .error .fault := by
  rcases findOffset_inv h with ⟨rfl, -⟩ |
    ⟨sign, hours, minutes, oh, om, rfl, -, -, hdigits, hoh, hom⟩
  · rw [if_pos (by decide), splitOffset, h]
    exact ⟨0, rfl⟩
  · have hoh' := parseI64_nonneg (fun c hc => hdigits c (List.mem_append_left _ hc)) hoh
    have hom' := parseI64_nonneg (fun c hc => hdigits c (List.mem_append_right _ hc)) hom
    have hstep : splitOffset rest = mul oh 3600 >>= fun a => mul om 60 >>= fun b =>
        add a b >>= fun seconds => mul (if decide (sign = '-') then -1 else 1) seconds >>=
          fun offset => .ok (time, offset) := by
      rw [splitOffset, h]
      rfl
    rw [hstep, offsetSize]
    by_cases hfits : Fits (oh * 3600 + om * 60)
    · rw [if_pos hfits]
      refine ⟨(if decide (sign = '-') then -1 else 1) * (oh * 3600 + om * 60), ?_⟩
      unfold Fits at hfits
      rw [mul_ok (by unfold Fits; omega), bind_ok, mul_ok (by unfold Fits; omega), bind_ok,
        add_ok hfits, bind_ok, mul_ok (by unfold Fits; split_ifs <;> omega), bind_ok]
    · rw [if_neg hfits]
      by_cases hfirst : Fits (oh * 3600)
      · by_cases hsecond : Fits (om * 60)
        · rw [mul_ok hfirst, bind_ok, mul_ok hsecond, bind_ok, add, checked, if_neg hfits]
          rfl
        · rw [mul_ok hfirst, bind_ok, mul, checked, if_neg hsecond]
          rfl
      · rw [mul, checked, if_neg hfirst]
        rfl

theorem rejected_iff {s : String} : Rejected s ↔ ∀ date, readDate s = some date →
    splitOffset date.2.2.2 ≠ .error .fault ∧
      ∀ time, splitOffset date.2.2.2 = .ok time → readTime time.1 = none := by
  constructor
  · intro h date hdate
    have hd := readDate_iff.mp ⟨date, hdate, rfl⟩
    cases hfound : findOffset date.2.2.2 with
    | none => simp [splitOffset, hfound]
    | some found =>
      obtain ⟨hfits, hclock⟩ := h _ found.1 _ hd (findOffset_iff.mp ⟨found.2, hfound, rfl⟩)
      have hsplit := splitOffset_found hfound
      rw [if_pos hfits] at hsplit
      obtain ⟨offset, hoffset⟩ := hsplit
      rw [hoffset]
      refine ⟨nofun, ?_⟩
      rintro time ⟨⟩
      rw [← readTime_iff, Option.not_isSome_iff_eq_none] at hclock
      exact hclock
  · intro h rest time seconds hd htext
    obtain ⟨date, hdate, rfl⟩ := readDate_iff.mpr hd
    obtain ⟨parsed, hfound, rfl⟩ := findOffset_iff.mpr htext
    obtain ⟨hfault, hnone⟩ := h date hdate
    have hsplit := splitOffset_found hfound
    split_ifs at hsplit with hfits
    · obtain ⟨offset, hoffset⟩ := hsplit
      refine ⟨hfits, ?_⟩
      rw [← readTime_iff, hnone _ hoffset]
      exact Bool.false_ne_true
    · exact absurd hsplit hfault

end LooseStamps
