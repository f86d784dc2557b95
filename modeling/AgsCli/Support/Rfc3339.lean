import AgsCli.Support.LooseStamps

/-! # The texts of RFC 3339

The grammar of a timestamp, what the reader makes of such a text, and when the text shown for one
is right. -/
namespace Rfc3339

open Strings CliInputs Calendar Timestamps LooseStamps

inductive Zone
  | utc (lower : Bool)
  | offset (negative : Bool) (hours minutes : Nat)

def Zone.minutes : Zone → Int
  | .utc _ => 0
  | .offset negative hours minutes => (if negative then -1 else 1) * (hours * 60 + minutes)

def Zone.InRange : Zone → Prop
  | .utc _ => True
  | .offset _ hours minutes => hours < 24 ∧ minutes < 60

def twoDigits (n : Nat) : List Char := [Nat.digitChar (n / 10), Nat.digitChar (n % 10)]

def fourDigits (n : Nat) : List Char := twoDigits (n / 100) ++ twoDigits (n % 100)

def Zone.text : Zone → List Char
  | .utc lower => [if lower then 'z' else 'Z']
  | .offset negative hours minutes =>
    (if negative then '-' else '+') :: (twoDigits hours ++ ':' :: twoDigits minutes)

structure Stamp where
  date : Date
  lowerT : Bool
  hour : Nat
  minute : Nat
  second : Nat
  fraction : List Char
  zone : Zone
  year_range : 0 ≤ date.year ∧ date.year ≤ 9999
  hour_lt : hour < 24
  minute_lt : minute < 60
  second_le : second ≤ 60
  fraction_digits : ∀ c ∈ fraction, isAsciiDigit c
  zone_inRange : zone.InRange

def Stamp.utcMinute (f : Stamp) : Int :=
  f.date.dayNumber * 1440 + f.hour * 60 + f.minute - f.zone.minutes

def Stamp.dateText (f : Stamp) : List Char :=
  fourDigits f.date.year.toNat ++ '-' :: (twoDigits f.date.month.toNat ++
    '-' :: twoDigits f.date.day.toNat)

def Stamp.clockText (f : Stamp) : List Char :=
  twoDigits f.hour ++ ':' :: (twoDigits f.minute ++ ':' :: twoDigits f.second)

def Stamp.timeText (f : Stamp) : List Char :=
  f.clockText ++ if f.fraction = [] then [] else '.' :: f.fraction

def Stamp.text (f : Stamp) : String :=
  String.ofList (f.dateText ++ (if f.lowerT then 't' else 'T') :: (f.timeText ++ f.zone.text))

/-- A valid timestamp: a second 60 is one of the `leapMinute`s, which are announced. -/
def IsRfc3339 (leapMinute : Int → Prop) (s : String) (f : Stamp) : Prop :=
  s = f.text ∧ (f.second = 60 → leapMinute f.utcMinute)

theorem twoDigits_digits {n : Nat} (h : n < 100) : ∀ c ∈ twoDigits n, isAsciiDigit c := by
  have hall : ((List.range 100).all fun n => (twoDigits n).all isAsciiDigit) = true := by decide
  have hn := List.all_eq_true.mp hall n (List.mem_range.mpr h)
  exact List.all_eq_true.mp hn

theorem fourDigits_digits {n : Nat} (h : n < 10000) : ∀ c ∈ fourDigits n, isAsciiDigit c := by
  intro c hc
  rcases List.mem_append.mp hc with hc | hc
  · exact twoDigits_digits (by omega) c hc
  · exact twoDigits_digits (by omega) c hc

theorem parseI64_twoDigits {n : Nat} (h : n < 100) :
    parseI64 (String.ofList (twoDigits n)) = some (n : Int) := by
  unfold parseI64
  rw [String.toList_ofList]
  revert n
  decide

theorem parseU32_twoDigits {n : Nat} (h : n < 100) : parseU32 (twoDigits n) = some n := by
  revert n
  decide

theorem decimalValue_twoDigits {n : Nat} (h : n < 100) (seed : Int) :
    decimalValue seed (twoDigits n) = seed * 100 + n := by
  have hdigit : ∀ d < 10, (Nat.digitChar d).toNat = d + 48 := by decide
  have htens := hdigit (n / 10) (by omega)
  have hunits := hdigit (n % 10) (by omega)
  simp only [decimalValue, twoDigits, List.foldl_cons, List.foldl_nil, htens, hunits]
  have hzero : '0'.toNat = 48 := rfl
  rw [hzero]
  push_cast
  omega

theorem parseI64_fourDigits {n : Nat} (h : n < 10000) :
    parseI64 (String.ofList (fourDigits n)) = some (n : Int) := by
  have hsplit : decimalValue 0 (fourDigits n) =
      decimalValue (decimalValue 0 (twoDigits (n / 100))) (twoDigits (n % 100)) :=
    List.foldl_append
  have hvalue : decimalValue 0 (fourDigits n) = n := by
    rw [hsplit, decimalValue_twoDigits (by omega), decimalValue_twoDigits (by omega)]
    push_cast
    omega
  rw [parseI64_digits_eq (by simp [fourDigits, twoDigits]) (fourDigits_digits h), hvalue,
    if_pos (by omega)]

variable (f : Stamp)

theorem Stamp.dateText_chars : ∀ c ∈ f.dateText, isAsciiDigit c ∨ c = '-' := by
  have hyear := f.year_range
  have hmonth := f.date.month_le
  have hday := f.date.day_le.trans (daysInMonth_le _ _)
  intro c hc
  simp only [Stamp.dateText, List.mem_append, List.mem_cons] at hc
  rcases hc with hc | rfl | hc | rfl | hc
  · exact Or.inl (fourDigits_digits (by omega) c hc)
  · exact Or.inr rfl
  · exact Or.inl (twoDigits_digits (by omega) c hc)
  · exact Or.inr rfl
  · exact Or.inl (twoDigits_digits (by omega) c hc)

theorem Stamp.clockText_chars : ∀ c ∈ f.clockText, isAsciiDigit c ∨ c = ':' := by
  have hhour := f.hour_lt
  have hminute := f.minute_lt
  have hsecond := f.second_le
  intro c hc
  simp only [Stamp.clockText, List.mem_append, List.mem_cons] at hc
  rcases hc with hc | rfl | hc | rfl | hc
  · exact Or.inl (twoDigits_digits (by omega) c hc)
  · exact Or.inr rfl
  · exact Or.inl (twoDigits_digits (by omega) c hc)
  · exact Or.inr rfl
  · exact Or.inl (twoDigits_digits (by omega) c hc)

theorem Stamp.timeText_chars : ∀ c ∈ f.timeText, isAsciiDigit c ∨ c = ':' ∨ c = '.' := by
  intro c hc
  rcases List.mem_append.mp hc with hc | hc
  · exact (f.clockText_chars c hc).imp_right Or.inl
  · split_ifs at hc
    · cases hc
    · rcases List.mem_cons.mp hc with rfl | hc
      · exact Or.inr (Or.inr rfl)
      · exact Or.inl (f.fraction_digits c hc)

theorem Zone.text_chars {zone : Zone} (h : zone.InRange) :
    ∀ c ∈ zone.text, isAsciiDigit c ∨ c ∈ ['Z', 'z', '+', '-', ':'] := by
  intro c hc
  cases zone with
  | utc lower =>
    cases lower <;> (obtain rfl := List.mem_singleton.mp hc; decide)
  | offset negative hours minutes =>
    simp only [Zone.text, List.mem_cons, List.mem_append] at hc
    rcases hc with rfl | hc | rfl | hc
    · cases negative <;> decide
    · exact Or.inl (twoDigits_digits (by have := h.1; omega) c hc)
    · decide
    · exact Or.inl (twoDigits_digits (by have := h.2; omega) c hc)

theorem readDate_text (hT : f.lowerT = false) :
    readDate f.text = some (f.date.year, f.date.month, f.date.day,
      String.ofList (f.timeText ++ f.zone.text)) := by
  have hyear := f.year_range
  have hmonth := And.intro f.date.month_pos f.date.month_le
  have hday := And.intro f.date.day_pos (f.date.day_le.trans (daysInMonth_le _ _))
  have hcapital : 'T' ∉ f.dateText := by
    intro hmem
    rcases f.dateText_chars _ hmem with h | h <;> cases h
  have hdash : '-' ∉ fourDigits f.date.year.toNat :=
    not_mem_of_digits (fourDigits_digits (by omega)) (by decide)
  have hdash' : '-' ∉ twoDigits f.date.month.toNat :=
    not_mem_of_digits (twoDigits_digits (by omega)) (by decide)
  have htext : f.text = String.ofList (f.dateText ++ 'T' :: (f.timeText ++ f.zone.text)) := by
    rw [Stamp.text, hT]
    rfl
  have hfour : ((f.date.year.toNat : Nat) : Int) = f.date.year := by omega
  have htwo : ((f.date.month.toNat : Nat) : Int) = f.date.month := by omega
  have htwo' : ((f.date.day.toNat : Nat) : Int) = f.date.day := by omega
  unfold readDate
  rw [htext, splitOnce_append hcapital]
  simp only [Option.bind_eq_bind, Option.bind_some, Stamp.dateText]
  rw [splitOnce_append hdash, Option.bind_some, splitOnce_append hdash', Option.bind_some,
    parseI64_fourDigits (by omega), Option.bind_some, String.toList_ofList,
    parseU32_twoDigits (by omega), Option.bind_some, String.toList_ofList,
    parseU32_twoDigits (by omega), Option.bind_some, hfour, htwo, htwo']
  rfl

theorem readDate_lower (hT : f.lowerT = true) : readDate f.text = none := by
  have hcapital : 'T' ∉ f.dateText ++ 't' :: (f.timeText ++ f.zone.text) := by
    simp only [List.mem_append, List.mem_cons, not_or]
    refine ⟨?_, by decide, ?_, ?_⟩
    · intro hmem
      rcases f.dateText_chars _ hmem with h | h <;> cases h
    · intro hmem
      rcases f.timeText_chars _ hmem with h | h | h <;> cases h
    · intro hmem
      rcases Zone.text_chars f.zone_inRange _ hmem with h | h
      · cases h
      · revert h
        decide
  have htext : f.text = String.ofList (f.dateText ++ 't' :: (f.timeText ++ f.zone.text)) := by
    rw [Stamp.text, hT]
    rfl
  unfold readDate
  rw [htext, splitOnce_none hcapital]
  rfl

theorem findOffset_text : findOffset (String.ofList (f.timeText ++ f.zone.text)) =
    match f.zone with
    | .utc false => some (String.ofList f.timeText, none)
    | .utc true => none
    | .offset negative hours minutes =>
      some (String.ofList f.timeText, some (negative, (hours : Int), (minutes : Int))) := by
  have hsigns : ∀ c ∈ f.timeText, c ≠ '+' ∧ c ≠ '-' := by
    intro c hc
    rcases f.timeText_chars c hc with h | rfl | rfl
    · exact ⟨ne_of_digit h (by decide), ne_of_digit h (by decide)⟩
    · decide
    · decide
  have hzone := f.zone_inRange
  cases hz : f.zone with
  | utc lower =>
    cases lower with
    | false => exact findOffset_utc f.timeText
    | true =>
      refine findOffset_none ?_ (by simp [Zone.text])
      intro c hc
      rcases List.mem_append.mp hc with hc | hc
      · exact hsigns c hc
      · obtain rfl := List.mem_singleton.mp hc
        decide
  | offset negative hours minutes =>
    rw [hz] at hzone
    obtain ⟨hhours, hminutes⟩ := hzone
    have hdigits : ∀ c ∈ twoDigits hours ++ ':' :: twoDigits minutes, isAsciiDigit c ∨ c = ':' := by
      intro c hc
      simp only [List.mem_append, List.mem_cons] at hc
      rcases hc with hc | rfl | hc
      · exact Or.inl (twoDigits_digits (by omega) c hc)
      · exact Or.inr rfl
      · exact Or.inl (twoDigits_digits (by omega) c hc)
    have hback : ∀ c ∈ twoDigits hours ++ ':' :: twoDigits minutes, c ≠ '+' ∧ c ≠ '-' := by
      intro c hc
      rcases hdigits c hc with h | rfl
      · exact ⟨ne_of_digit h (by decide), ne_of_digit h (by decide)⟩
      · decide
    have hlast : (twoDigits hours ++ ':' :: twoDigits minutes).getLast? ≠ some 'Z' := by
      intro h
      rcases hdigits _ (List.mem_of_getLast? h) with h | h <;> cases h
    have hcolon : ':' ∉ twoDigits hours :=
      not_mem_of_digits (twoDigits_digits (by omega)) (by decide)
    have hsign : (if negative then '-' else '+') = '+' ∨ (if negative then '-' else '+') = '-' := by
      cases negative <;> simp
    have hnegative : decide ((if negative then '-' else '+') = '-') = negative := by
      cases negative <;> rfl
    rw [Zone.text, findOffset_sign hsign hback hlast,
      splitOnce_append hcolon, Option.bind_some, parseI64_twoDigits (by omega), Option.bind_some,
      parseI64_twoDigits (by omega), Option.bind_some, hnegative]

theorem readTime_text : readTime (String.ofList f.timeText) =
    some ((f.hour : Int), (f.minute : Int), (f.second : Int)) := by
  have hhour := f.hour_lt
  have hminute := f.minute_lt
  have hsecond := f.second_le
  have hpoint : ∀ c ∈ f.clockText, c ≠ '.' := by
    intro c hc
    rcases f.clockText_chars c hc with h | rfl
    · exact ne_of_digit h (by decide)
    · decide
  have hclock : f.timeText.takeWhile (· ≠ '.') = f.clockText := by
    unfold Stamp.timeText
    split_ifs
    · rw [List.append_nil]
      exact List.takeWhile_eq_self_iff.mpr (by simpa using hpoint)
    · exact TerminalText.takeWhile_append_of (by simpa using hpoint) (by simp) f.fraction
  have hcolon : ':' ∉ twoDigits f.hour :=
    not_mem_of_digits (twoDigits_digits (by omega)) (by decide)
  have hcolon' : ':' ∉ twoDigits f.minute :=
    not_mem_of_digits (twoDigits_digits (by omega)) (by decide)
  unfold readTime
  simp only [String.toList_ofList, hclock, Option.bind_eq_bind, Stamp.clockText]
  rw [splitOnce_append hcolon, Option.bind_some, splitOnce_append hcolon', Option.bind_some,
    parseI64_twoDigits (by omega), Option.bind_some, parseI64_twoDigits (by omega),
    Option.bind_some, parseI64_twoDigits (by omega), Option.bind_some]
  rfl

theorem humanText_toList (month : String) (d y h mi s : Int) : ∃ front,
    (humanText month d y h mi s).toList = front ++ ((pad2 s).toList ++ " UTC".toList) := by
  refine ⟨s!"{month} {d}, {y}, {pad2 h}:{pad2 mi}:".toList, ?_⟩
  simp [humanText]
  rfl

theorem parseI64_last {s : String} (hlast : ∀ c ∈ s.toList.getLast?, isAsciiDigit c = false) :
    parseI64 s = none := by
  have hbad : ∀ sign digits, s.toList = sign ++ digits →
      (digits.isEmpty || !digits.all isAsciiDigit) = true := by
    intro sign digits heq
    by_cases hempty : digits = []
    · simp [hempty]
    · rw [heq, List.getLast?_append_of_ne_nil _ hempty] at hlast
      have hend := List.getLast?_eq_getLast_of_ne_nil hempty
      have hall : digits.all isAsciiDigit = false := by
        rw [List.all_eq_false]
        exact ⟨_, List.getLast_mem hempty, by simp [hlast _ hend]⟩
      simp [hall]
  unfold parseI64
  split
  rename_i heq
  split at heq
  all_goals
    simp only [Prod.mk.injEq] at heq
    obtain ⟨rfl, rfl⟩ := heq
  · exact if_pos (hbad ['-'] _ ‹_›)
  · exact if_pos (hbad ['+'] _ ‹_›)
  · exact if_pos (hbad [] _ rfl)

/-- An offset ends in `Z` or in a digit. -/
theorem findOffset_last {s : String} {c : Char} (hlast : s.toList.getLast? = some c)
    (hZ : c ≠ 'Z') (hc : isAsciiDigit c = false) : findOffset s = none := by
  obtain ⟨chars, rfl⟩ : ∃ chars, s = String.ofList chars := ⟨s.toList, by simp⟩
  rw [String.toList_ofList] at hlast
  by_cases hsigns : ∃ c ∈ chars, c = '+' ∨ c = '-'
  · obtain ⟨front, sign, back, rfl, hsign, hback⟩ := exists_last hsigns
    have hback' : ∀ d ∈ back, d ≠ '+' ∧ d ≠ '-' := fun d hd =>
      ⟨fun h => hback d hd (Or.inl h), fun h => hback d hd (Or.inr h)⟩
    have hlast' : ∀ d, back.getLast? = some d → d = c := by
      intro d hd
      rw [List.getLast?_append, List.getLast?_cons, hd] at hlast
      simpa using hlast
    have hend : back.getLast? ≠ some 'Z' := fun h => hZ (hlast' _ h).symm
    rw [findOffset_sign hsign hback' hend]
    cases hsplit : splitOnce ':' (String.ofList back) with
    | none => rfl
    | some parts =>
      have hparts := splitOnce_some hsplit
      rw [String.toList_ofList] at hparts
      have hminutes : parseI64 parts.2 = none := by
        refine parseI64_last fun d hd => ?_
        have hdc : d = c := by
          refine hlast' d ?_
          rw [hparts, List.getLast?_append, List.getLast?_cons, Option.mem_def.mp hd]
          rfl
        rw [hdc, hc]
      simp [hminutes]
  · refine findOffset_none ?_ ?_
    · intro d hd
      exact ⟨fun h => hsigns ⟨d, hd, Or.inl h⟩, fun h => hsigns ⟨d, hd, Or.inr h⟩⟩
    · rw [hlast]
      simpa using hZ

section Shown

/-- What is shown is right: for a timestamp its instant, for another text the text itself. -/
def ShownRight (leapMinute : Int → Prop) (s : String) : Prop :=
  ∃ shown, formatRfc3339Human s = some shown ∧
    (∀ f, IsRfc3339 leapMinute s f → Names shown f.utcMinute f.second) ∧
    ((¬∃ f, IsRfc3339 leapMinute s f) → shown = s)

theorem parse_eq (s : String) : parseRfc3339Utc s = found (readDate s) >>= fun date =>
    splitOffset date.2.2.2 >>= fun time => found (readTime time.1) >>= fun clock =>
      daysFromCivil date.1 date.2.1 date.2.2.1 >>= fun days => mul days 86400 >>= fun a =>
        mul clock.1 3600 >>= fun b => add a b >>= fun c => mul clock.2.1 60 >>= fun d =>
          add c d >>= fun e => add e clock.2.2 >>= fun total =>
            sub total time.2 >>= textOfSeconds := rfl

theorem parse_rejected_iff (s : String) :
    parseRfc3339Utc s = .error .rejected ↔ Rejected s := by
  rw [parse_eq, rejected_iff]
  constructor
  · intro h date hdate
    rw [hdate] at h
    change (splitOffset date.2.2.2 >>= _) = _ at h
    cases hoffset : splitOffset date.2.2.2 with
    | error stop =>
      rw [hoffset] at h
      cases h
      exact ⟨by simp, fun time htime => by cases htime⟩
    | ok time =>
      refine ⟨by simp, fun time' htime => ?_⟩
      cases htime
      rw [hoffset, bind_ok] at h
      by_contra hne
      obtain ⟨clock, hclock⟩ := Option.ne_none_iff_exists'.mp hne
      rw [hclock] at h
      revert h
      refine bind_ne (fun h => nomatch h) fun clock => bind_ne (daysFromCivil_ne _ _ _) fun _ => ?_
      repeat refine bind_ne (checked_ne _) fun _ => ?_
      exact textOfSeconds_ne _
  · intro h
    cases hdate : readDate s with
    | none => rfl
    | some date =>
      obtain ⟨hfault, htime⟩ := h date hdate
      change (splitOffset date.2.2.2 >>= _) = _
      cases hoffset : splitOffset date.2.2.2 with
      | error stop =>
        cases stop with
        | rejected => rfl
        | fault => exact absurd hoffset hfault
      | ok time =>
        rw [bind_ok, htime time hoffset]
        rfl

theorem readDate_rest {s : String} {date : Int × Int × Int × String}
    (h : readDate s = some date) : ∃ front, s.toList = front ++ 'T' :: date.2.2.2.toList := by
  simp only [readDate, Option.bind_eq_bind, Option.bind_eq_some_iff, Option.pure_def,
    Option.some.injEq] at h
  obtain ⟨⟨front, rest⟩, hsplit, -, -, -, -, -, -, -, -, -, -, rfl⟩ := h
  exact ⟨front.toList, splitOnce_some hsplit⟩

theorem textOfSeconds_last {total : Int} {text : String} (h : textOfSeconds total = .ok text) :
    text.toList.getLast? = some 'C' := by
  unfold textOfSeconds at h
  dsimp only at h
  cases hcivil : civilFromDays (total / 86400) with
  | error stop =>
    rw [hcivil] at h
    cases h
  | ok date =>
    rw [hcivil, bind_ok] at h
    split at h
    · cases h
    · split_ifs at h
      cases h
      obtain ⟨front, hfront⟩ := humanText_toList _ date.2.2 date.1 _ _ _
      rw [hfront]
      simp

theorem parse_ok {s text : String} (h : parseRfc3339Utc s = .ok text) :
    (∃ date, readDate s = some date ∧ findOffset date.2.2.2 ≠ none) ∧
      ∃ total, textOfSeconds total = .ok text := by
  rw [parse_eq] at h
  obtain ⟨date, hdate, h⟩ := bind_eq_ok h
  obtain ⟨time, htime, h⟩ := bind_eq_ok h
  obtain ⟨clock, -, h⟩ := bind_eq_ok h
  obtain ⟨days, -, h⟩ := bind_eq_ok h
  obtain ⟨a, -, h⟩ := bind_eq_ok h
  obtain ⟨b, -, h⟩ := bind_eq_ok h
  obtain ⟨c, -, h⟩ := bind_eq_ok h
  obtain ⟨d, -, h⟩ := bind_eq_ok h
  obtain ⟨e, -, h⟩ := bind_eq_ok h
  obtain ⟨total, -, h⟩ := bind_eq_ok h
  obtain ⟨total', -, h⟩ := bind_eq_ok h
  refine ⟨⟨date, found_eq_ok hdate, ?_⟩, total', h⟩
  intro hnone
  rw [splitOffset, hnone] at htime
  cases htime

/-- A text that is formatted ends as no formatted text does. -/
theorem parse_ok_ne {s text : String} (h : parseRfc3339Utc s = .ok text) : text ≠ s := by
  rintro rfl
  obtain ⟨⟨date, hdate, hoffset⟩, total, htotal⟩ := parse_ok h
  obtain ⟨front, hfront⟩ := readDate_rest hdate
  have hlast := textOfSeconds_last htotal
  rw [hfront, List.getLast?_append, List.getLast?_cons] at hlast
  cases hrest : date.2.2.2.toList.getLast? with
  | none =>
    rw [hrest] at hlast
    simp at hlast
  | some c =>
    rw [hrest] at hlast
    obtain rfl : c = 'C' := by simpa using hlast
    exact hoffset (findOffset_last hrest (by decide) (by decide))

theorem splitOffset_text (hzone : f.zone ≠ .utc true) :
    splitOffset (String.ofList (f.timeText ++ f.zone.text)) =
      .ok (String.ofList f.timeText, f.zone.minutes * 60) := by
  have hrange := f.zone_inRange
  rw [splitOffset, findOffset_text]
  cases hz : f.zone with
  | utc lower =>
    cases lower with
    | false => rfl
    | true => exact absurd hz hzone
  | offset negative hours minutes =>
    rw [hz] at hrange
    obtain ⟨hhours, hminutes⟩ := hrange
    have hmul : mul (hours : Int) 3600 = .ok (hours * 3600) := mul_ok (by unfold Fits; omega)
    have hmul' : mul (minutes : Int) 60 = .ok (minutes * 60) := mul_ok (by unfold Fits; omega)
    have hadd : add (hours * 3600 : Int) (minutes * 60) = .ok (hours * 3600 + minutes * 60) :=
      add_ok (by unfold Fits; omega)
    have hsign : mul (if negative then -1 else 1) (hours * 3600 + minutes * 60 : Int) =
        .ok ((if negative then -1 else 1) * (hours * 60 + minutes) * 60) := by
      rw [mul_ok (by unfold Fits; split_ifs <;> omega)]
      congr 1
      split_ifs <;> omega
    change (mul (hours : Int) 3600 >>= fun a => mul (minutes : Int) 60 >>= fun b =>
      add a b >>= fun seconds => mul (if negative then -1 else 1) seconds >>= fun offset =>
        .ok (String.ofList f.timeText, offset)) = _
    rw [hmul, bind_ok, hmul', bind_ok, hadd, bind_ok, hsign, bind_ok]
    rfl

theorem lower_rejected (h : f.lowerT = true ∨ f.zone = .utc true) : Rejected f.text := by
  rw [rejected_iff]
  intro date hdate
  cases hT : f.lowerT with
  | true =>
    rw [readDate_lower f hT] at hdate
    cases hdate
  | false =>
    rw [readDate_text f hT] at hdate
    cases hdate
    have hzone : f.zone = .utc true := h.resolve_left (by simp [hT])
    have hnone : splitOffset (String.ofList (f.timeText ++ f.zone.text)) = .error .rejected := by
      rw [splitOffset, findOffset_text, hzone]
    simp only [hnone]
    exact ⟨by simp, fun time htime => by cases htime⟩

theorem Stamp.dayNumber_range :
    -1000000 ≤ f.date.dayNumber ∧ f.date.dayNumber ≤ 4000000 := by
  have hyear := f.year_range
  have hday := And.intro f.date.day_pos (f.date.day_le.trans (daysInMonth_le _ _))
  rw [dayNumber_march]
  unfold marchYear marchDays
  split_ifs <;> omega

theorem Zone.minutes_range {zone : Zone} (h : zone.InRange) :
    -1440 < zone.minutes ∧ zone.minutes < 1440 := by
  cases zone with
  | utc lower =>
    change (-1440 : Int) < 0 ∧ (0 : Int) < 1440
    decide
  | offset negative hours minutes =>
    obtain ⟨hhours, hminutes⟩ := h
    simp only [Zone.minutes]
    split_ifs <;> omega

/-- The reader's seconds are those of the timestamp. -/
theorem parse_text (hT : f.lowerT = false) (hzone : f.zone ≠ .utc true) :
    parseRfc3339Utc f.text = textOfSeconds (f.utcMinute * 60 + f.second) := by
  have hyear := f.year_range
  have hmonth := And.intro f.date.month_pos f.date.month_le
  have hday := And.intro f.date.day_pos (f.date.day_le.trans (daysInMonth_le _ _))
  have hnumber := f.dayNumber_range
  have hdays := daysFromCivil_ok (y := f.date.year) (m := f.date.month) (d := f.date.day)
    (by rw [dayNumber_civil]; unfold CivilRange; omega) (by omega) (by omega)
  rw [dayNumber_civil] at hdays
  have hhour := f.hour_lt
  have hminute := f.minute_lt
  have hsecond := f.second_le
  have hminutes := Zone.minutes_range f.zone_inRange
  obtain ⟨days, hdays'⟩ : ∃ days, days = f.date.dayNumber := ⟨_, rfl⟩
  obtain ⟨offset, hoffset⟩ : ∃ offset, offset = f.zone.minutes := ⟨_, rfl⟩
  rw [← hdays'] at hdays hnumber
  rw [← hoffset] at hminutes
  have h₁ : mul days 86400 = .ok (days * 86400) := mul_ok (by unfold Fits; omega)
  have h₂ : mul f.hour 3600 = .ok (f.hour * 3600 : Int) := mul_ok (by unfold Fits; omega)
  have h₃ : add (days * 86400) (f.hour * 3600) = .ok (days * 86400 + f.hour * 3600) :=
    add_ok (by unfold Fits; omega)
  have h₄ : mul f.minute 60 = .ok (f.minute * 60 : Int) := mul_ok (by unfold Fits; omega)
  have h₅ : add (days * 86400 + f.hour * 3600) (f.minute * 60) =
      .ok (days * 86400 + f.hour * 3600 + f.minute * 60) := add_ok (by unfold Fits; omega)
  have h₆ : add (days * 86400 + f.hour * 3600 + f.minute * 60) f.second =
      .ok (days * 86400 + f.hour * 3600 + f.minute * 60 + f.second) :=
    add_ok (by unfold Fits; omega)
  have h₇ : sub (days * 86400 + f.hour * 3600 + f.minute * 60 + f.second) (offset * 60) =
      .ok (f.utcMinute * 60 + f.second) := by
    rw [sub_ok (by unfold Fits; omega), Stamp.utcMinute, ← hdays', ← hoffset]
    congr 1
    omega
  rw [parse_eq, readDate_text f hT]
  simp only [found, bind_ok, splitOffset_text f hzone, readTime_text, hdays, ← hoffset]
  simp only [h₁, h₂, h₃, h₄, h₅, h₆, h₇, bind_ok]

theorem pad2_sixty {s : Int} (h : 0 ≤ s ∧ s < 60) {front back : List Char}
    (heq : front ++ ((pad2 s).toList ++ " UTC".toList) =
      back ++ ((pad2 60).toList ++ " UTC".toList)) : False := by
  have hsize : ((pad2 s).toList).length = 2 ∧ pad2 s ≠ pad2 60 := by
    have hall : ∀ s < 60, ((pad2 (s : Nat)).toList).length = 2 ∧ pad2 (s : Nat) ≠ pad2 60 := by
      decide
    have hs := hall s.toNat (by omega)
    rwa [Int.toNat_of_nonneg h.1] at hs
  have hsixty : ((pad2 60).toList).length = 2 := by decide
  have htail := List.append_inj_right' heq (by simp [hsize.1, hsixty])
  exact hsize.2 (String.toList_inj.mp (List.append_cancel_right htail))

/-- A second 60 is shown as the first of the next minute. -/
theorem not_names_sixty {text : String} {minute minute' second : Int}
    (h : Names text minute second) (hrange : 0 ≤ second ∧ second < 60) :
    ¬Names text minute' 60 := by
  rintro ⟨date', h', mi', month', -, -, -, -, htext'⟩
  obtain ⟨date, hour, mi, month, -, -, -, -, htext⟩ := h
  obtain ⟨front, hfront⟩ := humanText_toList month date.day date.year hour mi second
  obtain ⟨front', hfront'⟩ := humanText_toList month' date'.day date'.year h' mi' 60
  rw [← htext] at hfront
  rw [← htext', hfront] at hfront'
  exact pad2_sixty hrange hfront'

theorem text_last : ∃ c, f.text.toList.getLast? = some c ∧ c ≠ 'C' := by
  have hne : f.zone.text ≠ [] := by
    cases f.zone <;> simp [Zone.text]
  have hlast : f.text.toList.getLast? = some (f.zone.text.getLast hne) := by
    rw [Stamp.text, String.toList_ofList, ← List.cons_append, ← List.append_assoc,
      List.getLast?_append_of_ne_nil _ hne,
      List.getLast?_eq_getLast_of_ne_nil hne]
  refine ⟨_, hlast, ?_⟩
  rcases Zone.text_chars f.zone_inRange _ (List.getLast_mem hne) with h | h
  · exact ne_of_digit h (by decide)
  · intro heq
    rw [heq] at h
    revert h
    decide

theorem not_names_text (minute second : Int) : ¬Names f.text minute second := by
  rintro ⟨date, hour, mi, month, -, -, -, -, htext⟩
  obtain ⟨front, hfront⟩ := humanText_toList month date.day date.year hour mi second
  obtain ⟨c, hlast, hne⟩ := text_last f
  rw [htext, hfront] at hlast
  exact hne (by simpa using hlast.symm)

theorem format_rejected {s : String} (h : Rejected s) : formatRfc3339Human s = some s := by
  rw [formatRfc3339Human, (parse_rejected_iff s).mpr h]

theorem format_text (hT : f.lowerT = false) (hzone : f.zone ≠ .utc true) :
    ∃ shown, formatRfc3339Human f.text = some shown ∧
      Names shown ((f.utcMinute * 60 + f.second) / 60) ((f.utcMinute * 60 + f.second) % 60) := by
  have hnumber := f.dayNumber_range
  have hhour := f.hour_lt
  have hminute := f.minute_lt
  have hsecond := f.second_le
  have hminutes := Zone.minutes_range f.zone_inRange
  obtain ⟨text, htext, hnames⟩ := textOfSeconds_names (f.utcMinute * 60 + f.second)
    (by unfold Stamp.utcMinute; omega)
  refine ⟨text, ?_, hnames⟩
  rw [formatRfc3339Human, parse_text f hT hzone, htext]

/-- Two readings of one text have the same form and the same second. -/
theorem same_reading {g : Stamp} (heq : f.text = g.text) (hT : f.lowerT = false)
    (hzone : f.zone ≠ .utc true) :
    g.lowerT = false ∧ g.zone ≠ .utc true ∧ g.second = f.second := by
  have hdate := readDate_text f hT
  have hgT : g.lowerT = false := by
    by_contra h
    rw [heq, readDate_lower g (by simpa using h)] at hdate
    cases hdate
  rw [heq, readDate_text g hgT, Option.some.injEq, Prod.mk.injEq, Prod.mk.injEq,
    Prod.mk.injEq] at hdate
  have hoffset := splitOffset_text f hzone
  rw [← hdate.2.2.2] at hoffset
  have hgzone : g.zone ≠ .utc true := by
    intro h
    rw [splitOffset, findOffset_text, h] at hoffset
    cases hoffset
  rw [splitOffset_text g hgzone, Except.ok.injEq, Prod.mk.injEq] at hoffset
  have htime := readTime_text f
  rw [← hoffset.1, readTime_text, Option.some.injEq, Prod.mk.injEq, Prod.mk.injEq] at htime
  exact ⟨hgT, hgzone, by exact_mod_cast htime.2.2⟩

/-- The text shown is right exactly for the timestamps in capitals outside a leap second, and for
the other texts that the reader gives up on. -/
theorem formatRfc3339Human_right_iff (leapMinute : Int → Prop) (s : String) :
    ShownRight leapMinute s ↔
      (∃ f, IsRfc3339 leapMinute s f ∧ f.lowerT = false ∧ f.zone ≠ .utc true ∧ f.second < 60) ∨
        ((¬∃ f, IsRfc3339 leapMinute s f) ∧ Rejected s) := by
  constructor
  · rintro ⟨shown, hshown, hright, hraw⟩
    by_cases hvalid : ∃ f, IsRfc3339 leapMinute s f
    · left
      obtain ⟨f, hf⟩ := hvalid
      have hnames := hright f hf
      obtain ⟨rfl, hleap⟩ := hf
      have hcapital : ¬(f.lowerT = true ∨ f.zone = .utc true) := by
        intro hlower
        rw [format_rejected (lower_rejected f hlower)] at hshown
        cases hshown
        exact not_names_text f _ _ hnames
      rw [not_or, Bool.not_eq_true] at hcapital
      refine ⟨f, ⟨rfl, hleap⟩, hcapital.1, hcapital.2, ?_⟩
      by_contra hsixty
      have hsecond : f.second = 60 := le_antisymm f.second_le (by omega)
      obtain ⟨text, htext, hnames'⟩ := format_text f hcapital.1 hcapital.2
      rw [htext] at hshown
      cases hshown
      rw [hsecond] at hnames
      exact not_names_sixty hnames' (by omega) hnames
    · right
      refine ⟨hvalid, ?_⟩
      rw [hraw hvalid, formatRfc3339Human] at hshown
      split at hshown
      · rename_i text htext
        exact absurd (Option.some.inj hshown) (parse_ok_ne htext)
      · exact (parse_rejected_iff s).mp ‹_›
      · cases hshown
  · rintro (⟨f, ⟨rfl, hleap⟩, hT, hzone, hsecond⟩ | ⟨hvalid, hrejected⟩)
    · obtain ⟨text, htext, -⟩ := format_text f hT hzone
      refine ⟨text, htext, ?_, fun hnot => absurd ⟨f, rfl, hleap⟩ hnot⟩
      rintro g ⟨hg, -⟩
      obtain ⟨hgT, hgzone, hgsecond⟩ := same_reading f hg hT hzone
      obtain ⟨text', htext', hnames⟩ := format_text g hgT hgzone
      rw [hg, htext'] at htext
      cases htext
      have hminute : (g.utcMinute * 60 + g.second) / 60 = g.utcMinute := by omega
      have hrest : (g.utcMinute * 60 + g.second) % 60 = g.second := by omega
      rwa [hminute, hrest] at hnames
    · exact ⟨s, format_rejected hrejected, fun f hf => absurd ⟨f, hf⟩ hvalid, fun _ => rfl⟩

/-- Month 13 becomes the January after. -/
theorem month_thirteen_shown :
    ¬∀ (leapMinute : Int → Prop) (s : String), ShownRight leapMinute s := by
  intro h
  obtain ⟨shown, hshown, -, hraw⟩ := h (fun _ => False) "2026-13-01T10:17:56Z"
  have hformat : formatRfc3339Human "2026-13-01T10:17:56Z" =
      some "Jan 1, 2027, 10:17:56 UTC" := by decide
  rw [hformat] at hshown
  cases hshown
  refine absurd (hraw ?_) (by decide)
  rintro ⟨f, hf, -⟩
  have hread : readDate "2026-13-01T10:17:56Z" = some (2026, 13, 1, "10:17:56Z") := by decide
  rw [hf] at hread
  cases hT : f.lowerT with
  | true =>
    rw [readDate_lower f hT] at hread
    cases hread
  | false =>
    rw [readDate_text f hT, Option.some.injEq, Prod.mk.injEq, Prod.mk.injEq] at hread
    have hmonth := f.date.month_le
    omega

end Shown

end Rfc3339
