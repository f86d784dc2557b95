import AgsCli.Invocation.CliInputs
import AgsCli.Library.Calendar
import AgsCli.Support.TerminalText

/-! # Timestamps for people

`format_rfc3339_human`: an RFC 3339 text read into integers, moved to UTC through day numbers, and
printed; or left as it is. The arithmetic is that of `i64`. -/
namespace Timestamps

open Strings CliInputs Calendar

/-- Why there is no formatted text: the reader gives up, or an integer leaves its range. -/
inductive Stop
  | rejected
  | fault
  deriving DecidableEq

abbrev Read (α : Type) := Except Stop α

def found {α : Type} : Option α → Read α
  | some a => .ok a
  | none => .error .rejected

def Fits (n : Int) : Prop := -9223372036854775808 ≤ n ∧ n ≤ 9223372036854775807

instance (n : Int) : Decidable (Fits n) := inferInstanceAs (Decidable (_ ∧ _))

def checked (n : Int) : Read Int := if Fits n then .ok n else .error .fault

def add (a b : Int) : Read Int := checked (a + b)
def sub (a b : Int) : Read Int := checked (a - b)
def mul (a b : Int) : Read Int := checked (a * b)

def asU32 (n : Int) : Int := n % 4294967296

def monthNames : List String :=
  ["Jan", "Feb", "Mar", "Apr", "May", "Jun", "Jul", "Aug", "Sep", "Oct", "Nov", "Dec"]

/-- `/` and `%` of `i64` truncate. -/
def daysFromCivil (y m d : Int) : Read Int := do
  let y ← (if m ≤ 2 then sub y 1 else .ok y)
  let shifted ← (if 0 ≤ y then .ok y else sub y 399)
  let era := shifted.tdiv 400
  let yoe ← sub y (← mul era 400)
  let mp := (← add m 9).tmod 12
  let doy ← sub (← add ((← add (← mul 153 mp) 2).tdiv 5) d) 1
  let doe ← add (← sub (← add (← mul yoe 365) (yoe.tdiv 4)) (yoe.tdiv 100)) doy
  sub (← add (← mul era 146097) doe) 719468

def civilFromDays (z : Int) : Read (Int × Int × Int) := do
  let z ← add z 719468
  let shifted ← (if 0 ≤ z then .ok z else sub z 146096)
  let era := shifted.tdiv 146097
  let doe ← sub z (← mul era 146097)
  let yoe := (← sub (← add (← sub doe (doe.tdiv 1460)) (doe.tdiv 36524))
    (doe.tdiv 146096)).tdiv 365
  let y ← add yoe (← mul era 400)
  let doy ← sub doe (← sub (← add (← mul 365 yoe) (yoe.tdiv 4)) (yoe.tdiv 100))
  let mp := (← add (← mul 5 doy) 2).tdiv 153
  let d := asU32 (← add (← sub doy ((← add (← mul 153 mp) 2).tdiv 5)) 1)
  let m := asU32 (← (if mp < 10 then add mp 3 else sub mp 9))
  let y ← (if m ≤ 2 then add y 1 else .ok y)
  return (y, m, d)

def pad2 (n : Int) : String := if 0 ≤ n ∧ n < 10 then s!"0{n}" else s!"{n}"

def humanText (month : String) (d y h mi s : Int) : String :=
  s!"{month} {d}, {y}, {pad2 h}:{pad2 mi}:{pad2 s} UTC"

def readDate (raw : String) : Option (Int × Int × Int × String) := do
  let (date, rest) ← splitOnce 'T' raw
  let (year, monthDay) ← splitOnce '-' date
  let (month, day) ← splitOnce '-' monthDay
  return (← parseI64 year, ← parseU32 month.toList, ← parseU32 day.toList, rest)

/-- The text before a final `Z`, or before the last sign and what follows it. -/
def findOffset (time : String) : Option (String × Option (Bool × Int × Int)) :=
  match stripSuffix? "Z" time with
  | some t => some (t, none)
  | none => do
    let back := time.toList.reverse.takeWhile fun c => c ≠ '+' ∧ c ≠ '-'
    let sign ← (time.toList.reverse.drop back.length).head?
    let t := ((time.toList.reverse.drop back.length).drop 1).reverse
    let (oh, om) ← splitOnce ':' (String.ofList back.reverse)
    return (String.ofList t, some (decide (sign = '-'), ← parseI64 oh, ← parseI64 om))

def splitOffset (time : String) : Read (String × Int) :=
  match findOffset time with
  | none => .error .rejected
  | some (t, none) => .ok (t, 0)
  | some (t, some (negative, oh, om)) => do
    let seconds ← add (← mul oh 3600) (← mul om 60)
    return (t, ← mul (if negative then -1 else 1) seconds)

def readTime (time : String) : Option (Int × Int × Int) := do
  let clock := String.ofList (time.toList.takeWhile (· ≠ '.'))
  let (hour, minuteSecond) ← splitOnce ':' clock
  let (minute, second) ← splitOnce ':' minuteSecond
  return (← parseI64 hour, ← parseI64 minute, ← parseI64 second)

/-- The second half of `parse_rfc3339_utc`: a number of seconds as the text of its instant. -/
def textOfSeconds (total : Int) : Read String := do
  let daysUtc := total / 86400
  let secOfDay := total % 86400
  let (y, m, d) ← civilFromDays daysUtc
  let h := secOfDay / 3600
  let secOfHour := secOfDay % 3600
  match monthNames[(m - 1).toNat]? with
  | none => .error .fault
  | some month =>
    if m = 0 then .error .fault
    else return humanText month d y h (secOfHour / 60) (secOfHour % 60)

def parseRfc3339Utc (raw : String) : Read String := do
  let (year, month, day, rest) ← found (readDate raw)
  let (time, offsetSeconds) ← splitOffset rest
  let (hour, minute, second) ← found (readTime time)
  let days ← daysFromCivil year month day
  textOfSeconds (← sub (← add (← add (← add (← mul days 86400) (← mul hour 3600))
    (← mul minute 60)) second) offsetSeconds)

/-- Nothing is a panic or an overflow. -/
def formatRfc3339Human (raw : String) : Option String :=
  match parseRfc3339Utc raw with
  | .ok text => some text
  | .error .rejected => some raw
  | .error .fault => none

section Arithmetic

theorem checked_ok {n : Int} (h : Fits n) : checked n = .ok n := if_pos h

theorem bind_ok {α β : Type} (a : α) (f : α → Read β) : (Except.ok a >>= f) = f a := by
  simp only [bind, Except.bind]

theorem bind_eq_ok {α β : Type} {x : Read α} {f : α → Read β} {b : β}
    (h : (x >>= f) = .ok b) : ∃ a, x = .ok a ∧ f a = .ok b := by
  cases x with
  | ok a => exact ⟨a, rfl, h⟩
  | error stop => cases h

theorem found_eq_ok {α : Type} {x : Option α} {a : α} (h : found x = .ok a) : x = some a := by
  cases x with
  | some b =>
    cases h
    rfl
  | none => cases h

theorem add_ok {a b : Int} (h : Fits (a + b)) : add a b = .ok (a + b) := checked_ok h

theorem sub_ok {a b : Int} (h : Fits (a - b)) : sub a b = .ok (a - b) := checked_ok h

theorem mul_ok {a b : Int} (h : Fits (a * b)) : mul a b = .ok (a * b) := checked_ok h

theorem shifted_ok {y k : Int} (h : Fits (y - k)) :
    (if 0 ≤ y then .ok y else sub y k) = (.ok (if 0 ≤ y then y else y - k) : Read Int) := by
  split_ifs
  · rfl
  · exact sub_ok h

/-- The division by 400 years rounds down. -/
theorem era_years (y : Int) : (if 0 ≤ y then y else y - 399).tdiv 400 = y / 400 := by
  split_ifs with hy
  · exact Int.tdiv_eq_ediv_of_nonneg hy
  · rw [Int.tdiv_eq_ediv, Int.sign_eq_one_of_pos (by decide)]
    split_ifs <;> omega

theorem era_days (z : Int) : (if 0 ≤ z then z else z - 146096).tdiv 146097 = z / 146097 := by
  split_ifs with hz
  · exact Int.tdiv_eq_ediv_of_nonneg hz
  · rw [Int.tdiv_eq_ediv, Int.sign_eq_one_of_pos (by decide)]
    split_ifs <;> omega

/-- A year and its month, 400 years at a time. -/
def civilNumber (y m d : Int) : Int :=
  365 * marchYear y m + marchYear y m / 4 - marchYear y m / 100 + marchYear y m / 400 +
    marchDays m + d - 1 - 719468

/-- The day numbers that 400 years of days can be taken off without an overflow. -/
def CivilRange (n : Int) : Prop := -9223372036854775808 ≤ n ∧ n + 719468 ≤ 9223372036854775807

theorem dayNumber_civil (date : Date) :
    civilNumber date.year date.month date.day = date.dayNumber := (dayNumber_march date).symm

/-- Away from the ends of `i64` the day number is that of the calendar's formula. -/
theorem daysFromCivil_ok {y m d : Int} (hn : CivilRange (civilNumber y m d))
    (hm : 0 ≤ m ∧ m ≤ 12) (hd : 0 ≤ d ∧ d ≤ 31) :
    daysFromCivil y m d = .ok (civilNumber y m d) := by
  obtain ⟨year, hyear⟩ : ∃ year, year = marchYear y m := ⟨_, rfl⟩
  obtain ⟨era, hera⟩ : ∃ era, era = year / 400 := ⟨_, rfl⟩
  obtain ⟨yoe, hyoe⟩ : ∃ yoe, yoe = year - era * 400 := ⟨_, rfl⟩
  obtain ⟨mp, hmp⟩ : ∃ mp, mp = (m + 9) % 12 := ⟨_, rfl⟩
  obtain ⟨doy, hdoy⟩ : ∃ doy, doy = (153 * mp + 2) / 5 + d - 1 := ⟨_, rfl⟩
  obtain ⟨doe, hdoe⟩ : ∃ doe, doe = yoe * 365 + yoe / 4 - yoe / 100 + doy := ⟨_, rfl⟩
  have hyoe' : 0 ≤ yoe ∧ yoe ≤ 399 := by omega
  have hmp' : 0 ≤ mp ∧ mp ≤ 11 := by omega
  have hdoe' : -1 ≤ doe ∧ doe ≤ 146100 := by omega
  have hnumber : civilNumber y m d = era * 146097 + doe - 719468 := by
    have h4 : year / 4 = yoe / 4 + era * 100 := by omega
    have h100 : year / 100 = yoe / 100 + era * 4 := by omega
    rw [civilNumber, ← hyear, marchDays, ← hmp, h4, h100, ← hera]
    omega
  obtain ⟨hlow, hhigh⟩ := hn
  rw [hnumber] at hlow hhigh ⊢
  have hrange : -30000000000000000 ≤ year ∧ year ≤ 30000000000000000 := by omega
  have hmarch : (if m ≤ 2 then sub y 1 else .ok y) = (.ok year : Read Int) := by
    unfold marchYear at hyear
    split_ifs at hyear ⊢
    · rw [hyear]
      exact sub_ok (by unfold Fits; omega)
    · rw [hyear]
  have hmonth : (153 * mp + 2).tdiv 5 = (153 * mp + 2) / 5 :=
    Int.tdiv_eq_ediv_of_nonneg (by omega)
  have hfour : yoe.tdiv 4 = yoe / 4 := Int.tdiv_eq_ediv_of_nonneg hyoe'.1
  have hhundred : yoe.tdiv 100 = yoe / 100 := Int.tdiv_eq_ediv_of_nonneg hyoe'.1
  have hmod : (m + 9).tmod 12 = mp := by rw [Int.tmod_eq_emod_of_nonneg (by omega), hmp]
  have hshift : (if 0 ≤ year then .ok year else sub year 399) =
      (.ok (if 0 ≤ year then year else year - 399) : Read Int) :=
    shifted_ok (by unfold Fits; omega)
  have hyears := era_years year
  rw [← hera] at hyears
  unfold daysFromCivil
  rw [hmarch, bind_ok, hshift, bind_ok]
  simp only [hyears]
  simp (disch := (unfold Fits; omega)) only [bind_ok, mul_ok, sub_ok, ← hyoe, add_ok, hmod,
    hmonth, hfour, hhundred, ← hdoy, ← hdoe]

theorem civilFromDays_ok {z : Int} (hz : CivilRange z) :
    ∃ date : Date, date.dayNumber = z ∧
      civilFromDays z = .ok (date.year, date.month, date.day) := by
  obtain ⟨hlow, hhigh⟩ := hz
  obtain ⟨era, hera⟩ : ∃ era, era = (z + 719468) / 146097 := ⟨_, rfl⟩
  obtain ⟨doe, hdoe⟩ : ∃ doe, doe = z + 719468 - era * 146097 := ⟨_, rfl⟩
  have hdoe' : 0 ≤ doe ∧ doe < 146097 := by omega
  obtain ⟨century, group, single, doy, hday⟩ := eraDay_of_range hdoe'.1 hdoe'.2
  obtain ⟨yoe, hyoe⟩ : ∃ yoe, yoe = 100 * century + 4 * group + single := ⟨_, rfl⟩
  have hyear := hday.year
  have hover := hday.doy_eq
  rw [← hyoe] at hyear hover
  have hdoy := hday.doyRange
  have hyoe' : 0 ≤ yoe ∧ yoe ≤ 399 := by
    have hranges := And.intro hday.centuryRange (And.intro hday.groupRange hday.singleRange)
    omega
  obtain ⟨mp, hmp⟩ : ∃ mp, mp = (5 * doy + 2) / 153 := ⟨_, rfl⟩
  have hmp' : 0 ≤ mp ∧ mp ≤ 11 := by omega
  obtain ⟨date, hmonth, hdate, hdateYear, hnumber⟩ := exists_date_of_march (y := yoe + era * 400)
    hdoy.1 hdoy.2 fun hlast => by
      have hleap := hday.isLeap hlast era
      rwa [← hyoe, add_comm (400 * era), mul_comm 400] at hleap
  obtain ⟨m, hm⟩ : ∃ m, m = if mp < 10 then mp + 3 else mp - 9 := ⟨_, rfl⟩
  have hm' : 1 ≤ m ∧ m ≤ 12 := by
    rw [hm]
    split_ifs <;> omega
  have hshift : (if 0 ≤ z + 719468 then .ok (z + 719468) else sub (z + 719468) 146096) =
      (.ok (if 0 ≤ z + 719468 then z + 719468 else z + 719468 - 146096) : Read Int) :=
    shifted_ok (by unfold Fits; omega)
  have hdays := era_days (z + 719468)
  have hpick : (if mp < 10 then add mp 3 else sub mp 9) = (.ok m : Read Int) := by
    rw [hm]
    split_ifs
    · exact add_ok (by unfold Fits; omega)
    · exact sub_ok (by unfold Fits; omega)
  have hlast : (if m ≤ 2 then add (yoe + era * 400) 1 else .ok (yoe + era * 400)) =
      (.ok (if m ≤ 2 then yoe + era * 400 + 1 else yoe + era * 400) : Read Int) := by
    split_ifs
    · exact add_ok (by unfold Fits; omega)
    · rfl
  have h1460 : doe.tdiv 1460 = doe / 1460 := Int.tdiv_eq_ediv_of_nonneg hdoe'.1
  have h36524 : doe.tdiv 36524 = doe / 36524 := Int.tdiv_eq_ediv_of_nonneg hdoe'.1
  have h146096 : doe.tdiv 146096 = doe / 146096 := Int.tdiv_eq_ediv_of_nonneg hdoe'.1
  have h365 : (doe - doe / 1460 + doe / 36524 - doe / 146096).tdiv 365 = yoe := by
    rw [Int.tdiv_eq_ediv_of_nonneg (by omega), hyear]
  have hfour : yoe.tdiv 4 = yoe / 4 := Int.tdiv_eq_ediv_of_nonneg hyoe'.1
  have hhundred : yoe.tdiv 100 = yoe / 100 := Int.tdiv_eq_ediv_of_nonneg hyoe'.1
  have h153 : (5 * doy + 2).tdiv 153 = mp := by
    rw [Int.tdiv_eq_ediv_of_nonneg (by omega), hmp]
  have hfive : (153 * mp + 2).tdiv 5 = (153 * mp + 2) / 5 :=
    Int.tdiv_eq_ediv_of_nonneg (by omega)
  have hdayU32 : asU32 (doy - (153 * mp + 2) / 5 + 1) = doy - (153 * mp + 2) / 5 + 1 :=
    Int.emod_eq_of_lt (by omega) (by omega)
  have hmonthU32 : asU32 m = m := Int.emod_eq_of_lt (by omega) (by omega)
  rw [← hmp, ← hm] at hmonth
  rw [← hmp] at hdate
  rw [hmonth] at hdateYear
  have hsum : date.dayNumber = z := by
    have h4 : (yoe + era * 400) / 4 = yoe / 4 + era * 100 := by omega
    have h100 : (yoe + era * 400) / 100 = yoe / 100 + era * 4 := by omega
    have h400 : (yoe + era * 400) / 400 = era := by omega
    rw [hnumber, h4, h100, h400]
    omega
  -- every checked step, in the order of the source
  have hmul : mul era 146097 = .ok (era * 146097) := mul_ok (by unfold Fits; omega)
  have hrest : sub (z + 719468) (era * 146097) = .ok doe := by
    rw [hdoe]
    exact sub_ok (by unfold Fits; omega)
  have hyears : sub doe (doe / 1460) = .ok (doe - doe / 1460) := sub_ok (by unfold Fits; omega)
  have hyears' : add (doe - doe / 1460) (doe / 36524) = .ok (doe - doe / 1460 + doe / 36524) :=
    add_ok (by unfold Fits; omega)
  have hyears'' : sub (doe - doe / 1460 + doe / 36524) (doe / 146096) =
      .ok (doe - doe / 1460 + doe / 36524 - doe / 146096) := sub_ok (by unfold Fits; omega)
  have hbase : mul era 400 = .ok (era * 400) := mul_ok (by unfold Fits; omega)
  have hyear' : add yoe (era * 400) = .ok (yoe + era * 400) := add_ok (by unfold Fits; omega)
  have hover₁ : mul 365 yoe = .ok (365 * yoe) := mul_ok (by unfold Fits; omega)
  have hover₂ : add (365 * yoe) (yoe / 4) = .ok (365 * yoe + yoe / 4) :=
    add_ok (by unfold Fits; omega)
  have hover₃ : sub (365 * yoe + yoe / 4) (yoe / 100) = .ok (365 * yoe + yoe / 4 - yoe / 100) :=
    sub_ok (by unfold Fits; omega)
  have hover₄ : sub doe (365 * yoe + yoe / 4 - yoe / 100) = .ok doy := by
    rw [← hover]
    exact sub_ok (by unfold Fits; omega)
  have hmonth₁ : mul 5 doy = .ok (5 * doy) := mul_ok (by unfold Fits; omega)
  have hmonth₂ : add (5 * doy) 2 = .ok (5 * doy + 2) := add_ok (by unfold Fits; omega)
  have hday₁ : mul 153 mp = .ok (153 * mp) := mul_ok (by unfold Fits; omega)
  have hday₂ : add (153 * mp) 2 = .ok (153 * mp + 2) := add_ok (by unfold Fits; omega)
  have hday₃ : sub doy ((153 * mp + 2) / 5) = .ok (doy - (153 * mp + 2) / 5) :=
    sub_ok (by unfold Fits; omega)
  have hday₄ : add (doy - (153 * mp + 2) / 5) 1 = .ok (doy - (153 * mp + 2) / 5 + 1) :=
    add_ok (by unfold Fits; omega)
  refine ⟨date, hsum, ?_⟩
  rw [hmonth, hdate, hdateYear]
  unfold civilFromDays
  rw [add_ok (by unfold Fits; omega), bind_ok]
  simp only [hshift, bind_ok, hdays, ← hera, hmul, hrest, h1460, h36524, h146096, hyears, hyears',
    hyears'', h365, hbase, hyear', hfour, hhundred, hover₁, hover₂, hover₃, hover₄, hmonth₁,
    hmonth₂, h153, hday₁, hday₂, hfive, hday₃, hday₄, hdayU32, hpick, hmonthU32, hlast]
  rfl

end Arithmetic

/-- A text names an instant: its minute since 1970, in UTC, and the second in it. -/
def Names (text : String) (minute second : Int) : Prop :=
  ∃ (date : Date) (h mi : Int) (month : String),
    (0 ≤ h ∧ h < 24) ∧ (0 ≤ mi ∧ mi < 60) ∧
    date.dayNumber * 1440 + h * 60 + mi = minute ∧
    monthNames[(date.month - 1).toNat]? = some month ∧
    text = humanText month date.day date.year h mi second

theorem monthNames_isSome {m : Int} (hpos : 1 ≤ m) (hle : m ≤ 12) :
    ∃ month, monthNames[(m - 1).toNat]? = some month := by
  have hlt : (m - 1).toNat < monthNames.length := by
    change (m - 1).toNat < 12
    omega
  exact ⟨_, List.getElem?_eq_getElem hlt⟩

theorem textOfSeconds_names (total : Int)
    (h : -1000000000000 ≤ total ∧ total ≤ 1000000000000) :
    ∃ text, textOfSeconds total = .ok text ∧ Names text (total / 60) (total % 60) := by
  obtain ⟨date, hnumber, hcivil⟩ := civilFromDays_ok (z := total / 86400)
    (by unfold CivilRange; omega)
  obtain ⟨month, hmonth⟩ := monthNames_isSome date.month_pos date.month_le
  have hpos := date.month_pos
  refine ⟨humanText month date.day date.year (total % 86400 / 3600)
    (total % 86400 % 3600 / 60) (total % 86400 % 3600 % 60), ?_, ?_⟩
  · unfold textOfSeconds
    simp only [hcivil, bind_ok, hmonth]
    rw [if_neg (by omega)]
    rfl
  · refine ⟨date, total % 86400 / 3600, total % 86400 % 3600 / 60, month, by omega, by omega,
      by omega, hmonth, ?_⟩
    have hsecond : total % 86400 % 3600 % 60 = total % 60 := by omega
    rw [hsecond]

section Rejections

/-! Arithmetic leaves its range; it does not reject. -/

theorem checked_ne (n : Int) : checked n ≠ .error .rejected := by
  unfold checked
  split_ifs <;> simp

theorem bind_ne {α β : Type} {x : Read α} {f : α → Read β} (hx : x ≠ .error .rejected)
    (hf : ∀ a, f a ≠ .error .rejected) : (x >>= f) ≠ .error .rejected := by
  cases x with
  | ok a => exact hf a
  | error stop =>
    intro h
    cases h
    exact hx rfl

theorem daysFromCivil_ne (y m d : Int) : daysFromCivil y m d ≠ .error .rejected := by
  unfold daysFromCivil add sub mul
  dsimp only
  repeat' first
    | exact checked_ne _
    | refine bind_ne ?_ fun _ => ?_
    | (split_ifs <;> first | exact checked_ne _ | simp)

theorem civilFromDays_ne (z : Int) : civilFromDays z ≠ .error .rejected := by
  unfold civilFromDays add sub mul
  dsimp only
  repeat' first
    | exact checked_ne _
    | refine bind_ne ?_ fun _ => ?_
    | (split_ifs <;> first | exact checked_ne _ | simp)
  exact fun h => nomatch h

theorem textOfSeconds_ne (total : Int) : textOfSeconds total ≠ .error .rejected := by
  unfold textOfSeconds
  dsimp only
  refine bind_ne (civilFromDays_ne _) fun date => ?_
  split
  · simp
  · split_ifs
    · simp
    · intro h
      cases h

end Rejections

end Timestamps
