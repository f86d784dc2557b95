import Mathlib.Tactic.Common
import Mathlib.Tactic.IntervalCases

/-! # The proleptic Gregorian calendar

Dates, the day after a date, and the number of days since 1970-01-01. Years are counted from March
where that makes the lengths of the months regular. -/
namespace Calendar

def IsLeap (y : Int) : Prop := y % 4 = 0 ∧ (y % 100 ≠ 0 ∨ y % 400 = 0)

instance (y : Int) : Decidable (IsLeap y) := inferInstanceAs (Decidable (_ ∧ _))

def daysInMonth (y m : Int) : Int :=
  if m = 2 then if IsLeap y then 29 else 28
  else if m = 4 ∨ m = 6 ∨ m = 9 ∨ m = 11 then 30 else 31

structure Date where
  year : Int
  month : Int
  day : Int
  month_pos : 1 ≤ month
  month_le : month ≤ 12
  day_pos : 1 ≤ day
  day_le : day ≤ daysInMonth year month

theorem daysInMonth_pos (y m : Int) : 1 ≤ daysInMonth y m := by
  unfold daysInMonth
  split_ifs <;> omega

theorem daysInMonth_le (y m : Int) : daysInMonth y m ≤ 31 := by
  unfold daysInMonth
  split_ifs <;> omega

def Date.next (d : Date) : Date :=
  if hday : d.day < daysInMonth d.year d.month then
    ⟨d.year, d.month, d.day + 1, d.month_pos, d.month_le, by have := d.day_pos; omega, hday⟩
  else if hmonth : d.month < 12 then
    ⟨d.year, d.month + 1, 1, by have := d.month_pos; omega, hmonth, le_rfl, daysInMonth_pos _ _⟩
  else ⟨d.year + 1, 1, 1, le_rfl, by decide, le_rfl, daysInMonth_pos _ _⟩

def daysBeforeMonth (y m : Int) : Int :=
  ((List.range (m - 1).toNat).map fun (k : Nat) => daysInMonth y (k + 1)).sum

def daysBeforeYear (y : Int) : Int := 365 * y + (y - 1) / 4 - (y - 1) / 100 + (y - 1) / 400

/-- Days since 1970-01-01. -/
def Date.dayNumber (d : Date) : Int :=
  daysBeforeYear d.year + daysBeforeMonth d.year d.month + d.day - 1 - 719527

theorem daysBeforeMonth_succ (y : Int) {m : Int} (h : 1 ≤ m) :
    daysBeforeMonth y (m + 1) = daysBeforeMonth y m + daysInMonth y m := by
  obtain ⟨k, rfl⟩ : ∃ k : Nat, m = k + 1 := ⟨(m - 1).toNat, by omega⟩
  have hnext : ((k : Int) + 1 + 1 - 1).toNat = k + 1 := by omega
  have hsame : ((k : Int) + 1 - 1).toNat = k := by omega
  rw [daysBeforeMonth, daysBeforeMonth, hnext, hsame, List.range_succ, List.map_append,
    List.sum_append, List.map_singleton, List.sum_singleton]

theorem daysBeforeMonth_december (y : Int) :
    daysBeforeMonth y 12 = if IsLeap y then 335 else 334 := by
  simp only [daysBeforeMonth, daysInMonth]
  by_cases hleap : IsLeap y
  · rw [if_pos hleap, if_pos hleap]
    decide
  · rw [if_neg hleap, if_neg hleap]
    decide

/-- The leap days are counted by the multiples of 4, 100 and 400. -/
theorem leap_steps (y : Int) : y / 4 - y / 100 + y / 400 =
    (y - 1) / 4 - (y - 1) / 100 + (y - 1) / 400 + if IsLeap y then 1 else 0 := by
  have hfour : y / 4 = (y - 1) / 4 + if y % 4 = 0 then 1 else 0 := by split_ifs <;> omega
  have hcentury : y / 100 = (y - 1) / 100 + if y % 100 = 0 then 1 else 0 := by
    split_ifs <;> omega
  have hera : y / 400 = (y - 1) / 400 + if y % 400 = 0 then 1 else 0 := by split_ifs <;> omega
  have hmultiple : y % 100 = 0 → y % 4 = 0 := by omega
  have hmultiple' : y % 400 = 0 → y % 100 = 0 := by omega
  rw [hfour, hcentury, hera]
  generalize (y - 1) / 4 = a, (y - 1) / 100 = b, (y - 1) / 400 = c
  by_cases hy : y % 100 = 0
  · have hleap : IsLeap y ↔ y % 400 = 0 :=
      ⟨fun h => h.2.resolve_left (· hy), fun h => ⟨hmultiple hy, Or.inr h⟩⟩
    rw [if_pos (hmultiple hy), if_pos hy]
    simp only [hleap]
    omega
  · have hleap : IsLeap y ↔ y % 4 = 0 := ⟨And.left, fun h => ⟨h, Or.inl hy⟩⟩
    rw [if_neg hy, if_neg fun h => hy (hmultiple' h)]
    simp only [hleap]
    omega

theorem daysBeforeYear_succ (y : Int) :
    daysBeforeYear (y + 1) = daysBeforeYear y + if IsLeap y then 366 else 365 := by
  have hsteps := leap_steps y
  unfold daysBeforeYear
  rw [show y + 1 - 1 = y by omega]
  generalize y / 4 = a, y / 100 = b, y / 400 = c at hsteps ⊢
  generalize (y - 1) / 4 = a', (y - 1) / 100 = b', (y - 1) / 400 = c' at hsteps ⊢
  split_ifs at hsteps ⊢ <;> omega

theorem dayNumber_next (d : Date) : d.next.dayNumber = d.dayNumber + 1 := by
  have hday := d.day_le
  unfold Date.next
  split_ifs with hinside hmonth
  · simp only [Date.dayNumber]
    omega
  · have hstep := daysBeforeMonth_succ d.year d.month_pos
    simp only [Date.dayNumber, hstep]
    omega
  · have hdecember : d.month = 12 := by
      have hle := d.month_le
      omega
    have hlast : daysInMonth d.year 12 = 31 := rfl
    have hfirst : daysBeforeMonth (d.year + 1) 1 = 0 := rfl
    rw [hdecember, hlast] at hinside hday
    simp only [Date.dayNumber, daysBeforeYear_succ, hdecember, daysBeforeMonth_december, hfirst]
    split_ifs <;> omega

theorem daysBeforeMonth_mono (y : Int) {m m' : Int} (hpos : 1 ≤ m) (hle : m ≤ m') :
    daysBeforeMonth y m ≤ daysBeforeMonth y m' := by
  induction m', hle using Int.leInduction with
  | base => exact le_rfl
  | succ n hmn ih =>
    have hstep := daysBeforeMonth_succ y (hpos.trans hmn)
    have hmonth := daysInMonth_pos y n
    omega

theorem daysBeforeYear_mono {y y' : Int} (h : y ≤ y') : daysBeforeYear y ≤ daysBeforeYear y' := by
  unfold daysBeforeYear
  omega

theorem day_in_year (d : Date) : 1 ≤ daysBeforeMonth d.year d.month + d.day ∧
    daysBeforeMonth d.year d.month + d.day ≤ if IsLeap d.year then 366 else 365 := by
  have hlow := daysBeforeMonth_mono d.year le_rfl d.month_pos
  have hfirst : daysBeforeMonth d.year 1 = 0 := rfl
  have hpos : 1 ≤ d.month + 1 := by have := d.month_pos; omega
  have hhigh := daysBeforeMonth_mono d.year hpos (show d.month + 1 ≤ 13 by
    have := d.month_le
    omega)
  have hstep := daysBeforeMonth_succ d.year d.month_pos
  have hyear : daysBeforeMonth d.year 13 = daysBeforeMonth d.year 12 + 31 :=
    daysBeforeMonth_succ d.year (m := 12) (by decide)
  rw [daysBeforeMonth_december] at hyear
  have hday := And.intro d.day_pos d.day_le
  split_ifs at hyear ⊢ <;> omega

theorem dayNumber_lt_of_year {d e : Date} (h : d.year < e.year) : d.dayNumber < e.dayNumber := by
  have hd := (day_in_year d).2
  have he := (day_in_year e).1
  have hnext := daysBeforeYear_succ d.year
  have hmono := daysBeforeYear_mono (show d.year + 1 ≤ e.year from h)
  unfold Date.dayNumber
  omega

theorem dayNumber_lt_of_month {d e : Date} (hyear : d.year = e.year) (h : d.month < e.month) :
    d.dayNumber < e.dayNumber := by
  have hstep := daysBeforeMonth_succ d.year d.month_pos
  have hpos : 1 ≤ d.month + 1 := by have := d.month_pos; omega
  have hmono := daysBeforeMonth_mono d.year hpos (show d.month + 1 ≤ e.month from h)
  have hd := d.day_le
  have he := e.day_pos
  unfold Date.dayNumber
  rw [← hyear]
  omega

theorem dayNumber_injective : Function.Injective Date.dayNumber := by
  intro d e h
  have hyear : d.year = e.year := by
    rcases lt_trichotomy d.year e.year with hlt | heq | hgt
    · exact absurd h (dayNumber_lt_of_year hlt).ne
    · exact heq
    · exact absurd h (dayNumber_lt_of_year hgt).ne'
  have hmonth : d.month = e.month := by
    rcases lt_trichotomy d.month e.month with hlt | heq | hgt
    · exact absurd h (dayNumber_lt_of_month hyear hlt).ne
    · exact heq
    · exact absurd h (dayNumber_lt_of_month hyear.symm hgt).ne'
  have hday : d.day = e.day := by
    unfold Date.dayNumber at h
    rw [hyear, hmonth] at h
    omega
  obtain ⟨y, m, k⟩ := d
  obtain ⟨y', m', k'⟩ := e
  simp only at hyear hmonth hday
  subst hyear hmonth hday
  rfl

section March

def marchYear (y m : Int) : Int := if m ≤ 2 then y - 1 else y

/-- The days of such a year before a month. -/
def marchDays (m : Int) : Int := (153 * ((m + 9) % 12) + 2) / 5

theorem daysBeforeMonth_march (y : Int) {m : Int} (hpos : 1 ≤ m) (hle : m ≤ 12) :
    daysBeforeMonth y m = if m ≤ 2 then marchDays m - 306
      else marchDays m + if IsLeap y then 60 else 59 := by
  by_cases hleap : IsLeap y
  · interval_cases m <;> simp [daysBeforeMonth, daysInMonth, marchDays, hleap, List.range_succ]
  · interval_cases m <;> simp [daysBeforeMonth, daysInMonth, marchDays, hleap, List.range_succ]

theorem dayNumber_march (d : Date) :
    d.dayNumber = 365 * marchYear d.year d.month + marchYear d.year d.month / 4 -
      marchYear d.year d.month / 100 + marchYear d.year d.month / 400 + marchDays d.month + d.day -
      1 - 719468 := by
  rw [Date.dayNumber, daysBeforeMonth_march d.year d.month_pos d.month_le, daysBeforeYear,
    marchYear]
  by_cases hearly : d.month ≤ 2
  · rw [if_pos hearly, if_pos hearly]
    omega
  · have hsteps := leap_steps d.year
    rw [if_neg hearly, if_neg hearly]
    generalize d.year / 4 = a, d.year / 100 = b, d.year / 400 = c at hsteps ⊢
    generalize (d.year - 1) / 4 = a', (d.year - 1) / 100 = b', (d.year - 1) / 400 = c' at hsteps ⊢
    split_ifs at hsteps ⊢ <;> omega

structure EraDay (doe century group single doy : Int) : Prop where
  centuryRange : 0 ≤ century ∧ century ≤ 3
  groupRange : 0 ≤ group ∧ group ≤ 24
  singleRange : 0 ≤ single ∧ single ≤ 3
  doyRange : 0 ≤ doy ∧ doy ≤ 365
  leapDay : doy = 365 → single = 3 ∧ (group = 24 → century = 3)
  sum : doe = 36524 * century + 1461 * group + 365 * single + doy

theorem eraDay_of_range {doe : Int} (hpos : 0 ≤ doe) (hlt : doe < 146097) :
    ∃ century group single doy, EraDay doe century group single doy := by
  obtain ⟨century, hcentury⟩ : ∃ c, c = min 3 (doe / 36524) := ⟨_, rfl⟩
  obtain ⟨rest, hrest⟩ : ∃ r, r = doe - 36524 * century := ⟨_, rfl⟩
  obtain ⟨group, hgroup⟩ : ∃ g, g = min 24 (rest / 1461) := ⟨_, rfl⟩
  obtain ⟨last, hlast⟩ : ∃ l, l = rest - 1461 * group := ⟨_, rfl⟩
  obtain ⟨single, hsingle⟩ : ∃ s, s = min 3 (last / 365) := ⟨_, rfl⟩
  have hcentury' : 0 ≤ century ∧ century ≤ 3 := by omega
  have hrest' : 0 ≤ rest ∧ rest ≤ 36524 ∧ (rest = 36524 → century = 3) := by omega
  have hgroup' : 0 ≤ group ∧ group ≤ 24 := by omega
  have hlast' : 0 ≤ last ∧ last ≤ 1460 ∧ (last = 1460 → group = 24 → century = 3) := by omega
  refine ⟨century, group, single, last - 365 * single, hcentury', hgroup', by omega, by omega, ?_,
    by omega⟩
  intro hdoy
  exact ⟨by omega, by omega⟩

theorem EraDay.year {doe century group single doy : Int}
    (h : EraDay doe century group single doy) :
    (doe - doe / 1460 + doe / 36524 - doe / 146096) / 365 = 100 * century + 4 * group + single := by
  obtain ⟨⟨hc, hc'⟩, ⟨hg, hg'⟩, ⟨hs, hs'⟩, ⟨hd, hd'⟩, hleap, hsum⟩ := h
  have hcenturies : doe / 36524 = century ∧ doe < 146096 ∨ doe = 146096 ∧ century = 3 := by
    omega
  have hlong : doy = 365 → single = 3 := fun hlast => (hleap hlast).1
  clear hleap
  have hgroups : 0 ≤ doy + 25 * century + group - doe / 1460 ∧
      doy + 25 * century + group - doe / 1460 ≤ 364 := by omega
  generalize doe / 1460 = groups at hgroups ⊢
  omega

theorem EraDay.doy_eq {doe century group single doy : Int}
    (h : EraDay doe century group single doy) :
    doe - (365 * (100 * century + 4 * group + single) + (100 * century + 4 * group + single) / 4 -
      (100 * century + 4 * group + single) / 100) = doy := by
  obtain ⟨⟨hc, hc'⟩, ⟨hg, hg'⟩, ⟨hs, hs'⟩, ⟨hd, hd'⟩, hleap, hsum⟩ := h
  omega

/-- The last day of a long year is the leap day of the next February. -/
theorem EraDay.isLeap {doe century group single doy : Int}
    (h : EraDay doe century group single doy) (hlast : doy = 365) (era : Int) :
    IsLeap (400 * era + (100 * century + 4 * group + single) + 1) := by
  obtain ⟨⟨hc, hc'⟩, ⟨hg, hg'⟩, ⟨hs, hs'⟩, ⟨hd, hd'⟩, hleap, hsum⟩ := h
  obtain ⟨hsingle, hcentury⟩ := hleap hlast
  unfold IsLeap
  omega

theorem exists_date_of_march {y doy : Int} (hpos : 0 ≤ doy) (hle : doy ≤ 365)
    (hleap : doy = 365 → IsLeap (y + 1)) : ∃ date : Date,
    date.month = (if (5 * doy + 2) / 153 < 10 then (5 * doy + 2) / 153 + 3
      else (5 * doy + 2) / 153 - 9) ∧
    date.day = doy - (153 * ((5 * doy + 2) / 153) + 2) / 5 + 1 ∧
    date.year = (if date.month ≤ 2 then y + 1 else y) ∧
    date.dayNumber = 365 * y + y / 4 - y / 100 + y / 400 + doy - 719468 := by
  obtain ⟨mp, hmp⟩ : ∃ mp, mp = (5 * doy + 2) / 153 := ⟨_, rfl⟩
  obtain ⟨m, hm⟩ : ∃ m, m = if mp < 10 then mp + 3 else mp - 9 := ⟨_, rfl⟩
  have hrange : 0 ≤ mp ∧ mp ≤ 11 := by omega
  have hmonth : 1 ≤ m ∧ m ≤ 12 := by
    rw [hm]
    split_ifs <;> omega
  have hback : (m + 9) % 12 = mp := by
    rw [hm]
    split_ifs <;> omega
  have hday : 1 ≤ doy - (153 * mp + 2) / 5 + 1 := by omega
  have hlast : doy - (153 * mp + 2) / 5 + 1 ≤ daysInMonth (if m ≤ 2 then y + 1 else y) m := by
    obtain ⟨hlow, hhigh⟩ := hrange
    clear hback
    by_cases hend : doy = 365
    · have hmp' : mp = 11 := by omega
      have hm' : m = 2 := by
        rw [hm, hmp']
        rfl
      have hlong : daysInMonth (y + 1) 2 = 29 := if_pos (hleap hend)
      rw [hm', hmp', hend, if_pos (by decide), hlong]
      decide
    · subst hm
      interval_cases mp <;> simp [daysInMonth] <;> (try split_ifs) <;> omega
  refine ⟨⟨_, m, _, hmonth.1, hmonth.2, hday, hlast⟩, hm.trans (by rw [hmp]), ?_, rfl, ?_⟩
  · show doy - (153 * mp + 2) / 5 + 1 = _
    rw [hmp]
  have hyear : marchYear (if m ≤ 2 then y + 1 else y) m = y := by
    unfold marchYear
    split_ifs <;> omega
  rw [dayNumber_march]
  simp only [hyear, marchDays, hback]
  omega

end March

end Calendar
