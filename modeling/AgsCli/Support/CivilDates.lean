import AgsCli.Support.Timestamps

/-! # Day numbers and dates

`days_from_civil` and `civil_from_days` in `i64`: one is the other backwards, and the numbers count
the days. An overflow is the only way out. -/
namespace CivilDates

open Calendar Timestamps

section Overflows

variable {α β : Type} {x : Read α} {f : α → Read β} {a b c : Int}

theorem bind_eq_ok {r : β} : (x >>= f) = .ok r ↔ ∃ a, x = .ok a ∧ f a = .ok r := by
  cases x with
  | error stop =>
    constructor
    · intro h
      cases h
    · rintro ⟨a, h, -⟩
      cases h
  | ok a =>
    constructor
    · exact fun h => ⟨a, rfl, h⟩
    · rintro ⟨b, h, hf⟩
      cases h
      exact hf

theorem checked_eq_ok {n : Int} : checked n = .ok c ↔ Fits n ∧ n = c := by
  unfold checked
  split_ifs with h
  · exact ⟨fun heq => ⟨h, Except.ok.inj heq⟩, fun heq => congrArg Except.ok heq.2⟩
  · exact ⟨fun heq => (nomatch heq), fun heq => absurd heq.1 h⟩

theorem add_eq_ok : add a b = .ok c ↔ Fits (a + b) ∧ a + b = c := checked_eq_ok

theorem sub_eq_ok : sub a b = .ok c ↔ Fits (a - b) ∧ a - b = c := checked_eq_ok

theorem mul_eq_ok : mul a b = .ok c ↔ Fits (a * b) ∧ a * b = c := checked_eq_ok

theorem shifted_eq_ok {y k : Int} :
    (if 0 ≤ y then (.ok y : Read Int) else sub y k) = .ok c ↔
      (0 ≤ y ∨ Fits (y - k)) ∧ (if 0 ≤ y then y else y - k) = c := by
  split_ifs with hy
  · exact ⟨fun h => ⟨.inl hy, Except.ok.inj h⟩, fun h => congrArg Except.ok h.2⟩
  · rw [sub_eq_ok]
    exact and_congr_left fun _ => (or_iff_right hy).symm

theorem march_eq_ok {y m : Int} :
    (if m ≤ 2 then sub y 1 else (.ok y : Read Int)) = .ok c → marchYear y m = c := by
  unfold marchYear
  split_ifs with hm
  · exact fun h => (sub_eq_ok.mp h).2
  · exact Except.ok.inj

end Overflows

/-- Without an overflow the number is that of the calendar's formula, and in range. -/
theorem civilNumber_of_ok {y m d n : Int} (hm : 1 ≤ m ∧ m ≤ 12)
    (h : daysFromCivil y m d = .ok n) : n = civilNumber y m d ∧ CivilRange n := by
  unfold daysFromCivil at h
  simp only [bind_eq_ok, add_eq_ok, sub_eq_ok, mul_eq_ok, shifted_eq_ok] at h
  -- the steps in the order of the source: year, era, year of the era, month, day, number
  obtain ⟨year, hmarch, shifted, ⟨-, hshift⟩, _, ⟨-, rfl⟩, yoe, ⟨-, hyoe⟩, _, ⟨-, rfl⟩,
    _, ⟨-, rfl⟩, _, ⟨-, rfl⟩, _, ⟨-, rfl⟩, _, ⟨-, rfl⟩, _, ⟨-, rfl⟩, _, ⟨-, rfl⟩, _, ⟨-, rfl⟩,
    _, ⟨-, rfl⟩, _, ⟨-, rfl⟩, _, ⟨hwhole, rfl⟩, hlast, hn⟩ := h
  have hera : shifted.tdiv 400 = year / 400 := hshift ▸ era_years year
  have hyear := march_eq_ok hmarch
  rw [hera] at hyoe hwhole hlast hn
  have hyoe' : 0 ≤ yoe ∧ yoe ≤ 399 := by omega
  have hmod : (m + 9).tmod 12 = (m + 9) % 12 := Int.tmod_eq_emod_of_nonneg (by omega)
  have hfive : (153 * ((m + 9) % 12) + 2).tdiv 5 = marchDays m :=
    Int.tdiv_eq_ediv_of_nonneg (by omega)
  rw [hmod, hfive, Int.tdiv_eq_ediv_of_nonneg hyoe'.1, Int.tdiv_eq_ediv_of_nonneg hyoe'.1]
    at hwhole hlast hn
  have hnumber : n = civilNumber y m d := by
    have h4 : year / 4 = yoe / 4 + year / 400 * 100 := by omega
    have h100 : year / 100 = yoe / 100 + year / 400 * 4 := by omega
    rw [civilNumber, hyear, h4, h100]
    omega
  refine ⟨hnumber, ?_⟩
  unfold Fits at hwhole hlast
  unfold CivilRange
  omega

theorem civilFromDays_daysFromCivil (date : Date) {n : Int}
    (h : daysFromCivil date.year date.month date.day = .ok n) :
    civilFromDays n = .ok (date.year, date.month, date.day) := by
  obtain ⟨hnumber, hrange⟩ := civilNumber_of_ok ⟨date.month_pos, date.month_le⟩ h
  rw [dayNumber_civil] at hnumber
  obtain ⟨other, hother, hcivil⟩ := civilFromDays_ok hrange
  have hsame : other = date := dayNumber_injective (hother.trans hnumber)
  rwa [hsame] at hcivil

/-- A number in range is the number of the date it is turned into. -/
theorem daysFromCivil_civilFromDays {z : Int} (hz : CivilRange z) : ∃ date : Date,
    civilFromDays z = .ok (date.year, date.month, date.day) ∧
      daysFromCivil date.year date.month date.day = .ok z := by
  obtain ⟨date, hnumber, hcivil⟩ := civilFromDays_ok hz
  have hmonth := And.intro date.month_pos date.month_le
  have hday := And.intro date.day_pos (date.day_le.trans (daysInMonth_le _ _))
  refine ⟨date, hcivil, ?_⟩
  rw [← hnumber, ← dayNumber_civil]
  refine daysFromCivil_ok ?_ (by omega) (by omega)
  rwa [dayNumber_civil, hnumber]

/-- In `i64` the range is where `civil_from_days` overflows nowhere. -/
theorem civilRange_iff {z : Int} (hz : Fits z) :
    CivilRange z ↔ ∃ date, civilFromDays z = .ok date := by
  constructor
  · intro h
    obtain ⟨date, -, hcivil⟩ := civilFromDays_ok h
    exact ⟨_, hcivil⟩
  · rintro ⟨date, h⟩
    unfold civilFromDays at h
    obtain ⟨shifted, hshift, -⟩ := bind_eq_ok.mp h
    have hfits := (add_eq_ok.mp hshift).1
    exact ⟨hz.1, hfits.2⟩

/-- Dates and day numbers in `i64`: back and forth between them, and from a day to the next. -/
theorem civil_bijection :
    (∀ (date : Date) (n : Int), daysFromCivil date.year date.month date.day = .ok n →
      civilFromDays n = .ok (date.year, date.month, date.day)) ∧
    (∀ z : Int, Fits z → (∃ r, civilFromDays z = .ok r) → ∃ date : Date,
      civilFromDays z = .ok (date.year, date.month, date.day) ∧
        daysFromCivil date.year date.month date.day = .ok z) ∧
    ∀ (date : Date) (n n' : Int), daysFromCivil date.year date.month date.day = .ok n →
      daysFromCivil date.next.year date.next.month date.next.day = .ok n' → n' = n + 1 := by
  refine ⟨fun date n h => civilFromDays_daysFromCivil date h, fun z hz h =>
    daysFromCivil_civilFromDays ((civilRange_iff hz).mpr h), fun date n n' h h' => ?_⟩
  have hn := (civilNumber_of_ok ⟨date.month_pos, date.month_le⟩ h).1
  have hn' := (civilNumber_of_ok ⟨date.next.month_pos, date.next.month_le⟩ h').1
  rw [dayNumber_civil] at hn hn'
  rw [hn, hn', dayNumber_next]

def leapDay : Date := ⟨-400, 2, 29, by decide, by decide, by decide, by decide⟩

theorem civil_bijection_leapDay :
    (daysFromCivil (-400) 2 29 = .ok (-865566) ∧ daysFromCivil (-400) 3 1 = .ok (-865565)) ∧
    civilFromDays (-865566) = .ok (-400, 2, 29) ∧
    (∃ date : Date, civilFromDays (-865565) = .ok (date.year, date.month, date.day) ∧
      daysFromCivil date.year date.month date.day = .ok (-865565)) ∧
    (-865565 : Int) = -865566 + 1 := by
  have hlast : daysFromCivil (-400) 2 29 = .ok (-865566) := rfl
  have hfirst : daysFromCivil (-400) 3 1 = .ok (-865565) := rfl
  refine ⟨⟨hlast, hfirst⟩, civil_bijection.1 leapDay _ hlast,
    civil_bijection.2.1 _ (by decide) ⟨(-400, 3, 1), rfl⟩, ?_⟩
  exact civil_bijection.2.2 leapDay _ _ hlast hfirst

end CivilDates
