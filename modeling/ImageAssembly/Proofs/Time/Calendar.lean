import ImageAssembly.Time.Calendar
import Mathlib.Tactic.IntervalCases

/-! Day numbers and dates belong to each other. An era of 400 years is taken apart into centuries, periods of
four years and days within these, which gives the year without any approximation. -/

namespace ImageAssembly.Time.Date

/-- A day of an era by century, period of four years and day in the period; the last day of a century is the
29 February of its last year only in the last century. -/
structure EraDay (d g q s : Int) : Prop where
  day_eq : d = 36524 * g + 1461 * q + s
  century : 0 ≤ g ∧ g ≤ 3
  period : 0 ≤ q ∧ q ≤ 24
  day : 0 ≤ s ∧ s ≤ 1460
  last : q = 24 → s = 1460 → g = 3

theorem exists_eraDay {d : Int} (h0 : 0 ≤ d) (h1 : d < 146097) : ∃ g q s, EraDay d g q s := by
  by_cases hlast : d = 146096
  · exact ⟨3, 24, 1460, by omega, by omega, by omega, by omega, by omega⟩
  · exact ⟨d / 36524, d % 36524 / 1461, d % 36524 % 1461, by omega, by omega, by omega, by omega, by omega⟩

/-- The year in a period of four years. -/
def yearOfPeriod (s : Int) : Int := if s = 1460 then 3 else s / 365

variable {d g q s : Int}

/-- The year of an era, counted from March. -/
theorem yearOfEra_eq (h : EraDay d g q s) :
    (d - d / 1460 + d / 36524 - d / 146096) / 365 = 100 * g + 4 * q + yearOfPeriod s := by
  obtain ⟨hd, hg, hq, hs, hlast⟩ := h
  have h1460 : d / 1460 = 25 * g + q + if 1460 ≤ 24 * g + q + s then 1 else 0 := by
    split <;> omega
  have h36524 : d / 36524 = g + if d = 146096 then 1 else 0 := by
    split <;> omega
  have h146096 : d / 146096 = if d = 146096 then 1 else 0 := by
    split <;> omega
  rw [h1460, h36524, h146096, yearOfPeriod]
  split_ifs <;> omega

theorem dayOfYear_eq (h : EraDay d g q s) {y : Int} (hy : y = 100 * g + 4 * q + yearOfPeriod s) :
    d - (365 * y + y / 4 - y / 100) = s - 365 * yearOfPeriod s := by
  obtain ⟨hd, hg, hq, hs, hlast⟩ := h
  rw [yearOfPeriod] at *
  split_ifs at * <;> omega


/-- The date of a day in a year that begins in March. -/
def ofMarchDay (year dayOfYear : Int) : Date :=
  let month := (5 * dayOfYear + 2) / 153
  let civilMonth := if month < 10 then month + 3 else month - 9
  ⟨if civilMonth ≤ 2 then year + 1 else year, civilMonth.toNat,
    (dayOfYear - (153 * month + 2) / 5 + 1).toNat⟩

/-- A day number by its March year, given as an era and a year of it, and the day of that year; only the year
before a leap year's January has 366 days. -/
structure MarchDay (n era y day : Int) : Prop where
  number : n + 719468 = 146097 * era + (365 * y + y / 4 - y / 100) + day
  year : 0 ≤ y ∧ y ≤ 399
  day_bounds : 0 ≤ day ∧ day ≤ 365
  last : day = 365 → isLeapYear (y + era * 400 + 1) = true

theorem yearOfPeriod_bounds {s : Int} (hs : 0 ≤ s ∧ s ≤ 1460) :
    (0 ≤ yearOfPeriod s ∧ yearOfPeriod s ≤ 3) ∧
      (0 ≤ s - 365 * yearOfPeriod s ∧ s - 365 * yearOfPeriod s ≤ 365) ∧
      (s - 365 * yearOfPeriod s = 365 → s = 1460 ∧ yearOfPeriod s = 3) := by
  rw [yearOfPeriod]
  split <;> omega

theorem isLeapYear_of_last (h : EraDay d g q s) (hs : s = 1460) (era : Int) :
    isLeapYear (100 * g + 4 * q + 3 + era * 400 + 1) = true := by
  obtain ⟨-, hg, hq, -, hlast⟩ := h
  simp only [isLeapYear, Bool.and_eq_true, Bool.or_eq_true, beq_iff_eq, bne_iff_ne]
  refine ⟨by omega, ?_⟩
  by_cases hq24 : q = 24
  · have := hlast hq24 hs
    omega
  · omega

theorem exists_marchDay (n : Int) : ∃ era y day, MarchDay n era y day ∧
    ofDayNumber n = ofMarchDay (y + era * 400) day := by
  obtain ⟨g, q, s, h⟩ := exists_eraDay (d := (n + 719468) % 146097) (by omega) (by omega)
  have hy := yearOfEra_eq h
  have hday := dayOfYear_eq h hy
  rw [hy] at hday
  obtain ⟨hk, hD, hlast⟩ := yearOfPeriod_bounds h.day
  have hera : n + 719468 = 146097 * ((n + 719468) / 146097) + (n + 719468) % 146097 := by omega
  refine ⟨(n + 719468) / 146097, 100 * g + 4 * q + yearOfPeriod s, s - 365 * yearOfPeriod s, ?_, ?_⟩
  · have hg := h.century
    have hq := h.period
    refine ⟨by omega, by omega, hD, fun h365 => ?_⟩
    obtain ⟨hs, hk3⟩ := hlast h365
    rw [hk3]
    exact isLeapYear_of_last h hs _
  · rw [ofDayNumber, ofMarchDay]
    simp only [hy, hday]

variable {n era y day : Int}

/-- The months of a year from March on: the first day of each, and the number of days, but for February's. -/
theorem ofMarchDay_cases (year : Int) (h : 0 ≤ day ∧ day ≤ 365) :
    (ofMarchDay year day = ⟨year, 3, (day + 1).toNat⟩ ∧ day ≤ 30) ∨
    (ofMarchDay year day = ⟨year, 4, (day - 30).toNat⟩ ∧ 31 ≤ day ∧ day ≤ 60) ∨
    (ofMarchDay year day = ⟨year, 5, (day - 60).toNat⟩ ∧ 61 ≤ day ∧ day ≤ 91) ∨
    (ofMarchDay year day = ⟨year, 6, (day - 91).toNat⟩ ∧ 92 ≤ day ∧ day ≤ 121) ∨
    (ofMarchDay year day = ⟨year, 7, (day - 121).toNat⟩ ∧ 122 ≤ day ∧ day ≤ 152) ∨
    (ofMarchDay year day = ⟨year, 8, (day - 152).toNat⟩ ∧ 153 ≤ day ∧ day ≤ 183) ∨
    (ofMarchDay year day = ⟨year, 9, (day - 183).toNat⟩ ∧ 184 ≤ day ∧ day ≤ 213) ∨
    (ofMarchDay year day = ⟨year, 10, (day - 213).toNat⟩ ∧ 214 ≤ day ∧ day ≤ 244) ∨
    (ofMarchDay year day = ⟨year, 11, (day - 244).toNat⟩ ∧ 245 ≤ day ∧ day ≤ 274) ∨
    (ofMarchDay year day = ⟨year, 12, (day - 274).toNat⟩ ∧ 275 ≤ day ∧ day ≤ 305) ∨
    (ofMarchDay year day = ⟨year + 1, 1, (day - 305).toNat⟩ ∧ 306 ≤ day ∧ day ≤ 336) ∨
    (ofMarchDay year day = ⟨year + 1, 2, (day - 336).toNat⟩ ∧ 337 ≤ day ∧ day ≤ 365) := by
  have hm : 0 ≤ (5 * day + 2) / 153 ∧ (5 * day + 2) / 153 ≤ 11 := by omega
  rw [ofMarchDay]
  generalize hmonth : (5 * day + 2) / 153 = m at hm
  obtain ⟨hm0, hm11⟩ := hm
  interval_cases m <;> simp <;> omega

theorem isValid_ofMarchDay (h : MarchDay n era y day) : (ofMarchDay (y + era * 400) day).IsValid := by
  have hfeb : day ≤ if isLeapYear (y + era * 400 + 1) then 365 else 364 := by
    have := h.day_bounds
    split
    · omega
    · next hleap =>
      have : day ≠ 365 := fun h365 => hleap (h.last h365)
      omega
  rcases ofMarchDay_cases (y + era * 400) h.day_bounds with h' | h' | h' | h' | h' | h' | h' | h' | h' | h' |
    h' | h'
  all_goals
    have hpos := h.day_bounds
    rw [h'.1, IsValid]
    simp only [daysInMonth]
    norm_num
    clear h
    split at hfeb <;> simp_all <;> omega

/-- Every day number is that of an existing day. -/
theorem isValid_ofDayNumber (n : Int) : (ofDayNumber n).IsValid := by
  obtain ⟨era, y, day, h, heq⟩ := exists_marchDay n
  rw [heq]
  exact isValid_ofMarchDay h

theorem dayNumber_ofMarchDay (h : MarchDay n era y day) :
    (ofMarchDay (y + era * 400) day).dayNumber = n := by
  have hn := h.number
  have hera : (y + era * 400) / 400 = era ∧ (y + era * 400) % 400 = y := by
    have := h.year
    omega
  have hpos := h.day_bounds
  -- January and February count to the March year before theirs
  have hback : y + era * 400 + 1 - 1 = y + era * 400 := by omega
  rcases ofMarchDay_cases (y + era * 400) h.day_bounds with h' | h' | h' | h' | h' | h' | h' | h' | h' | h' |
    h' | h'
  all_goals
    rw [h'.1, dayNumber]
    simp only [Nat.reduceLeDiff, if_true, if_false, hback, hera]
    clear h
    omega

/-- The date of a day number has that number. -/
theorem dayNumber_ofDayNumber (n : Int) : (ofDayNumber n).dayNumber = n := by
  obtain ⟨era, y, day, h, heq⟩ := exists_marchDay n
  rw [heq]
  exact dayNumber_ofMarchDay h

end ImageAssembly.Time.Date
