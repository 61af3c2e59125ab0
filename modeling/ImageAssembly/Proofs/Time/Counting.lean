import ImageAssembly.Proofs.Time.Calendar

/-! Day numbers count the days of the calendar. A day and the day after it have numbers that follow each other,
1 January 1970 has the number zero, and no two days share a number, so that the number of a day is its distance in
days from that one. -/

namespace ImageAssembly.Time.Date

theorem isLeapYear_iff {year : Int} :
    isLeapYear year = true ↔ year % 4 = 0 ∧ (year % 100 ≠ 0 ∨ year % 400 = 0) := by
  simp [isLeapYear]

/-! ### The day after -/

/-- The day after. -/
def next (d : Date) : Date :=
  if d.day < daysInMonth d.year d.month then { d with day := d.day + 1 }
  else if d.month < 12 then ⟨d.year, d.month + 1, 1⟩
  else ⟨d.year + 1, 1, 1⟩

theorem one_le_daysInMonth (year : Int) (month : Nat) : 1 ≤ daysInMonth year month := by
  unfold daysInMonth
  split_ifs <;> omega

theorem daysInMonth_le_31 (year : Int) (month : Nat) : daysInMonth year month ≤ 31 := by
  unfold daysInMonth
  split_ifs <;> omega

theorem isValid_next {d : Date} (h : d.IsValid) : d.next.IsValid := by
  obtain ⟨hm1, hm12, hd1, hd⟩ := h
  unfold next
  split_ifs with hday hmonth
  · exact ⟨hm1, hm12, by dsimp only; omega, hday⟩
  · exact ⟨by dsimp only; omega, hmonth, le_refl 1, one_le_daysInMonth _ _⟩
  · exact ⟨le_refl 1, by dsimp only; omega, le_refl 1, one_le_daysInMonth _ _⟩

/-- Days from the March of the year 0 to that of another year. -/
def marchStart (year : Int) : Int := year / 400 * 146097 + year % 400 * 365 + year % 400 / 4 - year % 400 / 100

/-- A year from March to March has 366 days if the leap day at its end exists. -/
theorem marchStart_eq (year : Int) :
    marchStart year = marchStart (year - 1) + if isLeapYear year then 366 else 365 := by
  have hleap := @isLeapYear_iff year
  unfold marchStart
  split_ifs with h
  · rw [iff_true_left h] at hleap
    omega
  · rw [iff_false_left h] at hleap
    omega

theorem dayNumber_of_le_two {year : Int} {month day : Nat} (h : month ≤ 2) :
    dayNumber ⟨year, month, day⟩ = marchStart (year - 1) + ((153 * (month + 9) + 2) / 5 + day - 1) - 719468 := by
  simp only [dayNumber, marchStart, if_pos h]

theorem dayNumber_of_three_le {year : Int} {month day : Nat} (h : 3 ≤ month) :
    dayNumber ⟨year, month, day⟩ = marchStart year + ((153 * (month - 3) + 2) / 5 + day - 1) - 719468 := by
  simp only [dayNumber, marchStart, if_neg (Nat.not_le_of_lt h)]

theorem dayNumber_succ (year : Int) (month day : Nat) :
    dayNumber ⟨year, month, day + 1⟩ = dayNumber ⟨year, month, day⟩ + 1 := by
  simp only [dayNumber, Nat.cast_add, Nat.cast_one]
  omega

theorem dayNumber_nextMonth {year : Int} {month : Nat} (h1 : 1 ≤ month) (h12 : month < 12) :
    dayNumber ⟨year, month + 1, 1⟩ = dayNumber ⟨year, month, daysInMonth year month⟩ + 1 := by
  obtain h1 | h2 | h3 : month = 1 ∨ month = 2 ∨ 3 ≤ month := by omega
  · subst h1
    rw [dayNumber_of_le_two (by decide), dayNumber_of_le_two (by decide)]
    norm_num [daysInMonth]
    omega
  · -- February ends the year that begins in March
    subst h2
    have hyear := marchStart_eq year
    have hdays : daysInMonth year 2 = if isLeapYear year then 29 else 28 := rfl
    rw [dayNumber_of_three_le (by decide), dayNumber_of_le_two (by decide), hyear, hdays]
    split_ifs <;> norm_num <;> omega
  · rw [dayNumber_of_three_le (by omega), dayNumber_of_three_le h3]
    interval_cases month <;> norm_num [daysInMonth] <;> omega

theorem dayNumber_nextYear (year : Int) : dayNumber ⟨year + 1, 1, 1⟩ = dayNumber ⟨year, 12, 31⟩ + 1 := by
  rw [dayNumber_of_le_two (by decide), dayNumber_of_three_le (by decide), add_sub_cancel_right]
  norm_num
  omega

/-- The day after has the next number. -/
theorem dayNumber_next {d : Date} (h : d.IsValid) : d.next.dayNumber = d.dayNumber + 1 := by
  obtain ⟨year, month, day⟩ := d
  obtain ⟨hm1, hm12, -, hd⟩ := h
  dsimp only at hm1 hm12 hd
  unfold next
  split_ifs with hday hmonth
  · exact dayNumber_succ year month day
  · have hlast : day = daysInMonth year month := by
      dsimp only at hday
      omega
    rw [hlast]
    exact dayNumber_nextMonth hm1 hmonth
  · have hlast : month = 12 := by
      dsimp only at hmonth
      omega
    subst hlast
    have hday31 : day = 31 := by
      have hdays : daysInMonth year 12 = 31 := rfl
      dsimp only at hday
      omega
    rw [hday31]
    exact dayNumber_nextYear year

/-! ### One day for each number -/

theorem marchStart_le {year later : Int} (h : year ≤ later) : marchStart year ≤ marchStart later := by
  induction later, h using Int.leInduction with
  | base => exact le_refl _
  | succ later _ ih =>
    have hnext := marchStart_eq (later + 1)
    rw [add_sub_cancel_right] at hnext
    split_ifs at hnext <;> omega

/-- A day number as a day of a year that begins in March. -/
structure InMarchYear (n year day : Int) : Prop where
  number : n + 719468 = marchStart year + day
  nonneg : 0 ≤ day
  lt : marchStart year + day < marchStart (year + 1)

theorem InMarchYear.le {n year day year' day' : Int} (h : InMarchYear n year day) (h' : InMarchYear n year' day') :
    year ≤ year' := by
  by_contra hlt
  have hmono : marchStart (year' + 1) ≤ marchStart year := marchStart_le (by omega)
  have hn := h.number
  have hn' := h'.number
  have hday := h.nonneg
  have hday' := h'.lt
  omega

theorem InMarchYear.unique {n year day year' day' : Int} (h : InMarchYear n year day)
    (h' : InMarchYear n year' day') : year = year' ∧ day = day' := by
  have hyear : year = year' := le_antisymm (h.le h') (h'.le h)
  subst hyear
  have hn := h.number
  have hn' := h'.number
  exact ⟨rfl, by omega⟩

/-- The months of the year from March on are long enough for the days of the calendar. -/
theorem daysInMonth_le_marchMonth {year : Int} {month : Nat} (h1 : 1 ≤ month) (h12 : month ≤ 12) (shift : Int)
    (hshift : shift = if month ≤ 2 then 9 else -3) :
    (daysInMonth year month : Int) ≤
      (153 * (month + shift + 1) + 2) / 5 - (153 * (month + shift) + 2) / 5 := by
  subst hshift
  unfold daysInMonth
  interval_cases month <;> norm_num
  split_ifs <;> norm_num

/-- A day of a year from March on is found by its month and its day in the month. -/
theorem ofMarchDay_eq {year month day shift : Int} (h1 : 1 ≤ day)
    (h : day ≤ (153 * (month + shift + 1) + 2) / 5 - (153 * (month + shift) + 2) / 5)
    (hshift : shift = 9 ∧ 1 ≤ month ∧ month ≤ 2 ∨ shift = -3 ∧ 3 ≤ month ∧ month ≤ 12) :
    ofMarchDay year ((153 * (month + shift) + 2) / 5 + day - 1) =
      ⟨if month ≤ 2 then year + 1 else year, month.toNat, day.toNat⟩ := by
  have hmonth : (5 * ((153 * (month + shift) + 2) / 5 + day - 1) + 2) / 153 = month + shift := by omega
  have hday : (153 * (month + shift) + 2) / 5 + day - 1 - (153 * (month + shift) + 2) / 5 + 1 = day := by omega
  have hcivil : (if month + shift < 10 then month + shift + 3 else month + shift - 9) = month := by
    split_ifs <;> omega
  simp only [ofMarchDay, hmonth, hday, hcivil]

/-- Every existing day is a day of a year that begins in March. -/
theorem exists_inMarchYear {d : Date} (h : d.IsValid) :
    ∃ year day, InMarchYear d.dayNumber year day ∧ d = ofMarchDay year day := by
  obtain ⟨year, month, day⟩ := d
  obtain ⟨hm1, hm12, hd1, hd⟩ := h
  dsimp only at hm1 hm12 hd1 hd
  by_cases h2 : month ≤ 2
  · have hyear := marchStart_eq year
    have hlength := @daysInMonth_le_marchMonth year month hm1 hm12 9 (if_pos h2).symm
    have hleap : month = 2 → daysInMonth year month = if isLeapYear year then 29 else 28 := fun h => if_pos h
    refine ⟨year - 1, (153 * (month + 9) + 2) / 5 + day - 1, ⟨?_, by omega, ?_⟩, ?_⟩
    · rw [dayNumber_of_le_two h2]
      omega
    · rw [sub_add_cancel, hyear]
      split_ifs at hleap ⊢ <;> omega
    · rw [ofMarchDay_eq (by omega) (by omega) (by omega), if_pos (by omega), sub_add_cancel]
      rfl
  · have hyear := marchStart_eq (year + 1)
    have hlength := @daysInMonth_le_marchMonth year month hm1 hm12 (-3) (if_neg h2).symm
    rw [add_sub_cancel_right] at hyear
    refine ⟨year, (153 * (month + -3) + 2) / 5 + day - 1, ⟨?_, by omega, ?_⟩, ?_⟩
    · rw [dayNumber_of_three_le (by omega)]
      omega
    · rw [hyear]
      split_ifs <;> omega
    · rw [ofMarchDay_eq (by omega) (by omega) (by omega), if_neg (by omega)]
      rfl

/-- No two days have the same number. -/
theorem dayNumber_inj {d e : Date} (hd : d.IsValid) (he : e.IsValid) (h : d.dayNumber = e.dayNumber) : d = e := by
  obtain ⟨year, day, hin, hof⟩ := exists_inMarchYear hd
  obtain ⟨year', day', hin', hof'⟩ := exists_inMarchYear he
  rw [h] at hin
  obtain ⟨rfl, rfl⟩ := hin.unique hin'
  rw [hof, hof']

/-! ### Years -/

theorem dayNumber_newYear (year : Int) : dayNumber ⟨year, 1, 1⟩ = marchStart (year - 1) + 306 - 719468 :=
  dayNumber_of_le_two (by decide)

theorem dayNumber_newYear_le {year later : Int} (h : year ≤ later) :
    dayNumber ⟨year, 1, 1⟩ ≤ dayNumber ⟨later, 1, 1⟩ := by
  have hstart : marchStart (year - 1) ≤ marchStart (later - 1) := marchStart_le (by omega)
  rw [dayNumber_newYear, dayNumber_newYear]
  omega

/-- Every day of a year stands between the first of that year and of the next one. -/
theorem dayNumber_bounds {d : Date} (h : d.IsValid) :
    dayNumber ⟨d.year, 1, 1⟩ ≤ d.dayNumber ∧ d.dayNumber < dayNumber ⟨d.year + 1, 1, 1⟩ := by
  obtain ⟨year, month, day⟩ := d
  obtain ⟨hm1, hm12, hd1, hd⟩ := h
  dsimp only at hm1 hm12 hd1 hd ⊢
  have hstart := marchStart_eq year
  have hday31 := hd.trans (daysInMonth_le_31 year month)
  rw [dayNumber_newYear, dayNumber_newYear, add_sub_cancel_right]
  by_cases h2 : month ≤ 2
  · rw [dayNumber_of_le_two h2]
    split_ifs at hstart <;> omega
  · rw [dayNumber_of_three_le (by omega)]
    split_ifs at hstart <;> omega

theorem le_year_iff {d : Date} (h : d.IsValid) {year : Int} :
    year ≤ d.year ↔ dayNumber ⟨year, 1, 1⟩ ≤ d.dayNumber := by
  obtain ⟨hfirst, hlast⟩ := dayNumber_bounds h
  constructor
  · intro hyear
    exact (dayNumber_newYear_le hyear).trans hfirst
  · intro hday
    by_contra hyear
    have hlater := @dayNumber_newYear_le (d.year + 1) year (by omega)
    omega

/-! ### Counting from 1970 -/

/-- A day by its distance from 1 January 1970, counted one day at a time. -/
inductive IsDay : Int → Date → Prop
  | first : IsDay 0 ⟨1970, 1, 1⟩
  | after {n : Int} {d : Date} : IsDay n d → IsDay (n + 1) d.next
  | before {n : Int} {d : Date} : d.IsValid → IsDay (n + 1) d.next → IsDay n d

theorem isValid_dayNumber_of_isDay {n : Int} {d : Date} (h : IsDay n d) : d.IsValid ∧ d.dayNumber = n := by
  induction h with
  | first => decide
  | after _ ih =>
    refine ⟨isValid_next ih.1, ?_⟩
    rw [dayNumber_next ih.1, ih.2]
  | before hd _ ih =>
    refine ⟨hd, ?_⟩
    have hnext := dayNumber_next hd
    omega

theorem next_ofDayNumber (n : Int) : (ofDayNumber n).next = ofDayNumber (n + 1) := by
  apply dayNumber_inj (isValid_next (isValid_ofDayNumber n)) (isValid_ofDayNumber (n + 1))
  rw [dayNumber_next (isValid_ofDayNumber n), dayNumber_ofDayNumber, dayNumber_ofDayNumber]

theorem isDay_ofDayNumber (n : Int) : IsDay n (ofDayNumber n) := by
  induction n using Int.induction_on with
  | zero => exact .first
  | succ n ih =>
    rw [← next_ofDayNumber]
    exact ih.after
  | pred n ih =>
    apply IsDay.before (isValid_ofDayNumber _)
    rw [next_ofDayNumber, sub_add_cancel]
    exact ih

/-- The day number of an existing day is its distance from 1 January 1970. -/
theorem isDay_iff {n : Int} {d : Date} : IsDay n d ↔ d.IsValid ∧ d.dayNumber = n := by
  constructor
  · exact isValid_dayNumber_of_isDay
  · rintro ⟨hd, rfl⟩
    rw [dayNumber_inj hd (isValid_ofDayNumber d.dayNumber) (dayNumber_ofDayNumber _).symm, dayNumber_ofDayNumber]
    exact isDay_ofDayNumber _

end ImageAssembly.Time.Date
