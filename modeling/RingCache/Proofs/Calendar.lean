import RingCache.Time.Civil

/-!
Dates and day numbers. Every day number is the number of the date made from it, and that date is on
the calendar.
-/

namespace RingCache.Time

theorem daysInMonth_le (year : Int) (month : Nat) : daysInMonth year month ≤ 31 := by
  simp only [daysInMonth]
  split
  · split <;> decide
  · split <;> decide

/-- A day of an era, split by centuries, groups of four years, years and days. The last day of a
leap year is the only 366th one. -/
theorem era_split (dayOfEra century fours single dayOfYear : Nat) (inEra : dayOfEra < 146097)
    (centuries : century = min (dayOfEra / 36524) 3)
    (groups : fours = (dayOfEra - century * 36524) / 1461)
    (years : single = min ((dayOfEra - century * 36524 - fours * 1461) / 365) 3)
    (days : dayOfYear = dayOfEra - century * 36524 - fours * 1461 - single * 365) :
    century ≤ 3 ∧ fours ≤ 24 ∧ single ≤ 3 ∧ dayOfYear ≤ 365 ∧
      dayOfEra = century * 36524 + fours * 1461 + single * 365 + dayOfYear ∧
      (dayOfYear = 365 → single = 3 ∧ (fours = 24 → century = 3)) := by
  omega

/-- The number of a year that begins in March and the place of a day in it give the day number. -/
theorem era_days (era : Int) (century fours single dayOfYear : Nat) (years : single ≤ 3)
    (groups : fours ≤ 24) (centuries : century ≤ 3) :
    let year : Int := era * 400 + (century * 100 + fours * 4 + single : Nat)
    year / 400 * daysPerEra + year % 400 * 365 + year % 400 / 4 - year % 400 / 100 + dayOfYear =
      era * daysPerEra + (century * 36524 + fours * 1461 + single * 365 + dayOfYear : Nat) := by
  simp only [daysPerEra]
  omega

/-- The months of a year that begins in March. -/
theorem month_days (dayOfYear month day : Nat) (inYear : dayOfYear ≤ 365)
    (months : month = (5 * dayOfYear + 2) / 153)
    (days : day = dayOfYear - (153 * month + 2) / 5 + 1) :
    month ≤ 11 ∧ (153 * month + 2) / 5 + (day - 1) = dayOfYear ∧ day ≤ 31 ∧
      (month = 1 ∨ month = 3 ∨ month = 6 ∨ month = 8 → day ≤ 30) ∧
      (month = 11 → day ≤ 29 ∧ (day = 29 → dayOfYear = 365)) := by
  omega

theorem leap_year_of_last_day (era : Int) (century fours : Nat)
    (whole : fours = 24 → century = 3) (groups : fours ≤ 24) :
    isLeapYear (era * 400 + (century * 100 + fours * 4 + 3 : Nat) + 1) = true := by
  simp only [isLeapYear, Bool.and_eq_true, Bool.or_eq_true, decide_eq_true_eq, bne_iff_ne]
  omega

def marchDate (year : Int) (dayOfYear : Nat) : Date :=
  let month := (5 * dayOfYear + 2) / 153
  let day := dayOfYear - (153 * month + 2) / 5 + 1
  if month < 10 then ⟨year, month + 3, day⟩ else ⟨year + 1, month - 9, day⟩

theorem marchDate_dayNumber (year : Int) (dayOfYear : Nat) (inYear : dayOfYear ≤ 365) :
    (marchDate year dayOfYear).dayNumber = year / 400 * daysPerEra + year % 400 * 365 +
      year % 400 / 4 - year % 400 / 100 + dayOfYear - epochDay := by
  obtain ⟨twelve, place, _⟩ := month_days dayOfYear _ _ inYear rfl rfl
  simp only [marchDate]
  generalize (5 * dayOfYear + 2) / 153 = month at twelve place ⊢
  generalize dayOfYear - (153 * month + 2) / 5 + 1 = day at place ⊢
  by_cases early : month < 10
  · have late : ¬ month + 3 ≤ 2 := by omega
    simp only [early, late, if_true, if_false, Date.dayNumber, Nat.add_sub_cancel, place]
  · have back : month - 9 + 9 = month := by omega
    have january : month - 9 ≤ 2 := by omega
    simp only [early, january, if_true, if_false, Date.dayNumber, back, place, Int.add_sub_cancel]

theorem marchDate_valid (year : Int) (dayOfYear : Nat) (inYear : dayOfYear ≤ 365)
    (last : dayOfYear = 365 → isLeapYear (year + 1) = true) :
    (marchDate year dayOfYear).Valid := by
  obtain ⟨twelve, _, long, short, february⟩ := month_days dayOfYear _ _ inYear rfl rfl
  have first : 1 ≤ dayOfYear - (153 * ((5 * dayOfYear + 2) / 153) + 2) / 5 + 1 :=
    Nat.le_add_left 1 _
  simp only [marchDate]
  generalize (5 * dayOfYear + 2) / 153 = month at *
  generalize dayOfYear - (153 * month + 2) / 5 + 1 = day at *
  by_cases early : month < 10
  · simp only [early, if_true, Date.Valid, daysInMonth]
    refine ⟨by omega, by omega, first, ?_⟩
    rw [if_neg (by omega)]
    split <;> omega
  · simp only [early, if_false, Date.Valid, daysInMonth]
    refine ⟨by omega, by omega, first, ?_⟩
    by_cases lastMonth : month = 11
    · rw [if_pos (by omega)]
      split
      · exact (february lastMonth).1
      · next common => 
          have notLast : day ≠ 29 := fun full => common (last ((february lastMonth).2 full))
          have := (february lastMonth).1
          omega
    · rw [if_neg (by omega), if_neg (by omega)]
      exact long

/-- The date of a day number in terms of the parts of its era. -/
theorem ofDayNumber_parts (dayNumber : Int) :
    ∃ (era : Int) (century fours single dayOfYear : Nat),
      century ≤ 3 ∧ fours ≤ 24 ∧ single ≤ 3 ∧ dayOfYear ≤ 365 ∧
        (dayOfYear = 365 → single = 3 ∧ (fours = 24 → century = 3)) ∧
        dayNumber + epochDay =
          era * daysPerEra + (century * 36524 + fours * 1461 + single * 365 + dayOfYear : Nat) ∧
        Date.ofDayNumber dayNumber =
          marchDate (era * 400 + (century * 100 + fours * 4 + single : Nat)) dayOfYear := by
  have inEra : ((dayNumber + epochDay) % daysPerEra).toNat < 146097 := by
    simp only [daysPerEra]
    omega
  have whole : dayNumber + epochDay = (dayNumber + epochDay) / daysPerEra * daysPerEra +
      (((dayNumber + epochDay) % daysPerEra).toNat : Int) := by
    simp only [daysPerEra]
    omega
  obtain ⟨centuries, groups, years, days, sum, last⟩ := era_split _ _ _ _ _ inEra rfl rfl rfl rfl
  exact ⟨_, _, _, _, _, centuries, groups, years, days, last, sum ▸ whole, rfl⟩

theorem ofDayNumber_exact (dayNumber : Int) :
    (Date.ofDayNumber dayNumber).Valid ∧ (Date.ofDayNumber dayNumber).dayNumber = dayNumber := by
  obtain ⟨era, century, fours, single, dayOfYear, centuries, groups, years, days, last, sum, date⟩ :=
    ofDayNumber_parts dayNumber
  rw [date]
  constructor
  · apply marchDate_valid _ _ days
    intro full
    obtain ⟨third, whole⟩ := last full
    exact third ▸ leap_year_of_last_day era century fours whole groups
  · rw [marchDate_dayNumber _ _ days, era_days era century fours single dayOfYear years groups
      centuries, ← sum, Int.add_sub_cancel]

/-- The days of the years that instants may have. -/
theorem ofDayNumber_year (dayNumber : Int) (first : -96465292 ≤ dayNumber)
    (last : dayNumber ≤ 95026236) :
    -262143 ≤ (Date.ofDayNumber dayNumber).year ∧ (Date.ofDayNumber dayNumber).year ≤ 262142 := by
  obtain ⟨era, century, fours, single, dayOfYear, centuries, groups, years, days, _, sum, date⟩ :=
    ofDayNumber_parts dayNumber
  simp only [epochDay, daysPerEra] at sum
  have eras : -656 ≤ era ∧ (era = 655 ∨ era ≤ 654) := by omega
  obtain ⟨lowest, rfl | lower⟩ := eras <;> simp only [date, marchDate] <;> split <;>
    (dsimp only; omega)

end RingCache.Time
