/-!
The proleptic Gregorian calendar. A year is taken to begin in March, so that a leap day is the last
day of its year, and years are grouped in eras of 400, which all have 146097 days. Inside an era a
day number is split by centuries, by groups of four years, and by years.
-/

namespace RingCache.Time

structure Date where
  year : Int
  month : Nat
  day : Nat
  deriving DecidableEq, Repr

def isLeapYear (year : Int) : Bool := year % 4 = 0 && (year % 100 != 0 || year % 400 = 0)

def daysInMonth (year : Int) (month : Nat) : Nat :=
  if month = 2 then (if isLeapYear year then 29 else 28)
  else if month = 4 ∨ month = 6 ∨ month = 9 ∨ month = 11 then 30
  else 31

def Date.Valid (date : Date) : Prop :=
  1 ≤ date.month ∧ date.month ≤ 12 ∧ 1 ≤ date.day ∧ date.day ≤ daysInMonth date.year date.month

instance (date : Date) : Decidable date.Valid := by unfold Date.Valid; infer_instance

def daysPerEra : Int := 146097

/-- The days from 0000-03-01 to 1970-01-01. -/
def epochDay : Int := 719468

def Date.dayNumber (date : Date) : Int :=
  let year := if date.month ≤ 2 then date.year - 1 else date.year
  let month := if date.month ≤ 2 then date.month + 9 else date.month - 3
  let yearOfEra := year % 400
  let dayOfYear : Nat := (153 * month + 2) / 5 + (date.day - 1)
  year / 400 * daysPerEra + yearOfEra * 365 + yearOfEra / 4 - yearOfEra / 100 + dayOfYear - epochDay

def Date.ofDayNumber (dayNumber : Int) : Date :=
  let days := dayNumber + epochDay
  let dayOfEra := (days % daysPerEra).toNat
  let century := min (dayOfEra / 36524) 3
  let dayOfCentury := dayOfEra - century * 36524
  let fours := dayOfCentury / 1461
  let dayOfFours := dayOfCentury - fours * 1461
  let single := min (dayOfFours / 365) 3
  let dayOfYear := dayOfFours - single * 365
  let month := (5 * dayOfYear + 2) / 153
  let day := dayOfYear - (153 * month + 2) / 5 + 1
  let year := days / daysPerEra * 400 + (century * 100 + fours * 4 + single : Nat)
  if month < 10 then ⟨year, month + 3, day⟩ else ⟨year + 1, month - 9, day⟩

end RingCache.Time
