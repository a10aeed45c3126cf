/-!
# The calendar

The Gregorian calendar, extended in both directions. Days have numbers, counted from the start of
1970. Inside, years start in March, so that the day that comes only in some years is the last one.
-/

namespace Provisioning

/-- A day of the calendar. -/
structure Day where
  /-- The year; the year before the first one is zero. -/
  year : Int
  /-- The month, from one on. -/
  month : Nat
  /-- The day of the month, from one on. -/
  day : Nat
deriving DecidableEq, Repr

namespace Day

/-- The number of days in 400 years. -/
def daysPerCycle : Nat := 146097

/-- The number of days from the first of March of the year zero to the first of January 1970. -/
def epochDay : Nat := 719468

/-- The number of days in full years at the start of a cycle of 400 years that starts in March. -/
def daysOfYears (years : Nat) : Nat := 365 * years + years / 4 - years / 100

/-- The number of days in full months at the start of a year that starts in March. -/
def daysOfMonths (months : Nat) : Nat := (153 * months + 2) / 5

/-- The day of a number. -/
def ofNumber (n : Int) : Day :=
  let shifted := n + epochDay
  let cycle := shifted.fdiv daysPerCycle
  let inCycle := (shifted.fmod daysPerCycle).toNat
  let year := (inCycle - inCycle / 1460 + inCycle / 36524 - inCycle / 146096) / 365
  let inYear := inCycle - daysOfYears year
  let month := (5 * inYear + 2) / 153
  { year := 400 * cycle + year + (if month < 10 then 0 else 1)
    month := if month < 10 then month + 3 else month - 9
    day := inYear - daysOfMonths month + 1 }

/-- The number of a day. -/
def number (d : Day) : Int :=
  let year := if 2 < d.month then d.year else d.year - 1
  let month := if 2 < d.month then d.month - 3 else d.month + 9
  daysPerCycle * year.fdiv 400 + daysOfYears (year.fmod 400).toNat + daysOfMonths month + d.day
    - 1 - epochDay

/-- The number of days of a month. -/
def daysOf (year month : Nat) : Nat :=
  if month = 2 then
    if year % 4 = 0 ∧ (year % 100 ≠ 0 ∨ year % 400 = 0) then 29 else 28
  else if month = 4 ∨ month = 6 ∨ month = 9 ∨ month = 11 then 30
  else 31

end Day

end Provisioning
