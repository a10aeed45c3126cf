import Provisioning.Decimal.Binary64
import Provisioning.Decimal.Places
import Provisioning.Store.Record
import Provisioning.Text.Number

/-!
# Times and durations as texts

Times are shown in universal time to the second.
-/

namespace Provisioning.Timestamp

/-- The earliest year that can be shown. -/
def minYear : Int := -262143

/-- The latest year that can be shown. -/
def maxYear : Int := 262142

/-- The number of milliseconds of a day. -/
def msPerDay : Nat := 86400000

/-- The day of a time. -/
def dayOf (t : Timestamp) : Day := .ofNumber (Int.fdiv t msPerDay)

/-- Whether the time can be shown. -/
def isShowable (t : Timestamp) : Bool := minYear ≤ (dayOf t).year && (dayOf t).year ≤ maxYear

/-! ## Texts -/

/-- A number with zeros in front, so that it has so many digits. -/
def padded (width n : Nat) : String := String.ofList (Text.paddedDigits 10 width n)

/-- A year has four digits; before the year zero and after the year 9999 a sign stands in front. -/
def yearText (year : Int) : String :=
  let digits := padded 4 year.natAbs
  if year < 0 then "-" ++ digits else if 9999 < year then "+" ++ digits else digits

/-- The date and the time of day. -/
def text (t : Timestamp) : String :=
  let day := dayOf t
  let second := (Int.fmod t msPerDay).toNat / 1000
  yearText day.year ++ "-" ++ padded 2 day.month ++ "-" ++ padded 2 day.day ++ " "
    ++ padded 2 (second / 3600) ++ ":" ++ padded 2 (second / 60 % 60) ++ ":"
    ++ padded 2 (second % 60)

/-- What is shown for a time or duration that is not known. -/
def unknown : String := "-"

/-- A time that may be unknown. -/
def shown (t : Option Timestamp) : String := t.elim unknown text

/-- A number of milliseconds below a minute in seconds, with one place. -/
def secondsText (ms : Nat) : String :=
  let seconds := Binary64.ofFloat (Float.ofNat ms / 1000)
  Decimal.tenths (Decimal.roundQuotient (10 * seconds.units) (twoTo 1074)) ++ "s"

/-- The time between a start and an end: in seconds, or in minutes and full seconds. An end before
the start counts as the start. -/
def durationText (start finish : Timestamp) : String :=
  let ms := Int.toNat (finish - start)
  if ms < 60000 then
    secondsText ms
  else
    let seconds := ms / 1000
    s!"{seconds / 60}m " ++ padded 2 (seconds % 60) ++ "s"

/-- The time between a start and an end, either of which may be unknown. -/
def shownDuration : Option Timestamp → Option Timestamp → String
  | some start, some finish => durationText start finish
  | _, _ => unknown

end Provisioning.Timestamp
