import Provisioning.Calendar
import Provisioning.Text.Number

/-!
# Times in the store

The store keeps times as texts such as `2024-01-02T03:04:05.5+02:00`: a date, a time of day with
seconds and perhaps a fraction, and an offset from universal time.
-/

namespace Provisioning

/-- A point in time, in milliseconds since the start of 1970. -/
abbrev Timestamp := Int

/-- Why a text is no time. -/
inductive TimeFault where
  /-- It ends too early. -/
  | tooShort
  /-- It goes on too long. -/
  | tooLong
  /-- A character is another one than expected. -/
  | invalid
  /-- A number is too large or too small. -/
  | outOfRange
deriving DecidableEq, Repr

namespace TimeFault

/-- What is said about the fault. -/
def message : TimeFault → String
  | tooShort => "premature end of input"
  | tooLong => "trailing input"
  | invalid => "input contains invalid characters"
  | outOfRange => "input is out of range"

end TimeFault

namespace Timestamp

/-- Reads a number of so many digits. A text is too short for it when it has fewer bytes. -/
def number (width : Nat) (cs : List Char) : Except TimeFault (Nat × List Char) :=
  if width ≤ (cs.takeWhile Char.isDigit).length then
    .ok (Text.numberOf (cs.take width), cs.drop width)
  else if (String.ofList cs).utf8ByteSize < width then
    .error .tooShort
  else
    .error .invalid

/-- Reads a number of two digits between bounds. -/
def numberWithin (low high : Nat) (cs : List Char) : Except TimeFault (Nat × List Char) := do
  let (n, cs) ← number 2 cs
  if low ≤ n ∧ n ≤ high then return (n, cs) else throw .outOfRange

/-- Reads one of a few characters. -/
def mark (marks : List Char) : List Char → Except TimeFault (List Char)
  | c :: cs => if c ∈ marks then .ok cs else .error .invalid
  | [] => .error .tooShort

/-- Reads the fraction of a second, if there is one, as milliseconds. -/
def fraction : List Char → Except TimeFault (Nat × List Char)
  | '.' :: cs => do
    let _ ← number 1 cs
    let digits := cs.takeWhile Char.isDigit
    return (Text.numberOf ((digits ++ ['0', '0']).take 3), cs.drop digits.length)
  | cs => .ok (0, cs)

/-- The largest offset in minutes. -/
def maxOffset : Nat := 23 * 60 + 59

/-- Reads an offset from universal time, in minutes. -/
def offset : List Char → Except TimeFault (Int × List Char)
  | [] => .error .tooShort
  | c :: cs =>
    if c = 'Z' ∨ c = 'z' then .ok (0, cs)
    else if c ∉ ['+', '-', '−'] then .error .invalid
    else do
      let (hour, cs) ← number 2 cs
      let (minute, cs) ← numberWithin 0 59 (← mark [':'] cs)
      let minutes := 60 * hour + minute
      if maxOffset < minutes then throw .outOfRange
      return (if c = '+' then minutes else -minutes, cs)

/-- Reads a time. Only at the end is it checked that the month has the day. -/
def read (s : String) : Except TimeFault Timestamp := do
  let (year, cs) ← number 4 s.toList
  let (month, cs) ← numberWithin 1 12 (← mark ['-'] cs)
  let (day, cs) ← numberWithin 1 31 (← mark ['-'] cs)
  let (hour, cs) ← numberWithin 0 23 (← mark ['T', 't', ' '] cs)
  let (minute, cs) ← numberWithin 0 59 (← mark [':'] cs)
  let (second, cs) ← numberWithin 0 60 (← mark [':'] cs)
  let (ms, cs) ← fraction cs
  let (ahead, cs) ← offset cs
  if !cs.isEmpty then throw .tooLong
  if Day.daysOf year month < day then throw .outOfRange
  let minutes := (24 * Day.number { year, month, day } + hour) * 60 + minute - ahead
  return (60 * minutes + second) * 1000 + ms

end Timestamp

end Provisioning
