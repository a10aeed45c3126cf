import Provisioning.Calendar
import Provisioning.Data.Basic
import Provisioning.Decimal.Nearest
import Provisioning.Text.Number
import Provisioning.Text.Split

/-!
# Numbers, words and dates of TOML texts

What is written without quotes is a truth value, a whole number, a floating point number, or a date
or time.
-/

namespace Provisioning.Toml

/-! ## Digits -/

/-- The value of a hexadecimal digit. -/
def digitValue (c : Char) : Nat :=
  if c.isDigit then c.toNat - '0'.toNat else c.toLower.toNat - 'a'.toNat + 10

/-- Whether the character is a digit to a base of at most sixteen. -/
def isDigitTo (base : Nat) (c : Char) : Bool :=
  (c.isDigit || ('a' ≤ c.toLower && c.toLower ≤ 'f')) && digitValue c < base

/-- The digits of a row in which single underscores may stand between digits. -/
def digitRow? (base : Nat) (cs : List Char) : Option (List Char) :=
  let parts := Text.splitChars '_' cs
  if parts.all fun part => !part.isEmpty && part.all (isDigitTo base) then
    some parts.flatten
  else
    none

/-- The number that a row of digits writes. -/
def numberTo (base : Nat) (digits : List Char) : Nat :=
  digits.foldl (fun n c => base * n + digitValue c) 0

/-- A sign that may stand in front, and what follows. -/
def sign (cs : List Char) : Bool × List Char :=
  match cs with
  | '-' :: cs => (true, cs)
  | '+' :: cs => (false, cs)
  | cs => (false, cs)

/-! ## Numbers -/

/-- The digits of a decimal number without superfluous zeros in front. -/
def wholeRow? (cs : List Char) : Option (List Char) :=
  match digitRow? 10 cs with
  | some ['0'] => some ['0']
  | some ('0' :: _) => none
  | row => row

/-- A whole number; it has to fit 128 bits, with or without sign. -/
def integer? (cs : List Char) : Option Int := do
  let n : Int ← match cs with
    | '0' :: 'x' :: cs => (digitRow? 16 cs).map fun row => Int.ofNat (numberTo 16 row)
    | '0' :: 'o' :: cs => (digitRow? 8 cs).map fun row => Int.ofNat (numberTo 8 row)
    | '0' :: 'b' :: cs => (digitRow? 2 cs).map fun row => Int.ofNat (numberTo 2 row)
    | cs =>
      let (negative, cs) := sign cs
      (wholeRow? cs).map fun row =>
        let n := Int.ofNat (numberTo 10 row)
        if negative then -n else n
  if -Int.ofNat (twoTo 127) ≤ n ∧ n < Int.ofNat (twoTo 128) then some n else none

/-- The floating point number nearest to `digits * 10 ^ power`. -/
def decimal (digits : List Char) (power : Int) : Binary64 :=
  let n := Text.numberOf digits
  let leading := Int.ofNat (Nat.toDigits 10 n).length + power
  if n = 0 ∨ leading < -400 then ⟨0⟩
  else if 400 < leading then .infinity
  else if 0 ≤ power then .nearest (n * tenTo power.toNat) 1
  else .nearest n (tenTo (-power).toNat)

/-- The exponent of a floating point number; zero when there is none. -/
def exponent? : List Char → Option Int
  | [] => some 0
  | _ :: cs =>
    let (negative, cs) := sign cs
    (digitRow? 10 cs).map fun row =>
      let n := Int.ofNat (Text.numberOf row)
      if negative then -n else n

/-- The magnitude of a floating point number with a point or an exponent. It has to be below
infinity. -/
def magnitude? (cs : List Char) : Option Binary64 := do
  let isExponentMark (c : Char) : Bool := c == 'e' || c == 'E'
  let (mantissa, exponent) := (cs.takeWhile (!isExponentMark ·), cs.dropWhile (!isExponentMark ·))
  let power ← exponent? exponent
  let (whole, fraction) ← match Text.splitChars '.' mantissa with
    | [whole] =>
      if exponent.isEmpty then none else (wholeRow? whole).map fun row => (row, ([] : List Char))
    | [whole, fraction] => (wholeRow? whole).bind fun row => (digitRow? 10 fraction).map (row, ·)
    | _ => none
  let x := decimal (whole ++ fraction) (power - fraction.length)
  if x.isFinite then some x else none

/-- A floating point number. -/
def float? (cs : List Char) : Option Binary64 :=
  let (negative, cs) := sign cs
  let magnitude :=
    if cs = "inf".toList then some .infinity
    else if cs = "nan".toList then some .notANumber
    else magnitude? cs
  magnitude.map fun x => if negative then x.negate else x

/-! ## Dates and times -/

/-- A number of exactly so many digits at the start of a text, and what follows. -/
def fixedNumber? (length : Nat) (cs : List Char) : Option (Nat × List Char) :=
  let digits := cs.take length
  if digits.length = length && digits.all Char.isDigit then
    some (Text.numberOf digits, cs.drop length)
  else
    none

/-- What follows a given character. -/
def after? (c : Char) : List Char → Option (List Char)
  | d :: cs => if d = c then some cs else none
  | [] => none

/-- What follows a date. -/
def afterDate? (cs : List Char) : Option (List Char) := do
  let (year, cs) ← fixedNumber? 4 cs
  let (month, cs) ← fixedNumber? 2 (← after? '-' cs)
  let (day, cs) ← fixedNumber? 2 (← after? '-' cs)
  if 1 ≤ month ∧ month ≤ 12 ∧ 1 ≤ day ∧ day ≤ Day.daysOf year month then some cs else none

/-- What follows the seconds of a time and their fraction. Seconds may be left out. -/
def afterSeconds? : List Char → Option (List Char)
  | ':' :: cs => do
    let (second, cs) ← fixedNumber? 2 cs
    if 60 < second then
      none
    match cs with
    | '.' :: cs =>
      if (cs.takeWhile Char.isDigit).isEmpty then none else some (cs.dropWhile Char.isDigit)
    | cs => some cs
  | cs => some cs

/-- What follows hours and minutes. -/
def afterMinutes? (cs : List Char) : Option (List Char) := do
  let (hour, cs) ← fixedNumber? 2 cs
  let (minute, cs) ← fixedNumber? 2 (← after? ':' cs)
  if hour ≤ 23 ∧ minute ≤ 59 then some cs else none

/-- What follows a time. -/
def afterTime? (cs : List Char) : Option (List Char) := do afterSeconds? (← afterMinutes? cs)

/-- Whether the text is an offset from universal time, or nothing. -/
def isOffset : List Char → Bool
  | [] | ['Z'] | ['z'] => true
  | c :: cs => (c == '+' || c == '-') && afterMinutes? cs == some []

/-- Whether a date is followed by a time, or by nothing. -/
def isAfterDate : List Char → Bool
  | [] => true
  | c :: cs => (c == 'T' || c == 't' || c == ' ') && (afterTime? cs).any isOffset

/-- Whether the text is a date, a time, or both. -/
def isMoment (cs : List Char) : Bool :=
  (afterDate? cs).any isAfterDate || afterTime? cs == some []

/-- The name of the single entry that dates and times have as values. -/
def momentName : String := "$moment"

/-! ## Values -/

/-- The value of a text without quotes. A date or time is a table with its text. -/
def scalar? (cs : List Char) : Option Data :=
  if cs = "true".toList then some (.bool true)
  else if cs = "false".toList then some (.bool false)
  else if isMoment cs then some (.table [(momentName, .text (String.ofList cs))])
  else ((integer? cs).map .int).or ((float? cs).map .float)

end Provisioning.Toml
