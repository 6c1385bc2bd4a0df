import ReleaseSeal.Decimal.Binary64

/-!
# Timestamps

Dates of a property list: a day of the Gregorian calendar from year 1 to year 9999 with a time of
day, without a time zone. The XML format writes them as text, the binary format as seconds from the
start of 2001.
-/

namespace ReleaseSeal.Plist

/-- A day and a time of day. -/
structure Timestamp where
  year : Nat
  month : Nat
  day : Nat
  hour : Nat
  minute : Nat
  second : Nat
  microsecond : Nat
deriving DecidableEq, Repr

namespace Timestamp

def isLeap (year : Nat) : Bool :=
  year % 4 == 0 && (year % 100 != 0 || year % 400 == 0)

/-- The lengths of the months of a year. -/
def monthLengths (year : Nat) : List Nat :=
  [31, if isLeap year then 29 else 28, 31, 30, 31, 30, 31, 31, 30, 31, 30, 31]

/-- The timestamp of given fields, if they name a day and a time. -/
def make? (year month day hour minute second : Nat) : Option Timestamp :=
  if 1 ≤ year && year ≤ 9999 && 1 ≤ month && 1 ≤ day && hour < 24 && minute < 60 && second < 60 then
    match (monthLengths year)[month - 1]? with
    | some length => if day ≤ length then some ⟨year, month, day, hour, minute, second, 0⟩ else none
    | none => none
  else none

/-- The month and the day, both from 1, of a day of the year that is counted from 0. -/
def monthDay : (lengths : List Nat) → (month dayOfYear : Nat) → Nat × Nat
  | [], month, dayOfYear => (month, dayOfYear + 1)
  | length :: rest, month, dayOfYear =>
    if dayOfYear < length then (month, dayOfYear + 1)
    else monthDay rest (month + 1) (dayOfYear - length)

/-- The year, month and day of the day that comes `days` days after the first of January of year 1.
Years are found in cycles of 400, 100, 4 and 1; the last day of a leap cycle belongs to its last
year. -/
def ofDays (days : Nat) : Nat × Nat × Nat :=
  let (c400, r) := (days / 146097, days % 146097)
  let c100 := min (r / 36524) 3
  let r := r - c100 * 36524
  let (c4, r) := (r / 1461, r % 1461)
  let c1 := min (r / 365) 3
  let year := c400 * 400 + c100 * 100 + c4 * 4 + c1 + 1
  (year, monthDay (monthLengths year) 1 (r - c1 * 365))

/-- The days from the start of year 1 to the start of 2001. -/
def epochDays : Nat := 730485

/-- The microseconds of a day. -/
def dayMicroseconds : Nat := 86400000000

/-- The timestamp that lies a count of microseconds after the start of 2001. -/
def ofMicroseconds? (n : Int) : Option Timestamp :=
  let total := n + epochDays * dayMicroseconds
  if total < 0 then none
  else
    let days := total.toNat / dayMicroseconds
    let rest := total.toNat % dayMicroseconds
    let (year, month, day) := ofDays days
    if year > 9999 then none
    else
      let seconds := rest / 1000000
      some ⟨year, month, day, seconds / 3600, seconds / 60 % 60, seconds % 60, rest % 1000000⟩

/-- The timestamp that lies a number of seconds after the start of 2001. The fraction of a second is
scaled to microseconds in double precision, and the sum is rounded, ties to the even number. -/
def ofSeconds? (x : Binary64) : Option Timestamp :=
  if !x.isFinite then none
  else
    let (num, den) := x.quotient
    let fraction := Binary64.nearest false (num % den * 1000000) den
    let (fnum, fden) := fraction.quotient
    let micros := Binary64.roundQuotient (num / den * 1000000 * fden + fnum) fden
    ofMicroseconds? (if x.isNegative then -(micros : Int) else micros)

/-- A number with zeros in front up to a width. -/
def padded (width n : Nat) : String :=
  let digits := Nat.toDigits 10 n
  String.ofList (List.replicate (width - digits.length) '0' ++ digits)

/-- The text of a timestamp, with a separator between day and time; microseconds are shown unless
they are zero. -/
def text (separator : String) (t : Timestamp) : String :=
  padded 4 t.year ++ "-" ++ padded 2 t.month ++ "-" ++ padded 2 t.day ++ separator ++
    padded 2 t.hour ++ ":" ++ padded 2 t.minute ++ ":" ++ padded 2 t.second ++
    (if t.microsecond = 0 then "" else "." ++ padded 6 t.microsecond)

end Timestamp

end ReleaseSeal.Plist
