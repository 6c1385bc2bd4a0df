import ReleaseSeal.Decimal.Binary64

/-!
# Shortest decimal form

The fewest decimal digits that read back as a given double and, of those, the nearest to it. For
each count of digits the two neighbours of the number on that decimal grid are tested in exact
arithmetic; if any point of a grid reads back, one of those two does.
-/

namespace ReleaseSeal.Binary64

/-- The reals that round to a positive double, all over one denominator: the double itself is
`value / den`, the ends are `low / den` and `high / den`, and they belong to the interval if
`closed`. -/
structure Interval where
  low : Nat
  value : Nat
  high : Nat
  den : Nat
  closed : Bool

/-- The interval of the reals that round to a finite number. The lower end is nearer where the
number is a power of two, because the spacing of doubles changes there. -/
def interval (x : Binary64) : Interval :=
  let (m, q) := x.significand
  -- Quarters of the spacing, so that both ends are whole numbers.
  let below := if m = leadingBit && q > -1074 then 1 else 2
  let q := q - 2
  let up := if 0 ≤ q then 1 <<< q.toNat else 1
  { low := (4 * m - below) * up, value := 4 * m * up, high := (4 * m + 2) * up,
    den := if 0 ≤ q then 1 else 1 <<< (-q).toNat, closed := m % 2 == 0 }

/-- The point `num / scale` belongs to the interval. -/
def Interval.contains (i : Interval) (num scale : Nat) : Bool :=
  let point := num * i.den
  if i.closed then i.low * scale ≤ point && point ≤ i.high * scale
  else i.low * scale < point && point < i.high * scale

/-- The exponent of the leading decimal digit of the interval's number. -/
def Interval.decimalExponent (i : Interval) : Int :=
  ((Nat.toDigits 10 (i.value * Nat.pow 10 400 / i.den)).length : Int) - 401

/-- The point of a decimal grid next to the interval's number that belongs to the interval: the nearer
of two, the even one on a tie. The grid's step is `10 ^ step`. -/
def Interval.candidate? (i : Interval) (step : Int) : Option Nat :=
  let up := if 0 ≤ step then Nat.pow 10 step.toNat else 1
  let scale := if 0 ≤ step then 1 else Nat.pow 10 (-step).toNat
  let below := i.value * scale / (i.den * up)
  let hits := [below, below + 1].filter fun c => i.contains (c * up) scale
  match hits with
  | [] => none
  | [c] => some c
  | _ => some (roundQuotient (i.value * scale) (i.den * up))

/-- The digits of the shortest decimal form and the exponent of its first digit, searched from
`count` digits on. -/
def Interval.shortestFrom (i : Interval) (exponent : Int) : (fuel count : Nat) → List Char × Int
  | 0, _ => (['0'], exponent)
  | fuel + 1, count =>
    match i.candidate? (exponent - count + 1) with
    | some c =>
      let digits := Nat.toDigits 10 c
      (digits, exponent + (digits.length : Int) - count)
    | none => i.shortestFrom exponent fuel (count + 1)

/-- Digits without the zeros at their end, one digit at least. -/
def dropFinalZeros (digits : List Char) : List Char :=
  match (digits.reverse.dropWhile (· = '0')).reverse with
  | [] => ['0']
  | digits => digits

/-- The shortest decimal form of a finite number's magnitude: its digits, and the exponent of the
first one. Seventeen digits always suffice. -/
def shortest (x : Binary64) : List Char × Int :=
  if x.magnitudeBits = 0 then (['0'], 0)
  else
    let i := x.interval
    let (digits, exponent) := i.shortestFrom i.decimalExponent 17 1
    (dropFinalZeros digits, exponent)

end ReleaseSeal.Binary64
