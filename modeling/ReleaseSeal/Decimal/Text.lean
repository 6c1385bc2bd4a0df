import ReleaseSeal.Decimal.Shortest

/-!
# The text of a real number

The shortest decimal form, written out. Numbers from `10⁻⁴` up to `10¹⁶` are positional and keep a
digit after the point; all others have an exponent of two digits at least.
-/

namespace ReleaseSeal.Binary64

/-- The names of the values that have no digits. -/
structure SpecialNames where
  nan : String
  infinity : String

/-- The names in plain reports. -/
def plainNames : SpecialNames := { nan := "nan", infinity := "inf" }

/-- The names in JSON texts. -/
def jsonNames : SpecialNames := { nan := "NaN", infinity := "Infinity" }

/-- Digits with the point after the first `1 + exponent` of them, zeros added where there are
fewer. -/
def positional (digits : List Char) (exponent : Int) : List Char :=
  if exponent < 0 then
    '0' :: '.' :: List.replicate (-exponent - 1).toNat '0' ++ digits
  else
    let whole := exponent.toNat + 1
    let fraction := digits.drop whole
    digits.take whole ++ List.replicate (whole - digits.length) '0' ++ '.' ::
      (if fraction.isEmpty then ['0'] else fraction)

/-- Digits with the point after the first of them, if there are more, and an exponent. -/
def scientific (digits : List Char) (exponent : Int) : List Char :=
  let fraction := digits.drop 1
  let size := Nat.toDigits 10 exponent.natAbs
  digits.take 1 ++ (if fraction.isEmpty then [] else '.' :: fraction) ++
    'e' :: (if exponent < 0 then '-' else '+') :: List.replicate (2 - size.length) '0' ++ size

/-- The text of a number. -/
def text (names : SpecialNames) (x : Binary64) : String :=
  if x.isNaN then names.nan
  else
    let sign := if x.isNegative then "-" else ""
    if x.isInfinite then sign ++ names.infinity
    else
      let (digits, exponent) := x.shortest
      sign ++ String.ofList
        (if -4 ≤ exponent && exponent < 16 then positional digits exponent
         else scientific digits exponent)

end ReleaseSeal.Binary64
