import ReleaseSeal.Decimal.Binary64
import ReleaseSeal.Text.Numeral

/-!
# Real literals

The text of a real number: an optional sign, then digits with at most one point and an optional
exponent, or a name of infinity or of the value that is not a number. Single underscores may
separate two digits and white space may surround the literal. The value is the nearest double.
-/

namespace ReleaseSeal.Text

/-- The text without its underscores, if each of them stands between two digits. -/
def withoutUnderscores? : (afterDigit : Bool) → List Char → Option (List Char)
  | _, [] => some []
  | afterDigit, c :: rest =>
    if c = '_' then
      match rest with
      | d :: _ => if afterDigit && d.isDigit then withoutUnderscores? false rest else none
      | [] => none
    else (withoutUnderscores? c.isDigit rest).map (c :: ·)

/-- The digits at the head of a text, as values, and the rest. -/
def spanDigits (cs : List Char) : List Nat × List Char :=
  ((cs.takeWhile Char.isDigit).map fun c => c.toNat - 48, cs.dropWhile Char.isDigit)

/-- The value of an exponent mark with its digits; the whole text must be used up. -/
def exponent? : List Char → Option Int
  | [] => some 0
  | mark :: rest =>
    if mark = 'e' || mark = 'E' then
      let (negative, body) := splitSign rest
      match spanDigits body with
      | ([], _) => none
      | (digits, []) =>
        let n : Int := ofDigitList 10 digits
        some (if negative then -n else n)
      | _ => none
    else none

/-- The value of an unsigned numeral with an optional point and exponent. -/
def unsignedReal? (negative : Bool) (cs : List Char) : Option Binary64 :=
  let (whole, rest) := spanDigits cs
  let (fraction, rest) := match rest with
    | '.' :: rest => spanDigits rest
    | rest => ([], rest)
  if whole.isEmpty && fraction.isEmpty then none
  else (exponent? rest).map fun e =>
    Binary64.ofDecimal negative (ofDigitList 10 (whole ++ fraction)) (e - fraction.length)

/-- A digit of any script as the ASCII digit of its value. -/
def asciiDigit (c : Char) : Char :=
  match decimalDigit? c with
  | some d => Char.ofNat (48 + d)
  | none => c

/-- The value of a real literal. -/
def real? (s : String) : Option Binary64 :=
  match withoutUnderscores? false ((trimList isNumeralBlank s.toList).map asciiDigit) with
  | none => none
  | some cs =>
    let (negative, body) := splitSign cs
    let lower := String.ofList (body.map Char.toLower)
    if lower = "inf" || lower = "infinity" then some (Binary64.infinity negative)
    else if lower = "nan" then some Binary64.nan
    else unsignedReal? negative body

end ReleaseSeal.Text
