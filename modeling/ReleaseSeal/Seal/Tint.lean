import ReleaseSeal.Text.Blank
import ReleaseSeal.Text.Numeral

/-!
# Tints

A tint is a color of six hexadecimal digits, or of eight with its opacity. A number sign in front,
white space around it and the case of the digits do not matter; the normal form has upper-case digits
only.
-/

namespace ReleaseSeal.Seal

/-- A hexadecimal digit in ASCII. -/
def isHexDigit (c : Char) : Bool :=
  ('0' ≤ c && c ≤ '9') || ('a' ≤ c && c ≤ 'f') || ('A' ≤ c && c ≤ 'F')

/-- A text without one number sign in front. -/
def withoutNumberSign : List Char → List Char
  | '#' :: rest => rest
  | cs => cs

/-- The normal form of a color without white space around it. -/
def color? (cs : List Char) : Option String :=
  let digits := withoutNumberSign cs
  if (digits.length = 6 ∨ digits.length = 8) ∧ digits.all isHexDigit then
    some (String.ofList (digits.map Char.toUpper))
  else none

/-- The normal form of a tint, or none for a blank one; `none` if it is not one. -/
def normalTint? (tint : String) : Option (Option String) :=
  match Text.trimList Text.isBlank tint.toList with
  | [] => some none
  | cs => (color? cs).map some

end ReleaseSeal.Seal
