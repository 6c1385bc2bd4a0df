import ReleaseSeal.Text.Blank

/-!
# Numerals

Digits and integer literals. A decimal digit is any character of Unicode's class `Nd`; single
underscores may separate digits; a sign and surrounding white space are allowed. A hexadecimal
literal starts with `0x`.
-/

namespace ReleaseSeal.Text

/-- The zeros of Unicode's blocks of ten decimal digits. -/
def decimalZeros : List Nat :=
  [0x30, 0x660, 0x6f0, 0x7c0, 0x966, 0x9e6, 0xa66, 0xae6, 0xb66, 0xbe6, 0xc66, 0xce6, 0xd66, 0xde6,
   0xe50, 0xed0, 0xf20, 0x1040, 0x1090, 0x17e0, 0x1810, 0x1946, 0x19d0, 0x1a80, 0x1a90, 0x1b50,
   0x1bb0, 0x1c40, 0x1c50, 0xa620, 0xa8d0, 0xa900, 0xa9d0, 0xa9f0, 0xaa50, 0xabf0, 0xff10, 0x104a0,
   0x10d30, 0x11066, 0x110f0, 0x11136, 0x111d0, 0x112f0, 0x11450, 0x114d0, 0x11650, 0x116c0,
   0x11730, 0x118e0, 0x11950, 0x11c50, 0x11d50, 0x11da0, 0x16a60, 0x16ac0, 0x16b50, 0x1d7ce,
   0x1d7d8, 0x1d7e2, 0x1d7ec, 0x1d7f6, 0x1e140, 0x1e2f0, 0x1e950, 0x1fbf0]

/-- The value of a decimal digit of any script. -/
def decimalDigit? (c : Char) : Option Nat :=
  (decimalZeros.find? fun z => z ≤ c.toNat && c.toNat < z + 10).map (c.toNat - ·)

/-- The value of a hexadecimal digit. -/
def hexDigit? (c : Char) : Option Nat :=
  if 'a' ≤ c && c ≤ 'f' then some (c.toNat - 87)
  else if 'A' ≤ c && c ≤ 'F' then some (c.toNat - 55)
  else decimalDigit? c

/-- The values of digits, single underscores between two of them left out. `afterDigit` says that
the character before is a digit, so that an underscore may follow or the run may end. -/
def digitRun? (value : Char → Option Nat) : (afterDigit : Bool) → List Char → Option (List Nat)
  | afterDigit, [] => if afterDigit then some [] else none
  | afterDigit, c :: rest =>
    if c = '_' && afterDigit then digitRun? value false rest
    else match value c with
      | none => none
      | some d => (digitRun? value true rest).map (d :: ·)

/-- The number that digits denote in a base, most significant first. -/
def ofDigitList (base : Nat) (digits : List Nat) : Nat :=
  digits.foldl (fun n d => n * base + d) 0

/-- A sign, `true` for minus, and what follows it. -/
def splitSign : List Char → Bool × List Char
  | '-' :: rest => (true, rest)
  | '+' :: rest => (false, rest)
  | rest => (false, rest)

/-- A decimal literal may have this many digits. -/
def maxDecimalDigits : Nat := 4300

/-- The number has more digits than a decimal literal may have. -/
def isLongNumeral (n : Int) : Bool :=
  Nat.pow 10 maxDecimalDigits ≤ n.natAbs

/-- The value of a decimal integer literal. -/
def decimalInt? (s : String) : Option Int :=
  let (negative, body) := splitSign (trimList isNumeralBlank s.toList)
  match digitRun? decimalDigit? false body with
  | none => none
  | some digits =>
    if digits.length > maxDecimalDigits then none
    else
      let n : Int := ofDigitList 10 digits
      some (if negative then -n else n)

/-- The value of a hexadecimal integer literal, which starts with `0x` and may continue with an
underscore. -/
def hexInt? (s : String) : Option Int :=
  match (s.toList.reverse.dropWhile isNumeralBlank).reverse with
  | '0' :: x :: rest =>
    if x = 'x' || x = 'X' then
      let body := match rest with
        | '_' :: rest => rest
        | rest => rest
      (digitRun? hexDigit? false body).map fun digits => (ofDigitList 16 digits : Int)
    else none
  | _ => none

/-- The hexadecimal digits of a number, lower case, with zeros in front up to a width. -/
def hexPadded (width n : Nat) : String :=
  let digits := Nat.toDigits 16 n
  String.ofList (List.replicate (width - digits.length) '0' ++ digits)

/-- A hexadecimal literal, the sign in front of its mark. -/
def hexLiteral (n : Int) : String :=
  (if n < 0 then "-0x" else "0x") ++ hexPadded 0 n.natAbs

/-- A 32-bit word as a hexadecimal literal of eight digits. -/
def hexWord (n : UInt32) : String :=
  "0x" ++ hexPadded 8 n.toNat

end ReleaseSeal.Text
