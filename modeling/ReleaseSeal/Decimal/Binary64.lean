/-!
# Binary64

A double-precision number by its IEEE 754 bits, so that values compare by `=` and a NaN is a value
like any other. The arithmetic here is exact: a finite number is `m · 2 ^ q`, and `nearest` rounds a
quotient of natural numbers to the nearest double, ties to the even significand.
-/

namespace ReleaseSeal

/-- A double-precision number, by its bits. -/
structure Binary64 where
  bits : UInt64
deriving DecidableEq, Repr, Inhabited

namespace Binary64

/-- The bits of positive infinity. -/
def infinityBits : Nat := 0x7ff0000000000000

/-- The bit that holds the sign. -/
def signBit : Nat := 0x8000000000000000

/-- The weight of the leading bit of a normal number's significand, which is not stored. -/
def leadingBit : Nat := 0x10000000000000

/-- A double of a sign and a magnitude, the latter given by its bits. -/
def ofSignMagnitude (negative : Bool) (magnitude : Nat) : Binary64 :=
  ⟨UInt64.ofNat (magnitude + if negative then signBit else 0)⟩

def infinity (negative : Bool) : Binary64 := ofSignMagnitude negative infinityBits

def nan : Binary64 := ⟨0x7ff8000000000000⟩

/-- The sign, true for minus. -/
def isNegative (x : Binary64) : Bool := signBit ≤ x.bits.toNat

/-- The bits without the sign. -/
def magnitudeBits (x : Binary64) : Nat := x.bits.toNat % signBit

def isNaN (x : Binary64) : Bool := infinityBits < x.magnitudeBits

def isInfinite (x : Binary64) : Bool := x.magnitudeBits == infinityBits

def isFinite (x : Binary64) : Bool := x.magnitudeBits < infinityBits

/-- The significand and the exponent of a finite number: its magnitude is `m · 2 ^ q`. -/
def significand (x : Binary64) : Nat × Int :=
  let exponent : Nat := x.magnitudeBits / leadingBit
  let fraction : Nat := x.magnitudeBits % leadingBit
  if exponent = 0 then (fraction, -1074) else (leadingBit + fraction, (exponent : Int) - 1075)

/-- The magnitude of a finite number as a quotient of natural numbers. -/
def quotient (x : Binary64) : Nat × Nat :=
  let (m, q) := x.significand
  if 0 ≤ q then (m <<< q.toNat, 1) else (m, 1 <<< (-q).toNat)

/-- A quotient rounded to the nearest natural number, ties to the even one. -/
def roundQuotient (num den : Nat) : Nat :=
  let q := num / den
  let r := num % den
  if den < 2 * r || (2 * r == den && q % 2 == 1) then q + 1 else q

/-- The bits of the positive double nearest to `num / den`, for `num` and `den` not zero. The
exponent `k` is chosen so that the significand has 53 bits, or is the least exponent there is. -/
def nearestBits (num den : Nat) : Nat :=
  let estimate : Int := (num.log2 : Int) - den.log2 - 52
  let scaled (k : Int) : Nat × Nat :=
    if 0 ≤ k then (num, den <<< k.toNat) else (num <<< (-k).toNat, den)
  let (n, d) := scaled estimate
  -- The bit lengths of `num` and `den` fix the exponent up to one.
  let k := max (if n / d < leadingBit then estimate - 1 else estimate) (-1074)
  let (n, d) := scaled k
  min ((k + 1074).toNat * leadingBit + roundQuotient n d) infinityBits

/-- The double nearest to a quotient with a sign. -/
def nearest (negative : Bool) (num den : Nat) : Binary64 :=
  ofSignMagnitude negative (if num = 0 then 0 else nearestBits num den)

/-- The double nearest to `m · 10 ^ e` with a sign. An exponent far outside the range of doubles is
settled without computing the power. -/
def ofDecimal (negative : Bool) (m : Nat) (e : Int) : Binary64 :=
  if m = 0 then ofSignMagnitude negative 0
  else
    let order : Int := (Nat.toDigits 10 m).length + e
    if order > 400 then infinity negative
    else if order < -400 then ofSignMagnitude negative 0
    else if 0 ≤ e then nearest negative (m * Nat.pow 10 e.toNat) 1
    else nearest negative m (Nat.pow 10 (-e).toNat)

/-- The double of a single-precision number, by that number's bits. -/
def ofSingle (bits : Nat) : Binary64 :=
  let negative := bits >>> 31 % 2 == 1
  let exponent := bits >>> 23 % 256
  let fraction := bits % 0x800000
  if exponent = 255 then
    if fraction = 0 then infinity negative
    else ofSignMagnitude negative (infinityBits + fraction <<< 29)
  else if exponent = 0 then nearest negative fraction (1 <<< 149)
  else ofSignMagnitude negative ((exponent + 896) * leadingBit + fraction <<< 29)

end Binary64

end ReleaseSeal
