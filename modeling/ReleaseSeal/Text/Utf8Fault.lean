import ReleaseSeal.Text.Encoding
import ReleaseSeal.Text.Numeral

/-!
# Faults of UTF-8

Where bytes stop being UTF-8, and why: at a byte that starts nothing, in front of a byte that does not
go on with a character, or at the end of the bytes.
-/

namespace ReleaseSeal.Text

/-- Why bytes are not UTF-8. -/
inductive Utf8Cause where
  | invalidStart
  | invalidContinuation
  | unexpectedEnd
deriving DecidableEq, Repr

/-- A fault of UTF-8: where it begins, with which byte, and how many bytes belong to it. -/
structure Utf8Fault where
  position : Nat
  first : UInt8
  length : Nat
  cause : Utf8Cause
deriving DecidableEq, Repr

namespace Utf8Fault

/-- How many bytes go on with a character of a first byte, if it starts one. -/
def following? (first : UInt8) : Option Nat :=
  if first < 0xc2 || 0xf5 ≤ first then none
  else if first < 0xe0 then some 1
  else if first < 0xf0 then some 2
  else some 3

/-- A second byte goes on with a character of a first byte in the shortest form. -/
def isSecond (first second : UInt8) : Bool :=
  let low : UInt8 := if first = 0xe0 then 0xa0 else if first = 0xf0 then 0x90 else 0x80
  let high : UInt8 := if first = 0xed then 0x9f else if first = 0xf4 then 0x8f else 0xbf
  low ≤ second && second ≤ high

/-- How far a character gets that takes some further bytes, and why not further. -/
def extent (isNext : UInt8 → Bool) : (further length : Nat) → List UInt8 → Nat × Utf8Cause
  | _, length, [] => (length, .unexpectedEnd)
  | 0, length, _ => (length, .invalidContinuation)
  | further + 1, length, b :: rest =>
    if isNext b then extent (fun c => 0x80 ≤ c && c < 0xc0) further (length + 1) rest
    else (length, .invalidContinuation)

/-- The fault at the head of bytes. -/
def atHead (position : Nat) (first : UInt8) (rest : List UInt8) : Utf8Fault :=
  match following? first with
  | none => { position, first, length := 1, cause := .invalidStart }
  | some further =>
    let (length, cause) := extent (isSecond first) further 1 rest
    { position, first, length, cause }

/-- The fault in bytes that are not UTF-8. -/
def of (bytes : List UInt8) : Utf8Fault :=
  let decoded := (decode utf8 bytes).1
  let position := decoded.foldl (fun n c => n + c.utf8Size) 0
  match bytes.drop position with
  | [] => { position, first := 0, length := 0, cause := .unexpectedEnd }
  | first :: rest => atHead position first rest

/-- The wording of a fault. -/
def message (f : Utf8Fault) : String :=
  let place :=
    if f.length = 1 then s!"byte 0x{hexPadded 2 f.first.toNat} in position {f.position}"
    else s!"bytes in position {f.position}-{f.position + f.length - 1}"
  let cause := match f.cause with
    | .invalidStart => "invalid start byte"
    | .invalidContinuation => "invalid continuation byte"
    | .unexpectedEnd => "unexpected end of data"
  "'utf-8' codec can't decode " ++ place ++ ": " ++ cause

end Utf8Fault

end ReleaseSeal.Text
