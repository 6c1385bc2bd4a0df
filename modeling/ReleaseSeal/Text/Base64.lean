/-!
# Base64

Lenient decoding: characters outside the alphabet are skipped, and padding is counted only where it
can complete a group of four. The data ends at the padding that completes a group.
-/

namespace ReleaseSeal.Text

/-- The six bits of a character of the alphabet. -/
def base64Digit? (c : Char) : Option Nat :=
  if 'A' ≤ c && c ≤ 'Z' then some (c.toNat - 65)
  else if 'a' ≤ c && c ≤ 'z' then some (c.toNat - 71)
  else if '0' ≤ c && c ≤ '9' then some (c.toNat + 4)
  else if c = '+' then some 62
  else if c = '/' then some 63
  else none

/-- Decodes from inside a group: `held` digits of it have been read, their unused bits are `left`,
and `pads` padding characters follow them. -/
def base64From (held left pads : Nat) (out : ByteArray) : List Char → Option ByteArray
  | [] => if held = 0 then some out else none
  | c :: rest =>
    if c = '=' then
      if 2 ≤ held then
        if 4 ≤ held + (pads + 1) then some out else base64From held left (pads + 1) out rest
      else base64From held left pads out rest
    else
      match base64Digit? c with
      | none => base64From held left pads out rest
      | some d =>
        match held with
        | 0 => base64From 1 d 0 out rest
        | 1 => base64From 2 (d % 16) 0 (out.push (UInt8.ofNat (left * 4 + d / 16))) rest
        | 2 => base64From 3 (d % 4) 0 (out.push (UInt8.ofNat (left * 16 + d / 4))) rest
        | _ => base64From 0 0 0 (out.push (UInt8.ofNat (left * 64 + d))) rest

/-- The bytes that a text encodes; a group may not be left incomplete at the end. -/
def base64? (cs : List Char) : Option ByteArray :=
  base64From 0 0 0 ByteArray.empty cs

end ReleaseSeal.Text
