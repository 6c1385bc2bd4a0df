import ReleaseSeal.Bytes.Order

/-!
# Character encodings

Decoding bytes to text, one scalar value at a time. A decoder is a function that reads the scalar
at the head of the bytes and says how many bytes it takes; `decode` runs one over all bytes and
`decode?` asks that nothing is left undecoded.
-/

namespace ReleaseSeal.Text

/-- Reads the scalar value at the head of the bytes, and how many bytes it takes. -/
abbrev ScalarDecoder := List UInt8 → Option (Char × Nat)

/-- The character of a scalar value. -/
def scalar? (n : Nat) : Option Char :=
  if h : n.isValidChar then some (Char.ofNatAux n h) else none

/-- The payload of a continuation byte of UTF-8. -/
def continuation? (b : UInt8) : Option Nat :=
  if 0x80 ≤ b && b < 0xc0 then some (b.toNat - 0x80) else none

/-- A scalar of UTF-8 in the shortest form. -/
def utf8 : ScalarDecoder
  | [] => none
  | a :: rest =>
    if a < 0x80 then some (Char.ofNat a.toNat, 1)
    else if 0xc2 ≤ a && a < 0xe0 then
      match rest with
      | b :: _ => do
        let b ← continuation? b
        return (← scalar? ((a.toNat - 0xc0) * 64 + b), 2)
      | _ => none
    else if 0xe0 ≤ a && a < 0xf0 then
      match rest with
      | b :: c :: _ => do
        let n := (a.toNat - 0xe0) * 4096 + (← continuation? b) * 64 + (← continuation? c)
        if n < 0x800 then none else return (← scalar? n, 3)
      | _ => none
    else if 0xf0 ≤ a && a < 0xf5 then
      match rest with
      | b :: c :: d :: _ => do
        let n := (a.toNat - 0xf0) * 262144 + (← continuation? b) * 4096 + (← continuation? c) * 64 +
          (← continuation? d)
        if n < 0x10000 then none else return (← scalar? n, 4)
      | _ => none
    else none

/-- A scalar of UTF-16, stored in one unit or in a pair of surrogates. -/
def utf16 (order : ByteOrder) : ScalarDecoder
  | a :: b :: rest =>
    let unit := order.decode [a, b]
    if 0xd800 ≤ unit && unit < 0xdc00 then
      match rest with
      | c :: d :: _ =>
        let low := order.decode [c, d]
        if 0xdc00 ≤ low && low < 0xe000 then
          (scalar? (0x10000 + (unit - 0xd800) * 1024 + (low - 0xdc00))).map (·, 4)
        else none
      | _ => none
    else (scalar? unit).map (·, 2)
  | _ => none

/-- As `utf16`, but a high surrogate pairs with whatever unit follows it, of which only the low ten
bits count. -/
def utf16Loose (order : ByteOrder) : ScalarDecoder
  | a :: b :: rest =>
    let unit := order.decode [a, b]
    if 0xd800 ≤ unit && unit < 0xdc00 then
      match rest with
      | c :: d :: _ =>
        let low := order.decode [c, d] % 1024
        (scalar? (0x10000 + (unit - 0xd800) * 1024 + low)).map (·, 4)
      | _ => none
    else (scalar? unit).map (·, 2)
  | _ => none

/-- Every byte is the scalar of its number. -/
def latin1 : ScalarDecoder
  | [] => none
  | a :: _ => some (Char.ofNat a.toNat, 1)

/-- As `latin1`, but only the lower half is defined. -/
def ascii : ScalarDecoder
  | [] => none
  | a :: _ => if a < 0x80 then some (Char.ofNat a.toNat, 1) else none

/-- Single bytes with ASCII in the lower half and a table of characters for the upper. A byte stands
for nothing if it has U+FFFD in the table or no place there. -/
def octets (upper : Array Char) : ScalarDecoder
  | [] => none
  | a :: _ =>
    if a < 0x80 then some (Char.ofNat a.toNat, 1)
    else
      match upper[a.toNat - 0x80]? with
      | some c => if c = '\ufffd' then none else some (c, 1)
      | none => none

/-- The upper half of code page 437. -/
def codePage437High : String :=
  "ÇüéâäàåçêëèïîìÄÅÉæÆôöòûùÿÖÜ¢£¥₧ƒáíóúñÑªº¿⌐¬½¼¡«»" ++
  "░▒▓│┤╡╢╖╕╣║╗╝╜╛┐└┴┬├─┼╞╟╚╔╩╦╠═╬╧╨╤╥╙╘╒╓╫╪┘┌█▄▌▐▀" ++
  "αßΓπΣσµτΦΘΩδ∞φε∩≡±≥≤⌠⌡÷≈°∙·√ⁿ²■\u00a0"

/-- The lower half is ASCII, the upper half has letters, box drawing and signs. -/
def codePage437 : ScalarDecoder :=
  octets codePage437High.toList.toArray

/-- Runs a decoder over the bytes. `skip` counts the bytes that the last scalar still covers; the
flag says that all bytes were decoded. -/
def decodeFrom (decoder : ScalarDecoder) : (skip : Nat) → List Char → List UInt8 → List Char × Bool
  | skip, acc, [] => (acc.reverse, skip == 0)
  | skip + 1, acc, _ :: rest => decodeFrom decoder skip acc rest
  | 0, acc, b :: rest =>
    match decoder (b :: rest) with
    | none => (acc.reverse, false)
    | some (c, n) => decodeFrom decoder (n - 1) (c :: acc) rest

/-- The characters up to the first bytes that the decoder refuses, and whether there are none. -/
def decode (decoder : ScalarDecoder) (bytes : List UInt8) : List Char × Bool :=
  decodeFrom decoder 0 [] bytes

/-- The text of bytes that decode as a whole. -/
def decode? (decoder : ScalarDecoder) (bytes : List UInt8) : Option String :=
  match decode decoder bytes with
  | (cs, true) => some (String.ofList cs)
  | _ => none

end ReleaseSeal.Text
