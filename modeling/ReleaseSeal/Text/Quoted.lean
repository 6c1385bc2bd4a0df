import ReleaseSeal.Text.Hidden
import ReleaseSeal.Text.Numeral

/-!
# Quoted text

A text or a byte string between quotes, the way the reports show keys and values. Single quotes are
used unless the text holds one and no double quote; a backslash, the quote itself and everything
without a printed form are escaped.
-/

namespace ReleaseSeal.Text

/-- The quote for a text: the single one, unless only that one occurs in it. -/
def quoteFor (cs : List Char) : Char :=
  if cs.contains '\'' && !cs.contains '"' then '"' else '\''

/-- A character between quotes; `hidden` says which characters are written by their number. -/
def quotedChar (hidden : Char → Bool) (quote c : Char) : List Char :=
  if c = quote || c = '\\' then ['\\', c]
  else if c = '\n' then ['\\', 'n']
  else if c = '\r' then ['\\', 'r']
  else if c = '\t' then ['\\', 't']
  else if hidden c then
    if c.toNat < 0x100 then '\\' :: 'x' :: (hexPadded 2 c.toNat).toList
    else if c.toNat < 0x10000 then '\\' :: 'u' :: (hexPadded 4 c.toNat).toList
    else '\\' :: 'U' :: (hexPadded 8 c.toNat).toList
  else [c]

/-- A text between quotes. -/
def quoted (s : String) : String :=
  let cs := s.toList
  let quote := quoteFor cs
  String.ofList (quote :: cs.flatMap (quotedChar isHidden quote) ++ [quote])

/-- A byte string between quotes, each byte shown as the ASCII character of its number or by that
number. -/
def quotedBytes (bytes : ByteArray) : String :=
  let cs := bytes.data.toList.map fun b => Char.ofNat b.toNat
  let quote := quoteFor cs
  let hidden := fun c : Char => c.toNat < 0x20 || 0x7f ≤ c.toNat
  "b" ++ String.ofList (quote :: cs.flatMap (quotedChar hidden quote) ++ [quote])

end ReleaseSeal.Text
