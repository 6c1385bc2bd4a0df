import ReleaseSeal.Plist.Binary
import ReleaseSeal.Plist.Document

/-!
# Decoding property lists

The format of a property list is told by its first bytes: those of an XML declaration or of the root
tag, plain or behind a byte order mark, or the name of the binary format.
-/

namespace ReleaseSeal.Plist

/-- The bytes that a document in markup may start with. -/
def markupOpenings : List (List UInt8) :=
  let ascii (s : String) : List UInt8 := s.toList.map fun c => UInt8.ofNat c.toNat
  ["<?xml", "<plist"].flatMap fun opening =>
    [ascii opening,
     [0xef, 0xbb, 0xbf] ++ ascii opening,
     [0xfe, 0xff] ++ (ascii opening).flatMap fun b => [0, b],
     [0xff, 0xfe] ++ (ascii opening).flatMap fun b => [b, 0]]

/-- The bytes that the binary format starts with. -/
def binaryOpening : List UInt8 :=
  "bplist00".toList.map fun c => UInt8.ofNat c.toNat

/-- The value of a property list in either format. -/
def decode [Host] (bytes : ByteArray) : Except Failure Value :=
  let head := sliceList bytes 0 32
  if markupOpenings.any fun opening => opening.isPrefixOf head then ofMarkup bytes
  else if binaryOpening.isPrefixOf head then
    if overflows bytes then .error (.fault .tooDeep) else wellFormed (ofBinary? bytes)
  else .error .malformed

end ReleaseSeal.Plist
