import ReleaseSeal.Archive.Entry
import ReleaseSeal.Bytes.Order
import ReleaseSeal.Bytes.Slice
import ReleaseSeal.Text.Encoding

/-!
# The directory of a zip archive

A zip archive ends with a trailer, which says where the directory of its entries lies; the directory
is a row of records. Data in front of the archive shifts all offsets: the directory is looked for
right in front of its trailer, and the difference to the offset that the trailer gives is the shift.
-/

namespace ReleaseSeal.Archive

/-- The number that a field of an archive stores; all of them have their low byte first. -/
def fieldAt (bytes : ByteArray) (offset width : Nat) : Nat :=
  ByteOrder.little.decode (sliceList bytes offset width)

/-- The marks at the head of the parts of an archive. -/
inductive Mark where
  | payload
  | record
  | trailer
  | wideLocator
  | wideTrailer

namespace Mark

/-- The bytes of a mark. -/
def bytes : Mark → List UInt8
  | payload => [0x50, 0x4b, 0x03, 0x04]
  | record => [0x50, 0x4b, 0x01, 0x02]
  | trailer => [0x50, 0x4b, 0x05, 0x06]
  | wideLocator => [0x50, 0x4b, 0x06, 0x07]
  | wideTrailer => [0x50, 0x4b, 0x06, 0x06]

/-- A mark stands at an offset. -/
def isAt (mark : Mark) (archive : ByteArray) (offset : Nat) : Bool :=
  sliceList archive offset 4 == mark.bytes

/-- The last offset below `bound`, but not below `first`, at which a mark stands. -/
def lastBelow? (mark : Mark) (archive : ByteArray) (first : Nat) : (bound : Nat) → Option Nat
  | 0 => none
  | offset + 1 =>
    if offset < first then none
    else if mark.isAt archive offset then some offset
    else lastBelow? mark archive first offset

end Mark

/-- Where the directory of an archive lies, and by how much the offsets in it are shifted. -/
structure Extent where
  start : Nat
  size : Nat
  shift : Int

namespace Extent

/-- The size of a trailer. -/
def trailerSize : Nat := 22

/-- A comment behind the trailer is at most this long. -/
def maxComment : Nat := 65536

/-- The size of the pointer to a wide trailer. -/
def locatorSize : Nat := 20

/-- The size of a wide trailer. -/
def wideTrailerSize : Nat := 56

/-- The offset of the trailer: at the end of the archive, or in front of a comment. -/
def trailer? (archive : ByteArray) : Option Nat :=
  if archive.size < trailerSize then none
  else
    let last := archive.size - trailerSize
    -- Without a comment the trailer is the end of the archive.
    if Mark.trailer.isAt archive last && fieldAt archive (last + 20) 2 == 0 then some last
    else
      let first := archive.size - trailerSize - maxComment
      match Mark.trailer.lastBelow? archive first archive.size with
      | none => none
      | some offset => if offset + trailerSize ≤ archive.size then some offset else none

/-- The size and the offset of the directory that a wide trailer gives, if the archive has one. It
stands with its pointer in front of the trailer; several volumes are not admitted. -/
def wide (archive : ByteArray) (trailer : Nat) : Option (Option (Nat × Nat)) :=
  let locator := trailer - locatorSize
  let record := trailer - locatorSize - wideTrailerSize
  if trailer < locatorSize || !Mark.wideLocator.isAt archive locator then some none
  else if fieldAt archive (locator + 4) 4 ≠ 0 || fieldAt archive (locator + 16) 4 > 1 then none
  else if trailer < locatorSize + wideTrailerSize then none
  else if !Mark.wideTrailer.isAt archive record then some none
  else some (some (fieldAt archive (record + 40) 8, fieldAt archive (record + 48) 8))

/-- The directory of `size` bytes that ends at `finish`, if it does not begin in front of the archive;
`offset` is where it would begin without a shift. -/
def endingAt? (finish : Int) (size offset : Nat) : Option Extent :=
  if finish < size then none
  else some { start := (finish - size).toNat, size, shift := finish - size - offset }

/-- Finds the directory of an archive. -/
def of? (archive : ByteArray) : Option Extent := do
  let trailer ← trailer? archive
  match ← wide archive trailer with
  | some (size, offset) =>
    endingAt? ((trailer : Int) - (locatorSize + wideTrailerSize : Nat)) size offset
  | none => endingAt? trailer (fieldAt archive (trailer + 12) 4) (fieldAt archive (trailer + 16) 4)

end Extent

/-- A record of the directory. The name is kept as it is stored; the offset is that of the entry's
payload with the head in front of it. -/
structure Record where
  name : String
  flags : Nat
  method : Nat
  checksum : Nat
  storedSize : Nat
  size : Nat
  offset : Int

namespace Record

/-- The size of a record without its name, its extra fields and its comment. -/
def baseSize : Nat := 46

/-- The latest version of the format that is understood. -/
def latestVersion : Nat := 63

/-- A flag is set. -/
def hasFlag (flags bit : Nat) : Bool :=
  flags.testBit bit

/-- Names are in UTF-8 if a flag says so, and in code page 437 otherwise. -/
def nameDecoder (flags : Nat) : Text.ScalarDecoder :=
  if hasFlag flags 11 then Text.utf8 else Text.codePage437

/-- The path of an entry: its name up to a null character. -/
def path (r : Record) : String :=
  String.ofList (r.name.toList.takeWhile (· ≠ '\x00'))

/-- The entry is a directory. -/
def isDir (r : Record) : Bool :=
  Text.endsWith r.path "/"

/-- What a field holds that is too narrow for its number. -/
def overflow : Nat := 0xffffffff

/-- Takes a wide number from an extra field if the narrow one has overflown. -/
def wideNumber? (overflown : Bool) (narrow : Nat) (extra : List UInt8) : Option (Nat × List UInt8) :=
  if !overflown then some (narrow, extra)
  else if extra.length < 8 then none
  else some (ByteOrder.little.decode (extra.take 8), extra.drop 8)

/-- A record with the wide numbers of an extra field. -/
def widen? (r : Record) (extra : List UInt8) : Option Record := do
  let (size, extra) ←
    wideNumber? (r.size == overflow || r.size == 0xffffffffffffffff) r.size extra
  let (storedSize, extra) ← wideNumber? (r.storedSize == overflow) r.storedSize extra
  let (offset, _) ← wideNumber? (r.offset == overflow) r.offset.toNat extra
  return { r with size, storedSize, offset }

/-- The kind of extra field that holds wide numbers. -/
def wideKind : Nat := 1

/-- A record with what its extra fields say, each of which must be complete. -/
def withExtra? (r : Record) (extra : List UInt8) : Option Record :=
  if extra.length < 4 then some r
  else
    let kind := ByteOrder.little.decode (extra.take 2)
    let length := ByteOrder.little.decode ((extra.drop 2).take 2)
    if extra.length < length + 4 then none
    else
      let next := if kind = wideKind then r.widen? ((extra.drop 4).take length) else some r
      match next with
      | none => none
      | some r => withExtra? r (extra.drop (length + 4))
termination_by extra.length
decreasing_by simp only [List.length_drop]; omega

/-- Reads the record at an offset of a directory, which names the archive of a path. -/
def ofDirectory (archive : String) (directory : ByteArray) (start : Nat) (shift : Int) :
    Except Error Record :=
  if directory.size < start + baseSize || !Mark.record.isAt directory start then
    .error (.cannotOpen archive)
  else
    let flags := fieldAt directory (start + 8) 2
    let nameLength := fieldAt directory (start + 28) 2
    let extraLength := fieldAt directory (start + 30) 2
    let stored := sliceList directory (start + baseSize) nameLength
    match Text.decode? (nameDecoder flags) stored with
    | none => .error (.undecodableName (.of stored))
    | some name =>
      let r : Record :=
        { name, flags,
          method := fieldAt directory (start + 10) 2,
          checksum := fieldAt directory (start + 16) 4,
          storedSize := fieldAt directory (start + 20) 4,
          size := fieldAt directory (start + 24) 4,
          offset := fieldAt directory (start + 42) 4 }
      if fieldAt directory (start + 6) 1 > latestVersion then .error .unsupported
      else
        match r.withExtra? (sliceList directory (start + baseSize + nameLength) extraLength) with
        | none => .error (.cannotOpen archive)
        | some r => .ok { r with offset := r.offset + shift }

/-- The size of the record at an offset of a directory. -/
def sizeAt (directory : ByteArray) (start : Nat) : Nat :=
  baseSize + fieldAt directory (start + 28) 2 + fieldAt directory (start + 30) 2 +
    fieldAt directory (start + 32) 2

/-- Reads the records of a directory from an offset on. -/
def allFrom (archive : String) (directory : ByteArray) (shift : Int) (start : Nat) :
    Except Error (List Record) :=
  if start < directory.size then do
    let r ← ofDirectory archive directory start shift
    return r :: (← allFrom archive directory shift (start + sizeAt directory start))
  else .ok []
termination_by directory.size - start
decreasing_by simp only [sizeAt, baseSize]; omega

end Record

end ReleaseSeal.Archive
