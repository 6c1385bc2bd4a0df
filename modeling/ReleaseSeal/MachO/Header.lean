import ReleaseSeal.MachO.Cpu
import ReleaseSeal.MachO.Reader

/-!
# Headers

The headers of thin and fat binaries, read from bytes and written to bytes. A field keeps the width
that its record gives it, so that every header has an encoding.
-/

namespace ReleaseSeal.MachO

/-- The two layouts of a thin header. The wider one ends with a word that is reserved. -/
inductive Layout where
  | bits32
  | bits64 (reserved : UInt32)
deriving DecidableEq, Repr

namespace Layout

/-- The mark of a header. -/
def magic : Layout → UInt32
  | bits32 => thinMagic32
  | bits64 _ => thinMagic64

/-- The size of a header. -/
def headerSize : Layout → Nat
  | bits32 => 28
  | bits64 _ => 32

end Layout

/-- The header of a thin binary. -/
structure Header where
  layout : Layout
  cpuType : Int32
  cpuSubtype : Int32
  fileType : UInt32
  commandCount : UInt32
  commandsSize : UInt32
  flags : UInt32
deriving DecidableEq, Repr

namespace Header

def size (h : Header) : Nat := h.layout.headerSize

/-- The name of the header's architecture. -/
def name (h : Header) : String :=
  archName h.cpuType.toInt h.cpuSubtype.toInt

/-- The header whose fields follow a mark at an offset. -/
def decode (order : ByteOrder) (bytes : ByteArray) (offset : Nat) (layout : Layout) : Header :=
  let field (i : Nat) := wordAt order bytes (offset + 4 * i)
  { layout, cpuType := (field 1).toInt32, cpuSubtype := (field 2).toInt32, fileType := field 3,
    commandCount := field 4, commandsSize := field 5, flags := field 6 }

/-- The bytes of a header. -/
def encode (order : ByteOrder) (h : Header) : List UInt8 :=
  let words := [h.layout.magic, h.cpuType.toUInt32, h.cpuSubtype.toUInt32, h.fileType,
    h.commandCount, h.commandsSize, h.flags]
  let reserved := match h.layout with
    | .bits32 => []
    | .bits64 reserved => [reserved]
  (words ++ reserved).flatMap fun w => order.encode 4 w.toNat

/-- Reads the header at the reader's offset; its mark tells which layout it has. -/
def read : Reading Header := do
  let f ← MonadReader.read
  let magic ← Reading.ofOutcome (f.peek (← Reading.tell) none)
  if magic = thinMagic64 then
    let offset ← Reading.record "mach header" 32
    return decode f.order f.bytes offset (.bits64 (wordAt f.order f.bytes (offset + 28)))
  else
    let offset ← Reading.record "mach header" 28
    return decode f.order f.bytes offset .bits32

end Header

/-- A record of a fat binary: an architecture, and the range of the file that holds its slice. -/
structure FatArch where
  cpuType : Int32
  cpuSubtype : Int32
  offset : UInt64
  size : UInt64
  align : UInt32
deriving DecidableEq, Repr

/-- The name of the record's architecture. -/
def FatArch.name (a : FatArch) : String :=
  archName a.cpuType.toInt a.cpuSubtype.toInt

/-- The two widths of the ranges in a fat header. -/
inductive FatLayout where
  | bits32
  | bits64
deriving DecidableEq, Repr

namespace FatLayout

/-- The mark of a fat header, always stored in big-endian order. -/
def magic : FatLayout → UInt32
  | bits32 => 0xcafebabe
  | bits64 => 0xcafebabf

/-- The layout that a mark stands for. -/
def ofMagic? (magic : UInt32) : Option FatLayout :=
  if magic = 0xcafebabe then some bits32
  else if magic = 0xcafebabf then some bits64
  else none

/-- The size of an architecture record. -/
def recordSize : FatLayout → Nat
  | bits32 => 20
  | bits64 => 32

/-- The architecture record at an offset. The wider one ends with a word that means nothing. -/
def decode (layout : FatLayout) (bytes : ByteArray) (offset : Nat) : FatArch :=
  let word (i : Nat) := wordAt .big bytes (offset + i)
  match layout with
  | bits32 =>
    { cpuType := (word 0).toInt32, cpuSubtype := (word 4).toInt32, offset := (word 8).toUInt64,
      size := (word 12).toUInt64, align := word 16 }
  | bits64 =>
    { cpuType := (word 0).toInt32, cpuSubtype := (word 4).toInt32,
      offset := longAt .big bytes (offset + 8), size := longAt .big bytes (offset + 16),
      align := word 24 }

/-- The bytes of an architecture record. -/
def encode (layout : FatLayout) (a : FatArch) : List UInt8 :=
  let word (w : UInt32) := ByteOrder.big.encode 4 w.toNat
  let range (w : UInt64) := match layout with
    | bits32 => ByteOrder.big.encode 4 w.toNat
    | bits64 => ByteOrder.big.encode 8 w.toNat
  let reserved := match layout with
    | bits32 => []
    | bits64 => word 0
  word a.cpuType.toUInt32 ++ word a.cpuSubtype.toUInt32 ++ range a.offset ++ range a.size ++
    word a.align ++ reserved

/-- The bytes of a fat header with its records. -/
def encodeHeader (layout : FatLayout) (arches : List FatArch) : List UInt8 :=
  ByteOrder.big.encode 4 layout.magic.toNat ++ ByteOrder.big.encode 4 arches.length ++
    arches.flatMap layout.encode

/-- Reads records from the reader's offset on; `index` numbers them. -/
def readRecords (layout : FatLayout) : (count index : Nat) → Reading (List FatArch)
  | 0, _ => return []
  | count + 1, index => do
    let offset ← Reading.record s!"fat arch {index}" layout.recordSize
    let arch := layout.decode (← MonadReader.read).bytes offset
    return arch :: (← readRecords layout count (index + 1))

end FatLayout

end ReleaseSeal.MachO
