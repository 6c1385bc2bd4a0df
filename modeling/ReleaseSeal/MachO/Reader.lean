import ReleaseSeal.Bytes.Order
import ReleaseSeal.Bytes.Slice
import ReleaseSeal.MachO.Error

/-!
# Reading a window of bytes

A `Frame` is what a reader looks at: a window of bytes and a byte order. `Reading` is the type of
actions on a frame that move an offset; an action that fails keeps the offset it has reached. The
elementary actions check their range before they move, so that one that fails does not move at all,
and the offset stays inside the window.
-/

namespace ReleaseSeal.MachO

/-- The mark of a thin binary in its own byte order: 32-bit and 64-bit. -/
def thinMagic32 : UInt32 := 0xfeedface

def thinMagic64 : UInt32 := 0xfeedfacf

/-- The mark of a thin binary. -/
def isThinMagic (magic : UInt32) : Bool :=
  magic == thinMagic32 || magic == thinMagic64

/-- A window of bytes and the order in which its multi-byte fields are read. -/
structure Frame where
  bytes : ByteArray
  order : ByteOrder

/-- The 32-bit word that starts at an offset. -/
def wordAt (order : ByteOrder) (bytes : ByteArray) (offset : Nat) : UInt32 :=
  UInt32.ofNat (order.decode (sliceList bytes offset 4))

/-- The 64-bit word that starts at an offset. -/
def longAt (order : ByteOrder) (bytes : ByteArray) (offset : Nat) : UInt64 :=
  UInt64.ofNat (order.decode (sliceList bytes offset 8))

/-- The byte order that the first word of the data tells: only a thin binary can be in little-endian
order, everything else is read in the order of fat headers and signatures. -/
def probeOrder (bytes : ByteArray) : ByteOrder :=
  if 4 ≤ bytes.size && isThinMagic (wordAt .little bytes 0) then .little else .big

namespace Frame

def size (f : Frame) : Nat := f.bytes.size

/-- The frame of some bytes in a given order, or in the one that they tell. -/
def ofBytes (order : Option ByteOrder) (bytes : ByteArray) : Frame :=
  { bytes, order := order.getD (probeOrder bytes) }

/-- The frame of a window onto some bytes; without a length it reaches to their end. -/
def ofRange (bytes : ByteArray) (start : Int) (length : Option Int) (order : Option ByteOrder) :
    Except Error Frame :=
  let length := length.getD (bytes.size - start)
  if start < 0 || length < 0 || start + length > bytes.size then
    .error (.invalidView start length bytes.size)
  else .ok (ofBytes order (slice bytes start.toNat length.toNat))

/-- A window inside the frame. -/
def view (f : Frame) (start length : Int) (order : Option ByteOrder) : Except Error Frame :=
  if start < 0 || length < 0 || start + length > f.size then
    .error (.rangeOutOfBounds start length f.size)
  else .ok (ofBytes order (slice f.bytes start.toNat length.toNat))

/-- The same window in another byte order, or in the one that its bytes tell. -/
def withOrder (f : Frame) (order : Option ByteOrder) : Frame :=
  ofBytes order f.bytes

/-- The word at an offset, without moving there. A negative offset counts from the end of the
window. -/
def peek (f : Frame) (offset : Int) (order : Option ByteOrder) : Except Error UInt32 :=
  if offset + 4 > f.size then .error (.insufficientMagic offset)
  else if 0 ≤ offset then .ok (wordAt (order.getD f.order) f.bytes offset.toNat)
  -- Counted from the end, the word must neither run over it nor start in front of the window.
  else if offset > -4 || offset + f.size < 0 then .error (.straddledMagic offset)
  else .ok (wordAt (order.getD f.order) f.bytes (offset + f.size).toNat)

end Frame

/-- An action of a reader: what it looks at is fixed, its offset moves. -/
abbrev Reading (α : Type) := ReaderT Frame (EStateM Error Nat) α

namespace Reading

/-- An outcome that does not depend on the reader, as an action that does not move it. -/
def ofOutcome {α : Type} : Except Error α → Reading α
  | .ok a => pure a
  | .error e => throw e

/-- The offset of the reader. -/
def tell : Reading Nat := get

/-- Moves to an offset inside the window, or to its end. -/
def seek (offset : Int) : Reading Unit := do
  let size := (← read).size
  if offset < 0 || offset > size then throw (.seekOutOfRange offset size)
  else set offset.toNat

/-- Moves by a distance, forwards or backwards. -/
def skip (count : Int) : Reading Unit := do
  seek ((← tell) + count)

/-- Moves over a record of a given size and yields where it starts. -/
def record (what : String) (width : Nat) : Reading Nat := do
  let size := (← read).size
  let offset ← tell
  if offset + width > size then throw (.insufficient what width offset (size - offset))
  else
    set (offset + width)
    return offset

/-- A 32-bit word. -/
def word (what : String) : Reading UInt32 := do
  let offset ← record what 4
  let f ← read
  return wordAt f.order f.bytes offset

/-- Two 32-bit words. -/
def wordPair (what : String) : Reading (UInt32 × UInt32) := do
  let offset ← record what 8
  let f ← read
  return (wordAt f.order f.bytes offset, wordAt f.order f.bytes (offset + 4))

/-- The bytes that follow, as many as asked for. -/
def take (count : Int) : Reading ByteArray := do
  let f ← read
  let offset ← tell
  if count < 0 || offset + count > f.size then throw (.insufficientBytes count offset)
  else
    set (offset + count.toNat)
    return slice f.bytes offset count.toNat

/-- The result of an action that starts at the head of a frame. -/
def result {α : Type} (f : Frame) (action : Reading α) : Except Error α :=
  match (action.run f).run 0 with
  | .ok a _ => .ok a
  | .error e _ => .error e

/-- Runs an action on another frame, from its start; the reader itself does not move. -/
def on {α : Type} (f : Frame) (action : Reading α) : Reading α :=
  ofOutcome (result f action)

end Reading

/-- The elementary fields of a record. -/
inductive Field where
  | unsigned32
  | signed32
  | unsigned64
deriving DecidableEq, Repr

namespace Field

def width : Field → Nat
  | unsigned32 | signed32 => 4
  | unsigned64 => 8

/-- The number that a field holds. -/
def numberAt (order : ByteOrder) (bytes : ByteArray) (offset : Nat) : Field → Int
  | unsigned32 => (wordAt order bytes offset).toNat
  | signed32 => (wordAt order bytes offset).toInt32.toInt
  | unsigned64 => (longAt order bytes offset).toNat

/-- The numbers of fields that follow each other. -/
def numbersAt (order : ByteOrder) (bytes : ByteArray) : (offset : Nat) → List Field → List Int
  | _, [] => []
  | offset, field :: rest =>
    field.numberAt order bytes offset :: numbersAt order bytes (offset + field.width) rest

/-- The size of a record of fields. -/
def totalWidth (fields : List Field) : Nat :=
  fields.foldr (fun field size => field.width + size) 0

end Field

/-- Reads a record of elementary fields. -/
def Reading.fields (what : String) (fields : List Field) : Reading (List Int) := do
  let offset ← record what (Field.totalWidth fields)
  let f ← read
  return Field.numbersAt f.order f.bytes offset fields

end ReleaseSeal.MachO
