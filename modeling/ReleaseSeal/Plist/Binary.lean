import ReleaseSeal.Bytes.Slice
import ReleaseSeal.Plist.Failure
import ReleaseSeal.Plist.Value
import ReleaseSeal.Text.Encoding

/-!
# Binary property lists

The binary format: objects at offsets that a table lists, and a trailer at the end of the data that
says where the table is. Containers refer to their parts by index into the table, so one object may be
part of several containers, and of itself. Everything is stored with the most significant byte first.
-/

namespace ReleaseSeal.Plist

/-- The data of a binary property list with its table of offsets. -/
structure ObjectTable where
  bytes : ByteArray
  offsets : Array Nat
  referenceSize : Nat

/-- The number stored in the `width` bytes at an offset, or in as many of them as there are. -/
def wordAt (bytes : ByteArray) (offset width : Nat) : Nat :=
  ByteOrder.big.decode (sliceList bytes offset width)

/-- The `width` bytes at an offset, if all of them are there. -/
def fieldAt? (bytes : ByteArray) (offset width : Nat) : Option Nat :=
  if offset + width ≤ bytes.size then some (wordAt bytes offset width) else none

/-- The `count` numbers of `width` bytes at an offset, if all of them are there. -/
def wordsAt? (bytes : ByteArray) (offset count width : Nat) : Option (List Nat) :=
  if width = 0 then none
  else if count = 0 then some []
  else if offset + count * width ≤ bytes.size then
    some ((List.range count).map fun i => wordAt bytes (offset + i * width) width)
  else none

/-- Reads the trailer and the table. -/
def ObjectTable.ofBytes? (bytes : ByteArray) : Option (ObjectTable × Nat) := do
  if bytes.size < 32 then none
  else
    let trailer := bytes.size - 32
    let offsetSize := wordAt bytes (trailer + 6) 1
    let referenceSize := wordAt bytes (trailer + 7) 1
    let count := wordAt bytes (trailer + 8) 8
    let top := wordAt bytes (trailer + 16) 8
    let offsets ← wordsAt? bytes (wordAt bytes (trailer + 24) 8) count offsetSize
    return ({ bytes, offsets := offsets.toArray, referenceSize }, top)

/-- The size that an object's mark tells, and the offset behind it. The size follows the mark as a
number of 1, 2, 4 or 8 bytes where the mark has no room for it. -/
def sizeAt? (bytes : ByteArray) (mark offset : Nat) : Option (Nat × Nat) :=
  if mark % 16 = 15 then do
    let width := 1 <<< ((← fieldAt? bytes offset 1) % 4)
    return (← fieldAt? bytes (offset + 1) width, offset + 1 + width)
  else some (mark % 16, offset)

/-- A number read from bytes as two's complement. -/
def signedAt (bytes : ByteArray) (offset width : Nat) : Int :=
  let field := sliceList bytes offset width
  let n := ByteOrder.big.decode field
  if 2 * n < ByteOrder.capacity field.length then n
  else (n : Int) - ByteOrder.capacity field.length

/-- The text of `size` bytes at an offset. -/
def textAt? (bytes : ByteArray) (decoder : Text.ScalarDecoder) (offset size : Nat) : Option Value :=
  if offset + size ≤ bytes.size then
    (Text.decode? decoder (sliceList bytes offset size)).map .text
  else none

/-- The object of a mark that refers to no others. -/
def scalarAt? (bytes : ByteArray) (mark offset : Nat) : Option Value :=
  if mark = 0x00 then some .null
  else if mark = 0x08 then some (.bool false)
  else if mark = 0x09 then some (.bool true)
  else if mark = 0x0f then some (.data ByteArray.empty)
  else if mark = 0x22 then
    (fieldAt? bytes offset 4).map fun n => .real (Binary64.ofSingle n)
  else if mark = 0x23 then
    (fieldAt? bytes offset 8).map fun n => .real ⟨UInt64.ofNat n⟩
  else if mark = 0x33 then do
    let n ← fieldAt? bytes offset 8
    (Timestamp.ofSeconds? ⟨UInt64.ofNat n⟩).map .date
  else
    match mark / 16 with
    | 0x1 =>
      -- Numbers of up to four bytes have no sign.
      let width := 1 <<< (mark % 16)
      some (.int (if mark % 16 < 3 then wordAt bytes offset width else signedAt bytes offset width))
    | 0x4 => do
      let (size, offset) ← sizeAt? bytes mark offset
      if offset + size ≤ bytes.size then return .data (slice bytes offset size) else none
    | 0x5 => do
      let (size, offset) ← sizeAt? bytes mark offset
      textAt? bytes Text.ascii offset size
    | 0x6 => do
      let (size, offset) ← sizeAt? bytes mark offset
      textAt? bytes (Text.utf16 .big) offset (2 * size)
    | 0x8 =>
      let n := wordAt bytes offset (mark % 16 + 1)
      if n < ByteOrder.capacity 8 then some (.uid n) else none
    | _ => none

/-- An object of the table: a value, or a container that refers to its parts. The pairs of a dictionary
are a key and a value each. -/
inductive StoredObject where
  | scalar (value : Value)
  | array (items : List Nat)
  | dict (pairs : List (Nat × Nat))

namespace StoredObject

def isDict : StoredObject → Bool
  | dict _ => true
  | scalar _ | array _ => false

/-- The value of an object, with the values of the parts that it refers to. -/
def value? (part? : Nat → Option Value) : StoredObject → Option Value
  | scalar value => some value
  | array items => (items.mapM part?).map .array
  | dict pairs =>
    (pairs.foldlM (fun (d : Dict) (k, v) => do
      let key ← part? k
      if key.key?.isSome then return Dict.insert d key (← part? v) else none) []).map .dict

/-- The object can be the key of a pair. -/
def isKey : StoredObject → Bool
  | scalar value => value.key?.isSome
  | array _ | dict _ => false

end StoredObject

namespace ObjectTable

/-- The mark of the object of an index. -/
def mark? (t : ObjectTable) (index : Nat) : Option Nat := do
  fieldAt? t.bytes (← t.offsets[index]?) 1

/-- The object of an index. -/
def object? (t : ObjectTable) (index : Nat) : Option StoredObject := do
  let offset ← t.offsets[index]?
  let mark ← fieldAt? t.bytes offset 1
  match mark / 16 with
  | 0xa => do
    let (size, offset) ← sizeAt? t.bytes mark (offset + 1)
    return .array (← wordsAt? t.bytes offset size t.referenceSize)
  | 0xd => do
    let (size, offset) ← sizeAt? t.bytes mark (offset + 1)
    let keys ← wordsAt? t.bytes offset size t.referenceSize
    let values ← wordsAt? t.bytes (offset + size * t.referenceSize) size t.referenceSize
    return .dict (keys.zip values)
  | _ => (scalarAt? t.bytes mark (offset + 1)).map .scalar

/-- The value of an index inside the containers of some indices, innermost first; a container that is
one of them is not entered again. So containers nest at most as deep as there are objects; `fuel`
bounds the depth. -/
def value? (t : ObjectTable) : (fuel : Nat) → (around : List Nat) → (index : Nat) → Option Value
  | 0, _, _ => none
  | fuel + 1, around, index => do
    let object ← t.object? index
    match around.idxOf? index with
    | some levels => return .again object.isDict levels
    | none => object.value? (t.value? fuel (index :: around))

/-- Reads the parts of an object one after the other; what has been read adds up. The value of a pair is
read before its key. -/
def readParts (t : ObjectTable) (read : List Nat → Nat → Except Failure (List Nat)) (known : List Nat) :
    StoredObject → Except Failure (List Nat)
  | .scalar _ => .ok known
  | .array items => items.foldlM read known
  | .dict pairs =>
    pairs.foldlM (fun known (k, v) => do
      let known ← read (← read known v) k
      if (t.object? k).any StoredObject.isKey then return known else throw .malformed) known

/-- Reads the object of an index with all that it refers to, inside containers of some marks. What has
been read before, or is being read, is known and not read again. The first object that is malformed
or too deep for the call stack ends it. -/
def visit [Host] (t : ObjectTable) : (fuel : Nat) → (around : List Nat) → (known : List Nat) →
    (index : Nat) → Except Failure (List Nat)
  | 0, _, _, _ => .error .malformed
  | fuel + 1, around, known, index =>
    let mark := if known.contains index then none else t.mark? index
    if !Host.roomToRead t.referenceSize around mark then .error (.fault .tooDeep)
    else if known.contains index then .ok known
    else
      match t.object? index with
      | none => .error .malformed
      | some object => t.readParts (t.visit fuel (mark.toList ++ around)) (index :: known) object

end ObjectTable

/-- The value of a well-formed binary property list. Its parts point back to each other, but not to the
whole: whoever has a dictionary holds its pairs, not the dictionary itself. -/
def ofBinary? (bytes : ByteArray) : Option Value := do
  let (table, top) ← ObjectTable.ofBytes? bytes
  (← table.object? top).value? (table.value? (table.offsets.size + 1) [])

/-- A binary property list nests too deep for the call stack: an object is reached for which there is no
room, before one that is malformed. -/
def overflows [Host] (bytes : ByteArray) : Bool :=
  match ObjectTable.ofBytes? bytes with
  | none => false
  | some (table, top) =>
    match table.visit (table.offsets.size + 1) [] [] top with
    | .error (.fault .tooDeep) => true
    | _ => false

end ReleaseSeal.Plist
