import ReleaseSeal.Archive.Entry
import ReleaseSeal.Archive.Inflate
import ReleaseSeal.Bytes.Order
import ReleaseSeal.Bytes.Slice
import ReleaseSeal.Host

/-!
# Compression methods

How the data of an entry are decoded, by the number of its compression method. Stored and deflated
entries are decoded here. Of block-sorted and chained data only the heads are: a head that cannot be
one is refused as what it is, and one that breaks off decodes to nothing. What follows a whole head is
left to the decoders of the host.
-/

namespace ReleaseSeal.Archive

namespace Method

/-- Nothing yet, where more could follow. -/
def pending : Content :=
  { bytes := ByteArray.empty, mayGoOn := true }

/-- What may follow the level in the head of block-sorted data: a block, or the end. -/
def sortedMarks : List (List UInt8) :=
  [[0x31, 0x41, 0x59, 0x26, 0x53, 0x59], [0x17, 0x72, 0x45, 0x38, 0x50, 0x90]]

/-- The heads of block-sorted data: a mark, a level from one to nine and another mark. -/
def sortedHeads : List (List UInt8) :=
  (List.range 9).flatMap fun level =>
    sortedMarks.map fun mark => [0x42, 0x5a, 0x68, 0x31 + UInt8.ofNat level] ++ mark

/-- The size of the head of block-sorted data. -/
def sortedHeadSize : Nat := 10

/-- Decodes block-sorted data. -/
def sorted [Host] (refusal : Error) (stored : ByteArray) : Except Error Content :=
  let head := sliceList stored 0 sortedHeadSize
  if !sortedHeads.any fun expected => head.isPrefixOf expected then .error refusal
  else if stored.size < sortedHeadSize then .ok pending
  else
    match Host.sortedContent? stored with
    | some content => .ok content
    | none => .error refusal

/-- The properties of chained data are a byte and a size. -/
def chainedPropertiesSize : Nat := 5

/-- The first byte of the properties counts the bits of three kinds of context. The first two kinds
have four together at most. -/
def isChainedProperty (property : UInt8) : Bool :=
  let n := property.toNat
  n < 225 && n % 9 + n / 9 % 5 ≤ 4

/-- Decodes chained data. Their head is a version, the size of the properties and the properties, which
are looked at as soon as something follows them. -/
def chained [Host] (stored : ByteArray) : Except Error Content :=
  let size := ByteOrder.little.decode (sliceList stored 2 2)
  if stored.size ≤ 4 + size then .ok pending
  else if size ≠ chainedPropertiesSize || !isChainedProperty (byteAt stored 4) then
    .error .badProperties
  else
    match Host.chainedContent? stored with
    | some content => .ok content
    | none => .error .brokenChain

/-- Decodes the data of an entry by its method. -/
def decode [Host] (refusal : Error) (method : Nat) (stored : ByteArray) : Except Error Content :=
  match method with
  | 0 => .ok { bytes := stored, mayGoOn := true }
  | 8 =>
    match Inflate.decode stored with
    | .complete bytes => .ok { bytes, mayGoOn := false }
    | .truncated bytes => .ok { bytes, mayGoOn := true }
    | .corrupt => .error .corrupt
  | 12 => sorted refusal stored
  | 14 => chained stored
  | _ => .error .unsupported

end Method

end ReleaseSeal.Archive
