import ReleaseSeal.MachO.Entitlements
import ReleaseSeal.MachO.Binary
import ReleaseSeal.MachO.LoadCommand

/-!
# Embedded entitlements

A load command of a thin binary locates its code signature, an indexed set of blobs in big-endian
order; the first blob with the mark of entitlements holds them. A fat binary has those of its
slices. All offsets are relative to the start of the slice.
-/

namespace ReleaseSeal.MachO

/-- The mark of an embedded signature. -/
def signatureMagic : UInt32 := 0xfade0cc0

/-- The mark of a blob of entitlements. -/
def entitlementsMagic : UInt32 := 0xfade7171

/-- A signature may have this many blobs. -/
def maxBlobs : Nat := 100

/-- A payload of entitlements may have this many bytes. -/
def maxPayload : Nat := 1024 * 1024

/-- The size of a blob's head: its mark and its length. -/
def blobHeadSize : Nat := 8

/-- The size of the head of a signature: its mark, its length and its count of blobs. -/
def signatureHeadSize : Nat := 12

/-- The size of an index entry: the blob's slot and its offset. -/
def blobIndexSize : Nat := 8

/-- Reads the payload of a blob of entitlements behind its mark. -/
def readPayload [Host] (arch : Option String) : Reading Entitlements := do
  let length := (← Reading.word "uint32").toNat
  if length < blobHeadSize then throw (.payloadTooShort length)
  else if length - blobHeadSize > maxPayload then throw (.payloadTooLarge length)
  else
    let payload ← Reading.take (length - blobHeadSize : Nat)
    Reading.ofOutcome (Entitlements.ofPayload arch payload)

/-- Looks for a blob of entitlements among `count` blobs from number `index` on, in the signature at
an offset. -/
def findEntitlements [Host] (arch : Option String) (offset : Nat) : (count index : Nat) →
    Reading (Option Entitlements)
  | 0, _ => return none
  | count + 1, index => do
    Reading.seek (offset + signatureHeadSize + index * blobIndexSize : Nat)
    let (_, blobOffset) ← Reading.wordPair "blob index"
    Reading.seek (offset + blobOffset.toNat : Nat)
    let magic ← Reading.word "uint32"
    if magic = entitlementsMagic then return some (← readPayload arch)
    else findEntitlements arch offset count (index + 1)

/-- Reads the entitlements of the signature at an offset, in a frame of big-endian order. -/
def readSignature [Host] (arch : Option String) (offset : Nat) : Reading (Option Entitlements) := do
  Reading.seek offset
  let start ← Reading.record "code signature superblob" signatureHeadSize
  let f ← read
  let magic := wordAt f.order f.bytes start
  let count := (wordAt f.order f.bytes (start + 8)).toNat
  if magic ≠ signatureMagic then throw (.badSignatureMagic offset magic)
  else if count > maxBlobs then throw (.tooManyBlobs count)
  else findEntitlements arch offset count 0

/-- Adds the entitlements that a command locates. A signature of size zero has been removed. -/
def collectEntitlements [Host] (arch : Option String) (_start : Nat) (command : LoadCommand)
    (found : List Entitlements) : Reading (List Entitlements) := do
  if command.kind ≠ LoadCommand.codeSignature then return found
  else
    let (offset, size) ← Reading.wordPair "code signature command"
    if size = 0 then return found
    else
      let f ← read
      match ← Reading.on (f.withOrder (some .big)) (readSignature arch offset.toNat) with
      | some entitlements => return found ++ [entitlements]
      | none => return found

/-- The name that a thin binary's entitlements go by: a given one, or that of its architecture. -/
def sliceName (arch : Option String) (header : Header) : String :=
  match arch with
  | some name => if name = "" then header.name else name
  | none => header.name

/-- The entitlements of a thin binary that starts at the head of the frame. -/
def sliceEntitlements [Host] (arch : Option String) (header : Header) : Reading (List Entitlements) :=
  LoadCommand.walk header (collectEntitlements (some (sliceName arch header))) []

/-- The entitlements in a frame. `fatLevels` says how many fat binaries may contain each other. -/
def entitlementsIn [Host] : (fatLevels : Nat) → Option String → Frame → Except Error (List Entitlements)
  | fatLevels, arch, f => do
    match ← Reading.result f (classify 0) with
    | .thin header => Reading.result f (sliceEntitlements arch header)
    | .unrecognized magic => throw (.unknownFormat magic)
    | .fat _ arches =>
      match fatLevels with
      | 0 => throw .nestedFat
      | fatLevels + 1 =>
        let slices ← arches.mapM fun a => do
          entitlementsIn fatLevels (some a.name) (← f.view a.offset.toNat a.size.toNat none)
        return slices.flatten

/-- A fat binary may not stand inside this many others. -/
def maxFatDepth : Int := 1

/-- The entitlements of the binary at an offset of a frame, one for each slice that has some. `depth`
counts the fat binaries around it. -/
def readEntitlements [Host] (f : Frame) (offset : Int) (arch : Option String) (depth : Int) :
    Except Error (List Entitlements) := do
  let f ← if offset = 0 then pure f else f.view offset (f.size - offset) none
  entitlementsIn (maxFatDepth - depth).toNat arch f

end ReleaseSeal.MachO
