import ReleaseSeal.MachO.Binary
import ReleaseSeal.MachO.LoadCommand

/-!
# Removing signatures

Two builds that are signed by different identities differ in their signatures. Removing a signature
blanks its bytes and the two fields that locate it; if it is the end of a thin binary, the binary
ends where it starts. The commands are read from the bytes as they were, so the order of the
blanked ranges does not matter.
-/

namespace ReleaseSeal.MachO

/-- A file in which signatures are being blanked, and where the slice at hand will end. -/
structure Stripping where
  bytes : ByteArray
  sliceEnd : Nat

/-- Blanks the signature that a command locates, in the slice that starts at offset `base` of the
file. With `truncate` the slice ends at a signature that reaches its end. -/
def stripCommand (base : Nat) (truncate : Bool) (start : Nat) (command : LoadCommand)
    (s : Stripping) : Reading Stripping := do
  if command.kind ≠ LoadCommand.codeSignature then return s
  else
    let (offset, size) ← Reading.wordPair "code signature command"
    let (offset, size) := (offset.toNat, size.toNat)
    let f ← read
    if offset + size > f.size then throw (.signatureBeyondSlice offset size)
    else
      let bytes := blank s.bytes (base + offset) size
      -- the two fields that locate the signature follow the head of the command
      let bytes := blank bytes (base + start + LoadCommand.headSize) 8
      return { bytes, sliceEnd :=
        if truncate && offset + size = f.size then base + offset else s.sliceEnd }

/-- Blanks the signatures of a thin slice. -/
def stripSlice (base : Nat) (truncate : Bool) (header : Header) (bytes : ByteArray) :
    Reading Stripping := do
  let f ← read
  LoadCommand.walk header (stripCommand base truncate) { bytes, sliceEnd := base + f.size }

/-- Blanks the signatures of the slice of a fat file that a record describes, if it is thin. -/
def stripArch (file : Frame) (bytes : ByteArray) (a : FatArch) : Except Error ByteArray := do
  let f ← file.view a.offset.toNat a.size.toNat none
  match ← Reading.result f (classify 0) with
  | .thin header => return (← Reading.result f (stripSlice a.offset.toNat false header bytes)).bytes
  | .fat .. | .unrecognized _ => return bytes

/-- The bytes of a binary without its signatures. -/
def stripSignatures (bytes : ByteArray) : Except Error ByteArray := do
  let f := Frame.ofBytes none bytes
  match ← Reading.result f (classify 0) with
  | .thin header =>
    let s ← Reading.result f (stripSlice 0 true header bytes)
    return s.bytes.extract 0 s.sliceEnd
  | .fat _ arches => arches.foldlM (stripArch f) bytes
  | .unrecognized magic => throw (.unknownFormat magic)

end ReleaseSeal.MachO
