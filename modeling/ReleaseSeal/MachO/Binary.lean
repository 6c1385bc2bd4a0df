import ReleaseSeal.MachO.Header

/-!
# Thin, fat and other binaries

`classify` tells what stands at an offset. A thin header is looked for in the reader's byte order, a
fat one in big-endian order; a fat header must name between one and `maxArchitectures`
architectures.
-/

namespace ReleaseSeal.MachO

/-- A fat binary may have this many slices. -/
def maxArchitectures : Nat := 50

/-- What stands at an offset. -/
inductive Binary where
  | thin (header : Header)
  | fat (layout : FatLayout) (arches : List FatArch)
  | unrecognized (magic : UInt32)
deriving DecidableEq, Repr

/-- Reads the rest of a fat header whose mark stood in another order than the reader's, or tells
that there is none. -/
def readFat (magic : UInt32) : Reading Binary := do
  let (fatMagic, count) ← Reading.wordPair "fat header"
  match FatLayout.ofMagic? fatMagic with
  | none => return .unrecognized magic
  | some layout =>
    if count = 0 then throw .noArchitectures
    else if count.toNat > maxArchitectures then throw (.tooManyArchitectures count.toNat)
    else return .fat layout (← layout.readRecords count.toNat 0)

/-- Tells what stands at an offset. Behind a thin header the reader stands at its end, else at the
offset. -/
def classify (offset : Int) : Reading Binary := do
  Reading.seek offset
  let f ← read
  let magic ← Reading.ofOutcome (f.peek offset none)
  if isThinMagic magic then return .thin (← Header.read)
  else
    Reading.on (f.withOrder (some .big)) do
      Reading.seek offset
      readFat magic

/-- The data starts with a thin or a fat header. -/
def looksLikeMachO (bytes : ByteArray) : Bool :=
  if bytes.size < 8 then false
  else
    match Reading.result (Frame.ofBytes none bytes) (classify 0) with
    | .ok (.thin _) | .ok (.fat ..) => true
    | .ok (.unrecognized _) | .error _ => false

end ReleaseSeal.MachO
