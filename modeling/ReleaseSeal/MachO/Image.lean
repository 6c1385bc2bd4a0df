import ReleaseSeal.MachO.Signature

/-!
# Binary files

A file that is to be inspected as a binary: its size must be within limits and its format known.
-/

namespace ReleaseSeal.MachO

/-- The least size of a binary. -/
def minFileSize : Int := 28

/-- The greatest size of a binary. -/
def maxFileSize : Int := 1024 * 1024 * 1024

/-- The size of a file is within the limits. -/
def checkFileSize (size : Int) : Except Error Unit :=
  if size < minFileSize then .error (.fileTooSmall size)
  else if size > maxFileSize then .error (.fileTooLarge size maxFileSize)
  else .ok ()

/-- A binary file whose format is known. -/
structure Image where
  bytes : ByteArray
  binary : Binary

namespace Image

/-- Opens the bytes of a file. -/
def ofBytes (bytes : ByteArray) : Except Error Image := do
  checkFileSize bytes.size
  match ← Reading.result (Frame.ofBytes none bytes) (classify 0) with
  | .unrecognized magic => throw (.unknownFormat magic)
  | binary => return { bytes, binary }

def isFat (i : Image) : Bool :=
  match i.binary with
  | .fat .. => true
  | _ => false

/-- The name of the file's format. -/
def format (i : Image) : String :=
  if i.isFat then "fat" else "thin"

/-- The architectures of the slices, in order. -/
def architectures (i : Image) : List String :=
  match i.binary with
  | .fat _ arches => arches.map FatArch.name
  | .thin header => [header.name]
  | .unrecognized _ => []

/-- The entitlements of the slices that have some. -/
def entitlements [Host] (i : Image) : Except Error (List Entitlements) :=
  readEntitlements (Frame.ofBytes none i.bytes) 0 none 0

end Image

end ReleaseSeal.MachO
