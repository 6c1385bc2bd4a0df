import ReleaseSeal.Plist.Failure
import ReleaseSeal.Text.Numeral

/-!
# Why a binary cannot be read

The causes, their classes and their wording. Every cause has a class, apart from two that the checks
of the format do not cover: a look at a word that straddles an end of the data, counted from behind,
and a fault inside an entitlements payload (`Error.kind?`).
-/

namespace ReleaseSeal.MachO

/-- The classes of faults. -/
inductive ErrorKind where
  /-- A fault of a signing tool. -/
  | general
  /-- Short reads and bad offsets. -/
  | parse
  /-- A binary of a size or a shape that is not admitted. -/
  | validation
  /-- A count or a size beyond what is safe to follow. -/
  | security
  /-- Neither a thin nor a fat binary. -/
  | unknownFormat
  /-- A signature without the mark of one. -/
  | badSignatureMagic
  /-- A fat binary without architectures. -/
  | unsupportedFat
  /-- An entitlements payload that does not decode. -/
  | signatureReading
deriving DecidableEq, Repr

/-- Why a binary cannot be read. -/
inductive Error where
  | invalidView (start length : Int) (size : Nat)
  | rangeOutOfBounds (start length : Int) (size : Nat)
  | seekOutOfRange (offset : Int) (size : Nat)
  | insufficient (what : String) (expected offset available : Nat)
  | insufficientBytes (count : Int) (offset : Nat)
  | insufficientMagic (offset : Int)
  | straddledMagic (offset : Int)
  | commandSize (index size : Nat)
  | payloadTooShort (length : Nat)
  | signatureBeyondSlice (offset size : Nat)
  | fileTooSmall (size : Int)
  | nestedFat
  | fileTooLarge (size limit : Int)
  | tooManyArchitectures (count : Nat)
  | tooManyCommands (count : Nat)
  | tooManyBlobs (count : Nat)
  | payloadTooLarge (length : Nat)
  | unknownFormat (magic : UInt32)
  | badSignatureMagic (offset : Nat) (magic : UInt32)
  | noArchitectures
  | unreadablePayload
  | payloadNotDictionary (type : String)
  | payloadFault (fault : Plist.Fault)
  | toolFailed (output : String)
deriving DecidableEq, Repr

namespace Error

/-- The class of a fault. -/
def kind? : Error → Option ErrorKind
  | invalidView .. | rangeOutOfBounds .. | seekOutOfRange .. | insufficient .. | insufficientBytes ..
  | insufficientMagic _ | commandSize .. | payloadTooShort _ | signatureBeyondSlice .. => some .parse
  | fileTooSmall _ | nestedFat => some .validation
  | fileTooLarge .. | tooManyArchitectures _ | tooManyCommands _ | tooManyBlobs _
  | payloadTooLarge _ => some .security
  | unknownFormat _ => some .unknownFormat
  | badSignatureMagic .. => some .badSignatureMagic
  | noArchitectures => some .unsupportedFat
  | unreadablePayload | payloadNotDictionary _ => some .signatureReading
  | toolFailed _ => some .general
  | straddledMagic _ | payloadFault _ => none

/-- The wording of a fault. -/
def message : Error → String
  | invalidView start length size => s!"Invalid view: start={start}, length={length}, size={size}"
  | rangeOutOfBounds start length size =>
    s!"Range out of bounds: start={start}, length={length}, size={size}"
  | seekOutOfRange offset size => s!"Seek out of range: offset={offset}, size={size}"
  | insufficient what expected offset available =>
    s!"Insufficient {what}: expected {expected} bytes at offset {offset}, got {available}"
  | insufficientBytes count offset =>
    s!"Insufficient data: expected {count} bytes at offset {offset}"
  | insufficientMagic offset => s!"Insufficient data for magic at offset {offset}"
  | straddledMagic offset => s!"No word at offset {offset}"
  | commandSize index size => s!"Load command {index} has invalid size {size}"
  | payloadTooShort length => s!"Entitlements blob length too small: {length}"
  | signatureBeyondSlice offset size =>
    s!"Code signature extends beyond slice (offset={offset}, size={size})"
  | fileTooSmall size => s!"File too small to be valid Mach-O: {size} bytes"
  | nestedFat => "Nested fat binaries are not supported"
  | fileTooLarge size limit => s!"File too large: {size} bytes (limit: {limit})"
  | tooManyArchitectures count => s!"Too many architectures in fat binary: {count}"
  | tooManyCommands count => s!"Too many load commands: {count}"
  | tooManyBlobs count => s!"Too many code signature blobs: {count}"
  | payloadTooLarge length => s!"Entitlements blob too large: {length} bytes"
  | unknownFormat magic =>
    "The binary format is not supported (magic " ++ Text.hexWord magic ++ ")"
  | badSignatureMagic offset magic =>
    s!"Bad code signature magic at offset {offset}: " ++ Text.hexWord magic
  | noArchitectures => "Fat binary declares no architectures"
  | unreadablePayload => "Entitlements blob is not a property list"
  | payloadNotDictionary type => s!"Entitlements property list is a {type}, not a dictionary"
  | payloadFault _ => "Entitlements blob holds a faulty value"
  | toolFailed output => s!"codesign failed to strip signature: {output}"

end Error

end ReleaseSeal.MachO
