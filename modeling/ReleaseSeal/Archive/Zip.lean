import ReleaseSeal.Archive.Crc32
import ReleaseSeal.Archive.Method
import ReleaseSeal.Archive.Record

/-!
# Zip archives

Opening an archive reads its directory; the entry of a path is only read when it is asked for. Its
head must repeat the name of its record, its data must end before the next entry begins, and what it
decodes to must have the checksum that is recorded. Where several entries have one path, the last of
them is read.
-/

namespace ReleaseSeal.Archive

/-- An opened zip archive, with the path by which it was opened. -/
structure Zip where
  path : String
  bytes : ByteArray
  /-- Where the directory begins. -/
  directory : Nat
  records : List Record

namespace Zip

/-- Opens an archive. -/
def ofBytes (path : String) (bytes : ByteArray) : Except Error Zip :=
  match Extent.of? bytes with
  | none => .error (.cannotOpen path)
  | some extent => do
    let records ← Record.allFrom path (slice bytes extent.start extent.size) extent.shift 0
    return { path, bytes, directory := extent.start, records }

/-- Where the data of an entry must have ended: at the next entry by offset, and at the directory
behind the last one. Of entries at one offset only the first may hold data. -/
def limit (z : Zip) (index : Nat) (r : Record) : Int :=
  if (z.records.take index).any fun s => s.offset == r.offset then r.offset
  else
    let later := z.records.filterMap fun s => if r.offset < s.offset then some s.offset else none
    (later.min?).getD z.directory

/-- The last record of a path, with its place. -/
def find? (z : Zip) (path : String) : Option (Record × Nat) :=
  z.records.zipIdx.reverse.find? fun p => p.1.path == path

/-- The size of the head of an entry without its name and its extra fields. -/
def headSize : Nat := 30

/-- Offsets of a file are below this one. -/
def maxOffset : Int := 0x8000000000000000

/-- The payload of an entry whose data begins at an offset: what the data decodes to, up to the
recorded size. A payload that is shorter than recorded is fine unless the archive ends in its data. -/
def payload [Host] (z : Zip) (r : Record) (start : Nat) : Except Error ByteArray := do
  let refusal := Error.cannotRead r.path z.path
  let stored := slice z.bytes start r.storedSize
  let isShort := decide (stored.size < r.storedSize)
  let content ← Method.decode refusal r.method stored
  if isShort && (stored.size == 0 || (content.mayGoOn && decide (content.bytes.size < r.size))) then
    throw .truncated
  else
    let out := slice content.bytes 0 r.size
    if (crc32 out).toNat = r.checksum then return out else throw refusal

/-- Reads the entry of a record. -/
def readRecord [Host] (z : Zip) (index : Nat) (r : Record) : Except Error ByteArray :=
  let refusal := Error.cannotRead r.path z.path
  let start := r.offset.toNat
  if r.offset ≥ maxOffset then .error .offsetTooLarge
  else if r.offset < 0 || z.bytes.size < start + headSize || !Mark.payload.isAt z.bytes start then
    .error refusal
  else
    let nameLength := fieldAt z.bytes (start + 26) 2
    let extraLength := fieldAt z.bytes (start + 28) 2
    let data := min (start + headSize + nameLength + extraLength) z.bytes.size
    -- Patches and strong encryption have flags of their own.
    if Record.hasFlag r.flags 5 || Record.hasFlag r.flags 6 then .error .unsupported
    else
      let decoder := Record.nameDecoder (fieldAt z.bytes (start + 6) 2)
      let stored := sliceList z.bytes (start + headSize) nameLength
      match Text.decode? decoder stored with
      | none => .error (.undecodableName (.of stored))
      | some name =>
        if name ≠ r.name then .error refusal
        else if z.limit index r < data + r.storedSize then .error refusal
        else if Record.hasFlag r.flags 0 then .error .encrypted
        else z.payload r data

/-- Reads the entry of a path. -/
def read [Host] (z : Zip) (path : String) : Except Error ByteArray :=
  match z.find? path with
  | none => .error (.cannotRead path z.path)
  | some (r, index) => z.readRecord index r

/-- The entry of a record, which must have a name. -/
def entryOf [Host] (z : Zip) (r : Record) : Except Error Entry :=
  if r.path = "" then .error .nameless
  else
    .ok
      { path := r.path, size := r.size, checksum := r.checksum, isDir := r.isDir,
        payload := some (Thunk.mk fun _ => z.read r.path) }

/-- The entries, in the order of the directory. -/
def entries [Host] (z : Zip) : Except Error (List Entry) :=
  z.records.mapM z.entryOf

end Zip

end ReleaseSeal.Archive
