import ReleaseSeal.Text.Split
import ReleaseSeal.Text.Utf8Fault

/-!
# Archive entries

An entry of an archive: its path, the size and the checksum that are recorded for it, and its
payload, which is only read when it is asked for. What is recorded need not agree with the payload,
and whoever lists the entries may have recorded any integers.
-/

namespace ReleaseSeal.Archive

/-- Why an archive or an entry of it cannot be read. -/
inductive Error where
  | noPayload (path : String)
  | cannotOpen (path : String)
  | cannotRead (path archive : String)
  | notDirectory (path : String)
  | noMainExecutable (root : String)
  /-- An entry has no name, so that it is neither a file nor a directory. -/
  | nameless
  /-- The entry needs a feature that is not supported. -/
  | unsupported
  /-- The entry is encrypted. -/
  | encrypted
  /-- The payload ends before it is complete. -/
  | truncated
  /-- The payload cannot be decompressed. -/
  | corrupt
  /-- The properties by which the payload is compressed are none. -/
  | badProperties
  /-- Chained data are not sound. -/
  | brokenChain
  /-- A name is not in the encoding that it claims. -/
  | undecodableName (fault : Text.Utf8Fault)
  /-- An offset is beyond what a file can have. -/
  | offsetTooLarge
  /-- A path with a null character names nothing. -/
  | nullInPath
  /-- The path of a file that is listed is longer than a path can be. -/
  | pathTooLong (path : String)
  /-- The directories that are listed nest too deep for the call stack. -/
  | tooDeep
deriving DecidableEq, Repr

/-- The wording of a fault. -/
def Error.message : Error → String
  | noPayload path => s!"No payload accessor for {path}"
  | cannotOpen path => s!"Cannot open archive {path}"
  | cannotRead path archive => s!"Cannot read {path} from {archive}"
  | notDirectory path => s!"Not a directory: {path}"
  | noMainExecutable root => s!"No main executable found in {root}"
  | nameless => "The entry has no name"
  | unsupported => "The entry needs a feature that is not supported"
  | encrypted => "The entry is encrypted"
  | truncated => "The entry ends too early"
  | corrupt => "The entry cannot be decompressed"
  | badProperties => "Invalid or unsupported options"
  | brokenChain => "Corrupt input data"
  | undecodableName fault => fault.message
  | offsetTooLarge => "cannot fit 'int' into an offset-sized integer"
  | nullInPath => "embedded null byte"
  | pathTooLong path => s!"[Errno 36] File name too long: {path}"
  | tooDeep => "maximum recursion depth exceeded"

/-- The fault is one that a command reports under its own name; the others come from inside the
archive format. -/
def Error.isReported : Error → Bool
  | noPayload _ | cannotOpen _ | cannotRead .. | notDirectory _ | noMainExecutable _ => true
  | nameless | unsupported | encrypted | truncated | corrupt | badProperties | brokenChain
  | undecodableName _ | offsetTooLarge | nullInPath | pathTooLong _ | tooDeep => false

/-- The fault is a value without a meaning. Where something optional is read, it counts as if
nothing were there. -/
def Error.isBadValue : Error → Bool
  | undecodableName _ | offsetTooLarge | nullInPath => true
  | noPayload _ | cannotOpen _ | cannotRead .. | notDirectory _ | noMainExecutable _ | nameless
  | unsupported | encrypted | truncated | corrupt | badProperties | brokenChain | pathTooLong _
  | tooDeep => false

/-- An entry of an archive. -/
structure Entry where
  path : String
  size : Int
  checksum : Int
  isDir : Bool
  payload : Option (Thunk (Except Error ByteArray))

namespace Entry

/-- The payload of an entry; that of a directory is empty. -/
def read (e : Entry) : Except Error ByteArray :=
  if e.isDir then .ok ByteArray.empty
  else
    match e.payload with
    | none => .error (.noPayload e.path)
    | some payload => payload.get

/-- The last segment of the path, where slashes at the end do not count. -/
def name (e : Entry) : String :=
  let trimmed := (e.path.toList.reverse.dropWhile (· = '/')).reverse
  String.ofList (Text.afterLast '/' trimmed)

end Entry

end ReleaseSeal.Archive
