import ReleaseSeal.Archive.Entry
import ReleaseSeal.Compare.Mismatch
import ReleaseSeal.Compare.OptionError
import ReleaseSeal.Entitlement.Policy
import ReleaseSeal.Files.Volume
import ReleaseSeal.MachO.Error

/-!
# Failures

Why a task as a whole fails, whatever part it failed in. A failure is reported if it is one that users
are expected to meet: a command then ends with its message. The others are defects of the input that
nothing foresees.
-/

namespace ReleaseSeal

/-- Why a task fails. -/
inductive Failure where
  | binary (e : MachO.Error)
  | archive (e : Archive.Error)
  | violation (v : Entitlement.Violation)
  | mismatch (m : Compare.Mismatch)
  | options (e : Compare.OptionError)
  | file (e : Files.Error)
  /-- The file that is to be inspected does not exist. -/
  | missingFile (path : String)
  | emptyPath
  /-- A flag of a command line stands without its value. -/
  | missingValue (flag : String)
  | missingInformation (root : String)
  /-- The information of a bundle holds a faulty value. -/
  | faultyInformation (fault : Plist.Fault)
  | invalidTint (tint : String)
  | unorderedKeys
  /-- A key has no form in JSON. -/
  | unwritableKey
  /-- A number has too many digits to be written. -/
  | numeralTooLong
  /-- A container that is part of itself has no form in JSON. -/
  | selfContaining
  /-- What is to be shown or written nests too deep for the call stack. -/
  | tooDeep
  /-- An indentation has more characters than a text can have. -/
  | indentTooWide
  /-- The signing tool does not end in time. -/
  | toolTimedOut
  /-- The system does not let the signing tool do its work. -/
  | toolRefused

namespace Failure

/-- The wording of a failure. -/
def message : Failure → String
  | binary e => e.message
  | archive e => e.message
  | violation v => v.message
  | mismatch m => m.message
  | options e => e.message
  | file e => e.message
  | missingFile path => s!"File not found: {path}"
  | emptyPath => "File path cannot be empty"
  | missingValue flag => s!"No value for {flag}"
  | missingInformation root => s!"No readable Info.plist in {root}"
  | faultyInformation _ => "The Info.plist holds a faulty value"
  | invalidTint tint =>
    "Invalid tint color: " ++ Text.quoted tint ++ " (expected #RRGGBB or #RRGGBBAA)"
  | unorderedKeys => "The keys have no common order"
  | unwritableKey => "A key cannot be written"
  | numeralTooLong =>
    s!"Exceeds the limit ({Text.maxDecimalDigits} digits) for integer string conversion; " ++
      "use sys.set_int_max_str_digits() to increase the limit"
  | selfContaining => "Circular reference detected"
  | tooDeep => "maximum recursion depth exceeded"
  | indentTooWide => "cannot fit 'int' into an index-sized integer"
  | toolTimedOut => "The signing tool does not end in time"
  | toolRefused => "The signing tool cannot do its work"

/-- A command ends with the failure's message. -/
def isReported : Failure → Bool
  | binary e => e.kind?.isSome
  | archive e => e.isReported || e.isBadValue
  | file (.noSuchFile _) | file .nullInPath => true
  | file (.notDirectory _) | file (.isDirectory _) | file (.nameTooLong _) => false
  | missingValue _ | faultyInformation _ | unorderedKeys | unwritableKey | tooDeep | indentTooWide
  | toolTimedOut | toolRefused => false
  | violation _ | mismatch _ | options _ | missingFile _ | emptyPath | missingInformation _
  | invalidTint _ | numeralTooLong | selfContaining => true

/-- The failure of what has no text. -/
def ofText : TextFault → Failure
  | .longNumeral => numeralTooLong
  | .tooDeep => tooDeep

/-- The failure of a signing tool. -/
def ofTool : ToolFault → Failure
  | .failed output => binary (.toolFailed (Text.strip output))
  | .timedOut => toolTimedOut
  | .noSuchFile path => file (.noSuchFile path)
  | .refused => toolRefused

/-- The failure of a check of entitlements. -/
def ofCheck : Entitlement.CheckError → Failure
  | .violation v => violation v
  | .unorderedKeys => unorderedKeys

end Failure

end ReleaseSeal
