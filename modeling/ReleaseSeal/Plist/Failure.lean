/-!
# Why a property list cannot be read

Most faults make the bytes no property list at all. A few go unnoticed by the format's own checks:
they are kept apart, because a reader that treats a malformed list as missing does not treat these
so.
-/

namespace ReleaseSeal.Plist

/-- A fault behind the format's own checks. -/
inductive Fault where
  /-- The text of a date does not have the shape of one. -/
  | shapelessDate
  /-- The text of a date stops before the day. -/
  | incompleteDate
  /-- A key, or the value of a key, stands outside every container. -/
  | noContainer
  /-- The document declares an encoding that is not known. -/
  | unknownEncoding (name : String)
  /-- Containers nest too deep for the call stack. -/
  | tooDeep
deriving DecidableEq, Repr

/-- Why bytes do not decode to a value. -/
inductive Failure where
  | malformed
  | fault (fault : Fault)
deriving DecidableEq, Repr

end ReleaseSeal.Plist
