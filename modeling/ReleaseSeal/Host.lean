/-!
# Hosts

What a program finds where it runs, as far as its outcome depends on it: how deep the call stack lets
it go, the decoders of two compression methods, the signing tool, and what the parser of command lines
does with two dashes in place of a value. All of it is left open; a host is any choice.
-/

namespace ReleaseSeal

/-- What a value is, whatever it holds. -/
inductive ValueKind where
  | null
  | bool
  | int
  | real
  | text
  | data
  | date
  | uid
  | array
  | dict
deriving DecidableEq, Repr

/-- Why a value has no text. -/
inductive TextFault where
  /-- A number has more digits than one may have in a text. -/
  | longNumeral
  /-- Containers nest too deep for the call stack. -/
  | tooDeep
deriving DecidableEq, Repr

/-- What data decode to. -/
structure Content where
  bytes : ByteArray
  /-- More could follow. -/
  mayGoOn : Bool

/-- Why a signing tool leaves no binary behind. -/
inductive ToolFault where
  /-- The tool fails, with what it writes. -/
  | failed (output : String)
  /-- The tool does not end in time. -/
  | timedOut
  /-- The program of the tool, or the file that it was to change, is not there. -/
  | noSuchFile (path : String)
  /-- The system does not let the tool run, or its file be used. -/
  | refused
deriving DecidableEq, Repr

/-- A host. Where something is nested, the call stack is as deep as what lies around it, so each
`roomTo` is asked with that, innermost first. -/
class Host where
  /-- There is stack to read an object of a binary property list: the size of a reference, the marks of
  the objects around it, and its own mark unless it has been read before. -/
  roomToRead : (referenceSize : Nat) → (around : List Nat) → (mark : Option Nat) → Bool
  /-- There is stack to show a value by its literal form. -/
  roomToShow : (around : List ValueKind) → ValueKind → Bool
  /-- There is stack to write a value as JSON, on one line or on several. -/
  roomToWrite : (isInline : Bool) → (around : List ValueKind) → ValueKind → Bool
  /-- There is stack to go on below a directory that is this deep in the listed one. -/
  roomToDescend : (depth : Nat) → Bool
  /-- What follows the head of block-sorted data decodes to this, if it is sound. -/
  sortedContent? : (stored : ByteArray) → Option Content
  /-- What follows the head of chained data decodes to this, if it is sound. -/
  chainedContent? : (stored : ByteArray) → Option Content
  /-- Takes the signatures off a binary by the signing tool. -/
  unsign : ByteArray → Except ToolFault ByteArray
  /-- Two dashes behind `=` are the value of a flag; otherwise they leave it without one. -/
  keepsDashes : Bool
  /-- Every stack has room for a few levels. -/
  roomToShow_of_le : ∀ around kind, around.length ≤ 16 → roomToShow around kind = true
  roomToWrite_of_le : ∀ isInline around kind, around.length ≤ 16 →
    roomToWrite isInline around kind = true

namespace Host

/-- A host whose stack never ends, without a signing tool and with no other decoder than for data that
end with their head. -/
instance plain : Host where
  roomToRead _ _ _ := true
  roomToShow _ _ := true
  roomToWrite _ _ _ := true
  roomToDescend _ := true
  sortedContent? _ := none
  chainedContent? _ := none
  unsign _ := .error (.noSuchFile "codesign")
  keepsDashes := false
  roomToShow_of_le _ _ _ := rfl
  roomToWrite_of_le _ _ _ _ := rfl

end Host

end ReleaseSeal
