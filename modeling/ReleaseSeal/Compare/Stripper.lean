import ReleaseSeal.Failure
import ReleaseSeal.MachO.Strip

/-!
# Strippers

What takes the signatures off two binaries before they are compared: nothing, this library, or a
signing tool.
-/

namespace ReleaseSeal.Compare

/-- What takes signatures off. -/
inductive Stripper where
  | none
  | builtin
  | tool (unsign : ByteArray → Except ToolFault ByteArray)

namespace Stripper

/-- Signatures are taken off. -/
def isActive : Stripper → Bool
  | none => false
  | builtin | tool _ => true

/-- Takes the signatures off a binary. -/
def strip : Stripper → ByteArray → Except Failure ByteArray
  | none, bytes => .ok bytes
  | builtin, bytes => (MachO.stripSignatures bytes).mapError .binary
  | tool unsign, bytes => (unsign bytes).mapError .ofTool

/-- Signatures are taken off both of two payloads, because both look like binaries. -/
def applies (s : Stripper) (trusted untrusted : ByteArray) : Bool :=
  s.isActive && MachO.looksLikeMachO trusted && MachO.looksLikeMachO untrusted

end Stripper

end ReleaseSeal.Compare
