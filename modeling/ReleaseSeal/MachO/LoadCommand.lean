import ReleaseSeal.MachO.Header

/-!
# Load commands

The commands behind a thin header follow each other without gaps: each starts where its predecessor
ends by that one's declared size. `walk` visits them in order. A visitor may read on and may move the
reader; the walk goes back to the start of the command before it moves to the next.
-/

namespace ReleaseSeal.MachO

/-- A thin binary may have this many load commands. -/
def maxCommands : Nat := 10000

/-- The head of a load command. -/
structure LoadCommand where
  kind : UInt32
  size : UInt32
deriving DecidableEq, Repr

namespace LoadCommand

/-- The size of a command's head. -/
def headSize : Nat := 8

/-- The kind of command that locates the code signature. -/
def codeSignature : UInt32 := 0x1d

/-- Visits `count` commands from the reader's offset on; `index` numbers them. -/
def walkFrom {σ : Type} (visit : Nat → LoadCommand → σ → Reading σ) :
    (count index : Nat) → σ → Reading σ
  | 0, _, s => return s
  | count + 1, index, s => do
    let start ← Reading.tell
    let (kind, size) ← Reading.wordPair "load command header"
    if size.toNat < headSize then throw (.commandSize index size.toNat)
    else
      let s ← visit start { kind, size } s
      Reading.seek (start + size.toNat : Nat)
      walkFrom visit count (index + 1) s

/-- Visits the commands of a thin binary that starts at the head of the frame. The visitor gets the
offset of a command, its head and a state. -/
def walk {σ : Type} (header : Header) (visit : Nat → LoadCommand → σ → Reading σ) (s : σ) :
    Reading σ := do
  if header.commandCount.toNat > maxCommands then throw (.tooManyCommands header.commandCount.toNat)
  else
    Reading.seek header.size
    walkFrom visit header.commandCount.toNat 0 s

end LoadCommand

end ReleaseSeal.MachO
