import ReleaseSeal.Bytes.Slice

/-!
# Inflate

Decoding of deflated data: blocks that are stored, or coded with a fixed or a transmitted pair of
Huffman codes for literals, lengths and distances. Bits are taken from the low end of each byte.
Data that ends too early is told apart from data that is corrupt, because what was decoded up to
there still counts.
-/

namespace ReleaseSeal.Archive.Inflate

/-- Why decoding stopped before the end of the last block. -/
inductive Stop where
  /-- The data ended; what was decoded is kept. -/
  | truncated (out : ByteArray)
  | corrupt

/-- Where decoding stands: the position in the data, counted in bits, and what was decoded. -/
structure State where
  position : Nat
  out : ByteArray

/-- The bit at a position. -/
def bitAt (data : ByteArray) (position : Nat) : Nat :=
  (byteAt data (position / 8)).toNat >>> (position % 8) % 2

/-- The number that `count` bits at a position store, low bit first. -/
def bitsAt (data : ByteArray) (position : Nat) : (count : Nat) → Nat
  | 0 => 0
  | count + 1 => bitAt data position + 2 * bitsAt data (position + 1) count

/-- Takes `count` bits. -/
def take (data : ByteArray) (count : Nat) (s : State) : Except Stop (Nat × State) :=
  if s.position + count ≤ 8 * data.size then
    .ok (bitsAt data s.position count, { s with position := s.position + count })
  else .error (.truncated s.out)

/-- A canonical Huffman code: how many codes there are of each length up to 15, and the symbols by
length and, within a length, by value. -/
structure Huffman where
  counts : List Nat
  symbols : Array Nat

namespace Huffman

/-- The lengths that codes can have. -/
def lengths : List Nat := (List.range 16).drop 1

/-- The code whose symbols have given lengths; a symbol of length zero has no code. -/
def ofLengths (sizes : List Nat) : Huffman :=
  { counts := lengths.map fun n => sizes.count n,
    symbols := (lengths.flatMap fun n =>
      (sizes.zipIdx.filter fun p => p.1 == n).map (·.2)).toArray }

/-- The codes that are left unused, none if there are more codes than fit. -/
def unused? (h : Huffman) : Option Nat :=
  h.counts.foldl (fun left count => do
    let left := 2 * (← left)
    if count ≤ left then some (left - count) else none) (some 1)

/-- The code can be used: no more codes than fit, and all of them used, unless there is only one, of
length one, and the code may be of that kind. Without any code it is harmless. -/
def isValid (h : Huffman) (mayBeSingle : Bool) : Bool :=
  match h.unused? with
  | none => false
  | some 0 => true
  | some _ => h.symbols.size == 0 || (mayBeSingle && (h.counts.drop 1).all (· == 0))

/-- Takes a symbol: its code is searched among the codes of each length in turn, up to the longest.
`code` holds the bits taken, `first` the first code of the length at hand and `index` the place of its
symbol. -/
def symbolFrom (data : ByteArray) (h : Huffman) : (counts : List Nat) → (code first index : Nat) →
    State → Except Stop (Nat × State)
  | [], _, _, _, _ => .error .corrupt
  | count :: counts, code, first, index, s => do
    let (bit, s) ← take data 1 s
    let code := code + bit
    -- The codes of this length are the `count` numbers from `first` on.
    if code < first + count then
      match h.symbols[index + (code - first)]? with
      | some symbol => return (symbol, s)
      | none => throw .corrupt
    -- There is no longer code.
    else if index + count = h.symbols.size then throw .corrupt
    else symbolFrom data h counts (2 * code) (2 * (first + count)) (index + count) s

/-- Takes a symbol. -/
def symbol (data : ByteArray) (h : Huffman) (s : State) : Except Stop (Nat × State) :=
  h.symbolFrom data h.counts 0 0 0 s

end Huffman

/-- The least length of each length symbol, and how many bits follow it. -/
def lengthTable : List (Nat × Nat) :=
  [(3, 0), (4, 0), (5, 0), (6, 0), (7, 0), (8, 0), (9, 0), (10, 0), (11, 1), (13, 1), (15, 1),
   (17, 1), (19, 2), (23, 2), (27, 2), (31, 2), (35, 3), (43, 3), (51, 3), (59, 3), (67, 4), (83, 4),
   (99, 4), (115, 4), (131, 5), (163, 5), (195, 5), (227, 5), (258, 0)]

/-- The least distance of each distance symbol, and how many bits follow it. -/
def distanceTable : List (Nat × Nat) :=
  [(1, 0), (2, 0), (3, 0), (4, 0), (5, 1), (7, 1), (9, 2), (13, 2), (17, 3), (25, 3), (33, 4),
   (49, 4), (65, 5), (97, 5), (129, 6), (193, 6), (257, 7), (385, 7), (513, 8), (769, 8), (1025, 9),
   (1537, 9), (2049, 10), (3073, 10), (4097, 11), (6145, 11), (8193, 12), (12289, 12), (16385, 13),
   (24577, 13)]

/-- Appends `count` bytes, each a copy of the one `distance` bytes before it. -/
def copyBack (distance : Nat) : (count : Nat) → ByteArray → ByteArray
  | 0, out => out
  | count + 1, out => copyBack distance count (out.push (byteAt out (out.size - distance)))

/-- Takes the number of a table's row with the bits that follow it. -/
def extended (data : ByteArray) (table : List (Nat × Nat)) (row : Nat) (s : State) :
    Except Stop (Nat × State) :=
  match table[row]? with
  | none => .error .corrupt
  | some (least, count) => do
    let (n, s) ← take data count s
    return (least + n, s)

/-- Decodes literals and matches up to the end of a block. Each takes a bit at least, so the bits of
the data bound their number. -/
def compressed (data : ByteArray) (literals distances : Huffman) : (fuel : Nat) → State →
    Except Stop State
  | 0, s => .error (.truncated s.out)
  | fuel + 1, s => do
    let (symbol, s) ← literals.symbol data s
    if symbol = 256 then return s
    else if symbol < 256 then
      let s := { s with out := s.out.push (UInt8.ofNat symbol) }
      compressed data literals distances fuel s
    else
      let (length, s) ← extended data lengthTable (symbol - 257) s
      let (row, s) ← distances.symbol data s
      let (distance, s) ← extended data distanceTable row s
      if distance > s.out.size then throw .corrupt
      else
        let s := { s with out := copyBack distance length s.out }
        compressed data literals distances fuel s

/-- Decodes a stored block: it starts at the next whole byte with its length and the length's
complement. -/
def stored (data : ByteArray) (s : State) : Except Stop State := do
  let s := { s with position := (s.position + 7) / 8 * 8 }
  let (length, s) ← take data 16 s
  let (complement, s) ← take data 16 s
  if length + complement ≠ 0xffff then throw .corrupt
  else
    let start := s.position / 8
    let out := s.out ++ slice data start length
    if start + length ≤ data.size then return { position := s.position + 8 * length, out }
    else throw (.truncated out)

/-- The code for literals and lengths that needs no transmission. -/
def fixedLiterals : Huffman :=
  .ofLengths (List.replicate 144 8 ++ List.replicate 112 9 ++ List.replicate 24 7 ++
    List.replicate 8 8)

/-- The code for distances that needs no transmission. -/
def fixedDistances : Huffman :=
  .ofLengths (List.replicate 32 5)

/-- The order in which the lengths of the code for lengths are transmitted. -/
def lengthOrder : List Nat :=
  [16, 17, 18, 0, 8, 7, 9, 6, 10, 5, 11, 4, 12, 3, 13, 2, 14, 1, 15]

/-- Takes `count` lengths of three bits. -/
def shortLengths (data : ByteArray) : (count : Nat) → State → Except Stop (List Nat × State)
  | 0, s => .ok ([], s)
  | count + 1, s => do
    let (n, s) ← take data 3 s
    let (rest, s) ← shortLengths data count s
    return (n :: rest, s)

/-- Takes code lengths until there are `total` of them; those taken are in reverse order. Three of
the symbols repeat a length. -/
def codeLengths (data : ByteArray) (code : Huffman) (total : Nat) : (fuel : Nat) → List Nat → State →
    Except Stop (List Nat × State)
  | 0, _, _ => .error .corrupt
  | fuel + 1, acc, s => do
    if total ≤ acc.length then
      if acc.length = total then return (acc.reverse, s) else throw .corrupt
    else
      let (symbol, s) ← code.symbol data s
      if symbol < 16 then codeLengths data code total fuel (symbol :: acc) s
      else
        let (value, least, bits) ← match symbol, acc with
          | 16, [] => throw .corrupt
          | 16, last :: _ => pure (last, 3, 2)
          | 17, _ => pure (0, 3, 3)
          | _, _ => pure (0, 11, 7)
        let (n, s) ← take data bits s
        codeLengths data code total fuel (List.replicate (least + n) value ++ acc) s

/-- What stands for a code for lengths that has no symbols: every bit is a length of zero. -/
def zeroLengths : Huffman :=
  { counts := [2], symbols := #[0, 0] }

/-- Takes the pair of codes of a block that transmits them. -/
def transmitted (data : ByteArray) (s : State) : Except Stop (Huffman × Huffman × State) := do
  let (nLiterals, s) ← take data 5 s
  let (nDistances, s) ← take data 5 s
  let (nLengths, s) ← take data 4 s
  let (nLiterals, nDistances) := (nLiterals + 257, nDistances + 1)
  -- The last two symbols of either code mean nothing.
  if nLiterals > 286 || nDistances > 30 then throw .corrupt
  else
    let (short, s) ← shortLengths data (nLengths + 4) s
    let sizes := (List.range 19).map fun symbol => ((lengthOrder.zip short).lookup symbol).getD 0
    let code := Huffman.ofLengths sizes
    if !code.isValid false then throw .corrupt
    else
      let code := if code.symbols.isEmpty then zeroLengths else code
      let (all, s) ← codeLengths data code (nLiterals + nDistances) 400 [] s
      let literals := Huffman.ofLengths (all.take nLiterals)
      let distances := Huffman.ofLengths (all.drop nLiterals)
      -- Symbol 256 ends the block, so it must have a code.
      if (all[256]?).getD 0 = 0 || !literals.isValid true || !distances.isValid true then
        throw .corrupt
      else return (literals, distances, s)

/-- Decodes blocks up to the last one. -/
def blocks (data : ByteArray) : (fuel : Nat) → State → Except Stop State
  | 0, s => .error (.truncated s.out)
  | fuel + 1, s => do
    let (final, s) ← take data 1 s
    let (kind, s) ← take data 2 s
    let s ← match kind with
      | 0 => stored data s
      | 1 => compressed data fixedLiterals fixedDistances (8 * data.size + 1) s
      | 2 =>
        let (literals, distances, s) ← transmitted data s
        compressed data literals distances (8 * data.size + 1) s
      | _ => throw .corrupt
    if final = 1 then return s else blocks data fuel s

/-- What deflated data decodes to. -/
inductive Result where
  | complete (out : ByteArray)
  | truncated (out : ByteArray)
  | corrupt

/-- Decodes deflated data; what follows the last block is ignored. -/
def decode (data : ByteArray) : Result :=
  match blocks data (8 * data.size + 1) { position := 0, out := ByteArray.empty } with
  | .ok s => .complete s.out
  | .error (.truncated out) => .truncated out
  | .error .corrupt => .corrupt

end ReleaseSeal.Archive.Inflate
