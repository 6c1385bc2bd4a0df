import ReleaseSeal.Bytes.Order
import ReleaseSeal.Bytes.Slice
import ReleaseSeal.Text.Numeral

/-!
# SHA-256

The digest of a byte string: the message is padded to whole blocks of 64 bytes, and each block is
mixed into a state of eight words by 64 rounds.
-/

namespace ReleaseSeal.Seal.Sha256

/-- The first 32 bits of the fractional parts of the cube roots of the first 64 primes. -/
def roundConstants : List UInt32 :=
  [0x428a2f98, 0x71374491, 0xb5c0fbcf, 0xe9b5dba5, 0x3956c25b, 0x59f111f1, 0x923f82a4,
   0xab1c5ed5, 0xd807aa98, 0x12835b01, 0x243185be, 0x550c7dc3, 0x72be5d74, 0x80deb1fe,
   0x9bdc06a7, 0xc19bf174, 0xe49b69c1, 0xefbe4786, 0x0fc19dc6, 0x240ca1cc, 0x2de92c6f,
   0x4a7484aa, 0x5cb0a9dc, 0x76f988da, 0x983e5152, 0xa831c66d, 0xb00327c8, 0xbf597fc7,
   0xc6e00bf3, 0xd5a79147, 0x06ca6351, 0x14292967, 0x27b70a85, 0x2e1b2138, 0x4d2c6dfc,
   0x53380d13, 0x650a7354, 0x766a0abb, 0x81c2c92e, 0x92722c85, 0xa2bfe8a1, 0xa81a664b,
   0xc24b8b70, 0xc76c51a3, 0xd192e819, 0xd6990624, 0xf40e3585, 0x106aa070, 0x19a4c116,
   0x1e376c08, 0x2748774c, 0x34b0bcb5, 0x391c0cb3, 0x4ed8aa4a, 0x5b9cca4f, 0x682e6ff3,
   0x748f82ee, 0x78a5636f, 0x84c87814, 0x8cc70208, 0x90befffa, 0xa4506ceb, 0xbef9a3f7,
   0xc67178f2]

/-- The words that the blocks are mixed into. -/
structure State where
  a : UInt32
  b : UInt32
  c : UInt32
  d : UInt32
  e : UInt32
  f : UInt32
  g : UInt32
  h : UInt32

/-- The first 32 bits of the fractional parts of the square roots of the first eight primes. -/
def State.initial : State :=
  { a := 0x6a09e667, b := 0xbb67ae85, c := 0x3c6ef372, d := 0xa54ff53a,
    e := 0x510e527f, f := 0x9b05688c, g := 0x1f83d9ab, h := 0x5be0cd19 }

namespace State

/-- The words of a state, in order. -/
def words (s : State) : List UInt32 :=
  [s.a, s.b, s.c, s.d, s.e, s.f, s.g, s.h]

/-- The sums of two states, word by word. -/
def add (s t : State) : State :=
  { a := s.a + t.a, b := s.b + t.b, c := s.c + t.c, d := s.d + t.d,
    e := s.e + t.e, f := s.f + t.f, g := s.g + t.g, h := s.h + t.h }

end State

/-- A word turned right by `n` bits, `0 < n < 32`. -/
def rotated (x n : UInt32) : UInt32 :=
  (x >>> n) ||| (x <<< (32 - n))

/-- One round with a constant and a word of the schedule. -/
def mix (s : State) (round : UInt32 × UInt32) : State :=
  let sum1 := rotated s.e 6 ^^^ rotated s.e 11 ^^^ rotated s.e 25
  let choice := (s.e &&& s.f) ^^^ (~~~s.e &&& s.g)
  let t1 := s.h + sum1 + choice + round.1 + round.2
  let sum0 := rotated s.a 2 ^^^ rotated s.a 13 ^^^ rotated s.a 22
  let majority := (s.a &&& s.b) ^^^ (s.a &&& s.c) ^^^ (s.b &&& s.c)
  { a := t1 + (sum0 + majority), b := s.a, c := s.b, d := s.c, e := s.d + t1, f := s.e, g := s.f,
    h := s.g }

/-- Adds `count` words to a schedule, which has its latest word in front. -/
def extendSchedule : (count : Nat) → List UInt32 → List UInt32
  | 0, ws => ws
  | count + 1, ws =>
    let w2 := ws.getD 1 0
    let w15 := ws.getD 14 0
    let s1 := rotated w2 17 ^^^ rotated w2 19 ^^^ (w2 >>> 10)
    let s0 := rotated w15 7 ^^^ rotated w15 18 ^^^ (w15 >>> 3)
    extendSchedule count ((s1 + ws.getD 6 0 + s0 + ws.getD 15 0) :: ws)

/-- The word at an offset of a message. -/
def wordAt (message : ByteArray) (offset : Nat) : UInt32 :=
  UInt32.ofNat (ByteOrder.big.decode (sliceList message offset 4))

/-- The words of the rounds for the block at an offset of a message. -/
def schedule (message : ByteArray) (start : Nat) : List UInt32 :=
  let words := (List.range 16).map fun i => wordAt message (start + 4 * i)
  (extendSchedule 48 words.reverse).reverse

/-- Mixes the block at an offset of a message into a state. -/
def mixBlock (message : ByteArray) (s : State) (start : Nat) : State :=
  s.add ((roundConstants.zip (schedule message start)).foldl mix s)

/-- A message with a one bit, zeros up to the end of a block and its size in bits. -/
def padded (message : ByteArray) : ByteArray :=
  let zeros := (119 - message.size % 64) % 64
  let tail := 0x80 :: List.replicate zeros 0 ++ ByteOrder.big.encode 8 (8 * message.size)
  message ++ ByteArray.mk tail.toArray

/-- The digest of a message in hexadecimal digits. -/
def hexDigest (message : ByteArray) : String :=
  let message := padded message
  let starts := (List.range (message.size / 64)).map (64 * ·)
  String.join ((starts.foldl (mixBlock message) State.initial).words.map fun w =>
    Text.hexPadded 8 w.toNat)

-- the standard's examples: nothing, one block, and a message whose padding needs a second one
example : hexDigest ⟨#[]⟩ =
    "e3b0c44298fc1c149afbf4c8996fb92427ae41e4649b934ca495991b7852b855" := by
  decide +kernel

example : hexDigest "abc".toUTF8 =
    "ba7816bf8f01cfea414140de5dae2223b00361a396177a9cb410ff61f20015ad" := by
  decide +kernel

example : hexDigest "abcdbcdecdefdefgefghfghighijhijkijkljklmklmnlmnomnopnopq".toUTF8 =
    "248d6a61d20638b8e5c026930c3e6039a33ce45964ff2167f6ecedd419db06c1" := by
  decide +kernel

end ReleaseSeal.Seal.Sha256
