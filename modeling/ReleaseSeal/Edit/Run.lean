import ReleaseSeal.Bytes.Slice

/-!
# Runs of equal bytes

How far two byte strings agree from given offsets on, and from their ends backwards. Long runs are
compared range by range: forwards the ranges double while they agree and are halved where they do
not, backwards they have a fixed size until one differs.
-/

namespace ReleaseSeal.Edit

/-- Runs are compared in ranges of at least this many bytes. -/
def chunkSize : Nat := 64

/-- The `size` bytes from offset `i` of one string and from offset `j` of another are equal. -/
def sameRange (a b : ByteArray) (i j : Nat) : (size : Nat) → Bool
  | 0 => true
  | size + 1 => byteAt a i == byteAt b j && sameRange a b (i + 1) (j + 1) size

/-- Extends a run of `matched` equal bytes up to `limit`. The next range has `step` bytes, or as many
as there are; the run ends at a range of one byte that differs. -/
def gallop (a b : ByteArray) (i j limit matched step : Nat) (hstep : 0 < step) : Nat :=
  if hlt : matched < limit then
    let size := min step (limit - matched)
    if sameRange a b (i + matched) (j + matched) size then
      gallop a b i j limit (matched + size) (step * 2) (by omega)
    else if hone : size ≤ 1 then matched
    else gallop a b i j limit matched (size / 2) (by omega)
  else matched
termination_by (limit - matched, step)
decreasing_by
  -- The range agrees: fewer bytes are left.
  · have _hsize : size = min step (limit - matched) := rfl
    apply Prod.Lex.left
    omega
  -- It differs: as many bytes are left, but the next range is shorter.
  · have _hsize : size = min step (limit - matched) := rfl
    apply Prod.Lex.right
    omega

/-- The length of the run of equal bytes from offset `i` of one string and `j` of the other. -/
def commonPrefix (a b : ByteArray) (i j : Nat) : Nat :=
  gallop a b i j (min (a.size - i) (b.size - j)) 0 chunkSize (by decide)

/-- Extends a run at the ends of the strings byte by byte, by at most `count` bytes. -/
def suffixBytes (a b : ByteArray) (matched : Nat) : (count : Nat) → Nat
  | 0 => matched
  | count + 1 =>
    if byteAt a (a.size - matched - 1) == byteAt b (b.size - matched - 1) then
      suffixBytes a b (matched + 1) count
    else matched

/-- Extends a run of `matched` equal bytes at the ends of the strings up to `limit`. -/
def suffixFrom (a b : ByteArray) (limit matched : Nat) : Nat :=
  if _hlt : matched < limit then
    let size := min chunkSize (limit - matched)
    if sameRange a b (a.size - matched - size) (b.size - matched - size) size then
      suffixFrom a b limit (matched + size)
    else suffixBytes a b matched size
  else matched
termination_by limit - matched
decreasing_by
  have _hsize : size = min chunkSize (limit - matched) := rfl
  have hchunk : chunkSize = 64 := rfl
  omega

/-- The length of the run of equal bytes at the ends of the strings, at most `limit`. -/
def commonSuffix (a b : ByteArray) (limit : Nat) : Nat :=
  suffixFrom a b limit 0

end ReleaseSeal.Edit
