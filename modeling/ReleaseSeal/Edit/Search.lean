import ReleaseSeal.Edit.Run

/-!
# Searching for a shortest script

A script of insertions and removals is a path through the grid of the two strings, from their starts
to their ends; the diagonal of a point is the difference of its coordinates. Round `d` of the search
finds, on every diagonal that `d` edits can reach, the furthest point: it takes one edit from a
neighbouring diagonal's point of the round before and then follows the run of equal bytes. The first
round that reaches the ends of both strings has found the least number of edits.

The frontier keeps the furthest points by their coordinate in the first string. A point may lie beyond
the end of a string, by as many steps as edits were wasted there.
-/

namespace ReleaseSeal.Edit

/-- The furthest point of each diagonal, by its coordinate in the first string. Diagonal `k` is kept
at index `offset + k`. -/
abbrev Frontier := Array Nat

/-- The entry of a diagonal. -/
def Frontier.point (v : Frontier) (offset : Nat) (k : Int) : Nat :=
  v.getD (offset + k).toNat 0

/-- A round puts its points where the round before the last one put those of the same parity. -/
def Frontier.put (v : Frontier) (offset : Nat) (k : Int) (x : Nat) : Frontier :=
  v.setIfInBounds (offset + k).toNat x

/-- Where round `d` enters diagonal `k`: by an insertion from the diagonal above, if that one has got
further or is the only neighbour, else by a removal from the diagonal below. -/
def entry (v : Frontier) (offset d : Nat) (k : Int) : Nat :=
  -- Where both neighbours have got as far, a removal is taken.
  if k = -(d : Int) || (k != d && v.point offset (k - 1) < v.point offset (k + 1)) then
    v.point offset (k + 1)
  else v.point offset (k - 1) + 1

/-- The furthest point of diagonal `k` behind the point where it was entered. -/
def follow (a b : ByteArray) (k : Int) (x : Nat) : Nat :=
  let y : Int := x - k
  if x < a.size && y < b.size then x + commonPrefix a b x y.toNat else x

/-- The ends of both strings are reached. -/
def atEnd (a b : ByteArray) (k : Int) (x : Nat) : Bool :=
  a.size ≤ x && (b.size : Int) ≤ x - k

/-- Runs round `d` on `count` diagonals from `k` upwards, every other one. The flag says that the ends
are reached, and then the round stops. -/
def round (a b : ByteArray) (offset d : Nat) : (count : Nat) → (k : Int) → Frontier → Frontier × Bool
  | 0, _, v => (v, false)
  | count + 1, k, v =>
    let x := follow a b k (entry v offset d k)
    let v := v.put offset k x
    if atEnd a b k x then (v, true) else round a b offset d count (k + 2) v

/-- Runs `count` rounds from round `d` on, and yields the number of the first that reaches the
ends. -/
def rounds (a b : ByteArray) (offset : Nat) : (count d : Nat) → Frontier → Option Nat
  | 0, _, _ => none
  | count + 1, d, v =>
    match round a b offset d (d + 1) (-(d : Int)) v with
    | (_, true) => some d
    | (v, false) => rounds a b offset count (d + 1) v

/-- The least number of edits, if it is at most `maxEdits`. -/
def search (a b : ByteArray) (maxEdits : Nat) : Option Nat :=
  rounds a b (maxEdits + 1) (maxEdits + 1) 0 (Array.replicate (2 * maxEdits + 3) 0)

end ReleaseSeal.Edit
