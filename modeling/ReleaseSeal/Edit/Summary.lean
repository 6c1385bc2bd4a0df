import ReleaseSeal.Edit.Search

/-!
# Summaries of a difference

How many bytes must be inserted and removed to turn one string into another. The runs at both ends
are set aside first. If the search runs into its limit, the counts are a lower bound and the summary
is marked as capped.
-/

namespace ReleaseSeal.Edit

/-- The search may be limited to this many edits at most. -/
def maxLimit : Nat := 10000

/-- The limit of a search for which none is given. -/
def defaultLimit : Nat := 1000

/-- The counts of a script of insertions and removals. -/
structure Summary where
  insertions : Int
  removals : Int
  capped : Bool
deriving DecidableEq, Repr

namespace Summary

def total (s : Summary) : Int := s.insertions + s.removals

/-- Splits a number of edits, given by how many more insertions than removals there are. -/
def ofTotal (total delta : Int) (capped : Bool) : Summary :=
  let insertions := (total + delta) / 2
  { insertions, removals := total - insertions, capped }

/-- The least total above a limit that a difference of lengths admits. -/
def lowerBound (limit : Nat) (delta : Int) : Int :=
  -- The total and the difference of the lengths are both even or both odd.
  let least : Int := max (limit + 1) delta.natAbs
  if (least - delta) % 2 = 0 then least else least + 1

/-- The summary of two strings without common runs at their ends. -/
def ofRemainders (a b : ByteArray) (limit : Nat) : Summary :=
  let delta : Int := b.size - a.size
  if a.size = 0 || b.size = 0 then ofTotal delta.natAbs delta false
  else
    match search a b (min limit (a.size + b.size)) with
    | some distance => ofTotal distance delta false
    | none => ofTotal (lowerBound limit delta) delta true

end Summary

/-- What is left of two strings without the longest common run at their starts and then at their
ends. -/
def remainders (old new : ByteArray) : ByteArray × ByteArray :=
  let start := commonPrefix old new 0 0
  let (a, b) := (old.extract start old.size, new.extract start new.size)
  let finish := commonSuffix a b (min a.size b.size)
  (a.extract 0 (a.size - finish), b.extract 0 (b.size - finish))

/-- The summary of turning `old` into `new`, by a search of at most `limit` edits. -/
def summarize (old new : ByteArray) (limit : Nat) : Summary :=
  let (a, b) := remainders old new
  Summary.ofRemainders a b limit

/-- The limit is one that a search admits. -/
def isLimit (limit : Int) : Bool :=
  0 ≤ limit && limit ≤ maxLimit

/-- The message about a limit that no search admits. -/
def limitMessage (limit : Int) : String :=
  s!"Edit limit must be between 0 and {maxLimit}, not {limit}"

end ReleaseSeal.Edit
