import ReleaseSeal.Edit.Summary

/-!
# Why two artifacts do not match

The reasons for which an untrusted artifact is not accountable to a trusted one, and their wording.
-/

namespace ReleaseSeal.Compare

/-- The two artifacts of a comparison. -/
inductive Side where
  | trusted
  | untrusted
deriving DecidableEq, Repr

/-- The name of an artifact in messages. -/
def Side.name : Side → String
  | trusted => "trusted"
  | untrusted => "untrusted"

/-- Why two artifacts do not match. -/
inductive Mismatch where
  | entryCount (trusted untrusted : Nat)
  /-- There is not just one root with the suffix; the roots are in order. -/
  | rootPath (roots : List String) (suffix : String)
  /-- A path is paired with another, or with none. -/
  | paths (trusted untrusted : Option String)
  | duplicate (path : String) (side : Side)
  | content (path : String) (summary : Edit.Summary) (permitted : Int)
deriving DecidableEq, Repr

namespace Mismatch

/-- A text that stands for something, if it is there and not empty. -/
def given? (text : Option String) : Option String :=
  text.filter (· ≠ "")

/-- The path that a mismatch is about. -/
def path? : Mismatch → Option String
  | entryCount .. | rootPath .. => none
  | paths trusted untrusted => (given? trusted).or untrusted
  | duplicate path _ => some path
  | content path _ _ => some path

/-- The wording of a mismatch between numbers of entries. -/
def countsMessage (trusted untrusted : String) : String :=
  s!"Trusted and untrusted artifact content counts do not match ({trusted} vs. {untrusted})"

/-- The wording of a path that an artifact has twice. -/
def duplicateMessage (side path : String) : String :=
  s!"Duplicate path in {side} artifact: {path}"

/-- The wording of a difference between the payloads at a path. -/
def contentMessage (path : String) (capped : Bool) (total insertions removals permitted : String) :
    String :=
  let qualifier := if capped then "at least " else ""
  s!"Trusted and untrusted artifact content mismatch at {path}: {qualifier}" ++
    s!"{total} changes ({insertions} insertions and {removals} removals) " ++
    s!"beyond permitted threshold: {permitted}"

/-- The wording of a mismatch. -/
def message : Mismatch → String
  | entryCount trusted untrusted => countsMessage (toString trusted) (toString untrusted)
  | rootPath roots suffix =>
    let shown := ", ".intercalate roots
    let shown := if shown = "" then "<none>" else shown
    s!"Invalid root path in archive: {shown} (expected exactly one ending in {suffix})"
  | paths trusted untrusted =>
    let shown (path : Option String) := (given? path).getD "<missing>"
    "Trusted and untrusted artifact content paths do not match: " ++ shown trusted ++ " vs. " ++
      shown untrusted
  | duplicate path side => duplicateMessage side.name path
  | content path summary permitted =>
    contentMessage path summary.capped (toString summary.total) (toString summary.insertions)
      (toString summary.removals) (toString permitted)

end Mismatch

end ReleaseSeal.Compare
