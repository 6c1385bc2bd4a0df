import ReleaseSeal.Archive.Source
import ReleaseSeal.Bundle.Layout
import ReleaseSeal.Compare.Pairing
import ReleaseSeal.Compare.Verdict

/-!
# Comparing archives

Certifies that an untrusted archive is accountable, byte for byte, to a trusted build of the same
bundle. The counts of the entries are compared first, then the roots; the entries are paired and
judged in order, and the first mismatch ends the comparison. Pairs of directories are not judged.
-/

namespace ReleaseSeal.Compare

open Archive (Entry Source)

/-- What a comparison without a mismatch tells. -/
structure Comparison where
  root : String
  mainExecutable : Option String
  /-- The recorded size of the trusted main executable. -/
  coreSize : Int
  info : Option Plist.Dict
  verdicts : List Verdict

namespace Comparison

/-- The verdicts that tolerate a difference. -/
def tolerated (c : Comparison) : List Verdict :=
  c.verdicts.filter Verdict.isTolerated

/-- How many pairs are identical. -/
def identicalCount (c : Comparison) : Nat :=
  c.verdicts.countP Verdict.isIdentical

end Comparison

/-- The root of an archive's entries. -/
def findRoot (suffix : String) (entries : List Entry) : Except Mismatch String :=
  let paths := entries.map Entry.path
  match Bundle.root? suffix paths with
  | some root => .ok root
  | none => .error (.rootPath (Bundle.roots paths) suffix)

/-- The one root of two archives. -/
def commonRoot (suffix : String) (trusted untrusted : List Entry) : Except Mismatch String := do
  if trusted.length ≠ untrusted.length then throw (.entryCount trusted.length untrusted.length)
  else
    let root ← findRoot suffix trusted
    let other ← findRoot suffix untrusted
    if other = root then return root
    else throw (.rootPath (Bundle.inOrder [root, other]) suffix)

/-- Judges a pair, and adds the verdict to a comparison. -/
def Comparison.addPair (o : Options) (c : Comparison) (pair : Entry × Entry) :
    Except Failure Comparison := do
  let (trusted, untrusted) := pair
  if trusted.isDir && untrusted.isDir then return c
  else
    let isMain := c.mainExecutable == some trusted.path
    match ← judge trusted untrusted isMain o with
    | .fatal _ reason => throw (.mismatch reason)
    | verdict =>
      return { c with
        coreSize := if isMain then trusted.size else c.coreSize,
        verdicts := c.verdicts ++ [verdict] }

/-- Compares the entries of two archives. -/
def compareArchives [Host] (trusted untrusted : List Entry) (o : Options) : Except Failure Comparison := do
  let root ← (commonRoot o.suffix trusted untrusted).mapError .mismatch
  let layout ← Bundle.Layout.find trusted root o.suffix
  let start : Comparison :=
    { root, mainExecutable := layout.executable, coreSize := 0, info := layout.info, verdicts := [] }
  let pairing := Pairing.of trusted untrusted o.pairBy
  let c ← pairing.pairs.foldlM (Comparison.addPair o) start
  match pairing.stop with
  | some m => throw (.mismatch m)
  | none => return c

/-- Opens two archives by their paths. -/
def openBoth (v : Files.Volume) (trusted untrusted : String) : Except Failure (Source × Source) := do
  let t ← (Source.ofPath v trusted).mapError .archive
  let u ← (Source.ofPath v untrusted).mapError .archive
  return (t, u)

/-- Compares two archives by their paths. -/
def compareSources [Host] (v : Files.Volume) (trusted untrusted : String) (o : Options) :
    Except Failure Comparison := do
  let (t, u) ← openBoth v trusted untrusted
  compareArchives (← t.entries.mapError .archive) (← u.entries.mapError .archive) o

end ReleaseSeal.Compare
