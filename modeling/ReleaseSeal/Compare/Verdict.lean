import ReleaseSeal.Bundle.Category
import ReleaseSeal.Compare.Options

/-!
# Verdicts

The verdict on two entries with one path. They are identical if the recorded sizes and checksums
agree; otherwise the path may be one of a file that differs anyway, or the payloads may agree without
their signatures, or differ by as few bytes as are permitted.
-/

namespace ReleaseSeal.Compare

open Archive (Entry)

/-- The verdict on a pair of entries. -/
inductive Verdict where
  | identical (path : String)
  | tolerated (path : String) (count : Option Int) (category : Option Bundle.Category)
  | fatal (path : String) (reason : Mismatch)
deriving DecidableEq, Repr

namespace Verdict

/-- The path that a verdict is on. -/
def path : Verdict → String
  | identical path | tolerated path .. | fatal path _ => path

def isIdentical : Verdict → Bool
  | identical _ => true
  | tolerated .. | fatal .. => false

def isTolerated : Verdict → Bool
  | tolerated .. => true
  | identical _ | fatal .. => false

end Verdict

/-- The verdict on two payloads that are not equal without their signatures. -/
def judgeContent (path : String) (isMain : Bool) (o : Options) (trusted untrusted : ByteArray) :
    Verdict :=
  let permitted := o.permittedIn isMain
  let summary := Edit.summarize trusted untrusted (o.searchLimit isMain)
  if !summary.capped && summary.total ≤ permitted then .tolerated path (some summary.total) none
  else .fatal path (.content path summary permitted)

/-- The verdict on the payloads of two entries. -/
def judgePayloads (path : String) (isMain : Bool) (o : Options) (trusted untrusted : ByteArray) :
    Except Failure Verdict := do
  if o.stripper.applies trusted untrusted then
    let trusted ← o.stripper.strip trusted
    let untrusted ← o.stripper.strip untrusted
    if trusted.data = untrusted.data then return .tolerated path (some 0) (some .codeSignature)
    else return judgeContent path isMain o trusted untrusted
  else return judgeContent path isMain o trusted untrusted

/-- The verdict on two entries. -/
def judge (trusted untrusted : Entry) (isMain : Bool) (o : Options) : Except Failure Verdict :=
  let path := trusted.path
  if trusted.checksum = untrusted.checksum ∧ trusted.size = untrusted.size then .ok (.identical path)
  else
    match Bundle.Category.ofPath? path with
    | some category => .ok (.tolerated path none (some category))
    | none => do
      let t ← trusted.read.mapError .archive
      let u ← untrusted.read.mapError .archive
      judgePayloads path isMain o t u

end ReleaseSeal.Compare
