import ReleaseSeal.Cli.Command
import ReleaseSeal.Report.Comparison
import ReleaseSeal.Report.Entitlements
import ReleaseSeal.Seal.Record

/-!
# Running commands

A command is run on a volume and writes a report, as far as it gets. A reported failure becomes a
message and the status 1; wrong arguments become a message and the status 2.
-/

namespace ReleaseSeal.Cli

open Archive (Source)
open Compare (Comparison)
open Files (Volume)

/-- What a program leaves behind: its status and what it writes. -/
structure Outcome where
  status : Nat
  output : String
  errors : String
deriving DecidableEq, Repr

/-- The value of a flag that cannot do without one. -/
def required {α : Type} (flag : String) (value : Option α) : Except Failure α :=
  match value with
  | some a => .ok a
  | none => .error (.missingValue flag)

/-- Opens the archive that a flag names. -/
def openArchive (v : Volume) (flag : String) (path : Option String) : Except Failure Source := do
  (Source.ofPath v (← required flag path)).mapError .archive

/-- The options of a comparison. -/
def Comparing.options (c : Comparing) : Except Failure Compare.Options := do
  let stripper ← required "--strip" c.stripper
  let suffix := c.suffix.getD Bundle.appSuffix
  match c.pairBy with
  | none => throw (.options .missingPairing)
  | some pairBy =>
    (Compare.Options.make c.permitted suffix pairBy stripper Edit.defaultLimit).mapError .options

/-- Why entries cannot be compared without a suffix: their counts or roots show another fault, or it is
the suffix itself that is missing. -/
def failureWithoutSuffix (trusted untrusted : List Archive.Entry) : Failure :=
  if trusted.length ≠ untrusted.length then
    .mismatch (.entryCount trusted.length untrusted.length)
  else
    match Bundle.roots (trusted.map Archive.Entry.path) with
    | [_] => .missingValue "--suffix"
    | roots => .mismatch (.rootPath roots "[]")

/-- Compares the archives of a command; the trusted one stays open. -/
def Comparing.compare [Host] (v : Volume) (c : Comparing) : Except Failure (Comparison × Source) := do
  let trusted ← openArchive v "--trusted" c.trusted
  let untrusted ← openArchive v "--untrusted" c.untrusted
  let trustedEntries ← trusted.entries.mapError .archive
  let untrustedEntries ← untrusted.entries.mapError .archive
  let o ← c.options
  if c.suffix.isNone then throw (failureWithoutSuffix trustedEntries untrustedEntries)
  else return (← Compare.compareArchives trustedEntries untrustedEntries o, trusted)

/-- The permissions that an executable needs, by the information of its bundle. -/
def permissionsOf [Host] (executable : ByteArray) (info : Plist.Dict) (requireSandbox : Bool) :
    Except Failure (List Entitlement.Permission) := do
  let frame := MachO.Frame.ofBytes none executable
  let slices ← (MachO.readEntitlements frame 0 none 0).mapError .binary
  let usage := Entitlement.usageDescriptions info
  (Entitlement.check (Entitlements.merge slices).values usage requireSandbox).mapError .ofCheck

/-- The files that are published with the artifact of a path. Directories in front of a missing one are
collected before it is missed. -/
def Sealing.assets (v : Volume) (s : Sealing) (path : String) : Except Failure (List Seal.Asset) := do
  let url ← required "--artifact-url" s.artifactUrl
  match s.assetDirectories.mapM id with
  | some directories => Seal.stage v url directories path
  | none =>
    let artifact := (v.readFile path).mapError Failure.file
    let known := (s.assetDirectories.takeWhile Option.isSome).filterMap id
    let _ ← Seal.collect v (Seal.urlName url) artifact known
    throw (.missingValue "--asset-dir")

/-- The tint of a seal. -/
def Sealing.tint? (s : Sealing) : Except Failure (Option String) :=
  match s.tint with
  | .absent => .ok none
  | .bare => .error (.missingValue "--tint")
  | .given tint => .ok (some tint)

/-- The record that seals an untrusted archive. -/
def sealRecord [Host] (v : Volume) (c : Comparing) (s : Sealing) : Except Failure Seal.Record := do
  let (comparison, trusted) ← c.compare v
  match comparison.mainExecutable with
  | none => throw (.archive (.noMainExecutable comparison.root))
  | some path =>
    let executable ← (trusted.read path).mapError .archive
    match comparison.info with
    | none => throw (.missingInformation comparison.root)
    | some info =>
      let permissions ← permissionsOf executable info s.requireSandbox
      let assets ← s.assets v (c.untrusted.getD "")
      Seal.Record.assemble comparison.coreSize permissions assets (← s.tint?)

/-- Reads the entitlements in the file of a path. -/
def readEntitlements [Host] (v : Volume) (file : String) :
    Except Failure (MachO.File × List Entitlements) := do
  let f ← MachO.File.ofPath v file
  return (f, ← f.entitlements)

/-- The report on the entitlements in the file of a path. -/
def entitlementsReport [Host] (v : Volume) (file : String) (asJson : Bool) : Report.Draft :=
  match readEntitlements v file with
  | .error e => .ofExcept (.error e)
  | .ok (f, slices) =>
    if asJson then .ofExcept (Report.entitlementsJson f slices)
    else Report.entitlementsText f slices

/-- What a command writes. -/
def Command.report [Host] (v : Volume) : Command → Report.Draft
  | .entitlements file asJson => entitlementsReport v file asJson
  | .compare c => .ofExcept do
    let (comparison, _) ← c.compare v
    return Report.comparisonText comparison
  | .sealUp c s => .ofExcept do
    let record ← sealRecord v c s
    return (← record.render (.spaces Report.indentWidth)) ++ "\n"

/-- What a command leaves behind with what it writes; a failure that is not reported is left to the
caller. -/
def Outcome.ofReport (report : Report.Draft) : Except Failure Outcome :=
  match report.failure with
  | none => .ok { status := 0, output := report.text, errors := "" }
  | some e =>
    if e.isReported then
      .ok { status := 1, output := report.text, errors := "Error: " ++ e.message ++ "\n" }
    else .error e

/-- What running a command leaves behind. -/
def Command.run [Host] (v : Volume) (c : Command) : Except Failure Outcome :=
  Outcome.ofReport (c.report v)

/-- The short help of the program. -/
def help [Host] : String :=
  "usage: " ++ program ++ " COMMAND [OPTIONS]\ncommands: " ++
    ", ".intercalate (Command.shapes.map Command.Shape.name) ++ "\n"

/-- What a command line without a command leaves behind. -/
def Outcome.ofStop [Host] : Stop → Except Failure Outcome
  | .help => .ok { status := 0, output := help, errors := "" }
  | .noValue flag => .error (.missingValue flag)
  | .misuse program text =>
    .ok { status := 2, output := "", errors := program ++ ": error: " ++ text ++ "\n" }

/-- What running a command line on a volume leaves behind. -/
def run [Host] (v : Volume) (args : List String) : Except Failure Outcome :=
  match Command.parse args with
  | .error stop => Outcome.ofStop stop
  | .ok c => c.run v

end ReleaseSeal.Cli
