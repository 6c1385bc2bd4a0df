import ReleaseSeal.Cli.Arguments
import ReleaseSeal.Compare.Options

/-!
# Commands

The commands of the program and the flags that each of them knows. A command line gives the flags of
the program itself, the name of a command and the flags of the command.
-/

namespace ReleaseSeal.Cli

open Compare (PairBy Stripper)

/-- The name of the program. -/
def program : String := "fairseal"

/-- What a comparison on the command line is about. What comes from a bare flag is missing. -/
structure Comparing where
  trusted : Option String
  untrusted : Option String
  permitted : Int
  suffix : Option String
  pairBy : Option PairBy
  stripper : Option Stripper

/-- A tint on the command line. -/
inductive TintFlag where
  | absent
  | bare
  | given (tint : String)

/-- What a seal on the command line is about, apart from the comparison. What comes from a bare flag is
missing. -/
structure Sealing where
  artifactUrl : Option String
  assetDirectories : List (Option String)
  tint : TintFlag
  requireSandbox : Bool

/-- A command with what it is about. -/
inductive Command where
  | entitlements (file : String) (asJson : Bool)
  | compare (c : Comparing)
  | sealUp (c : Comparing) (s : Sealing)

namespace Command

/-- The flag for help, which every command has. -/
def helpFlag : Flag :=
  { names := ["-h", "--help"], kind := .help, required := false }

/-- A flag that may be given. -/
def optional (name : String) (kind : Kind) : Flag :=
  { names := [name], kind, required := false }

/-- A flag that must be given with a text. -/
def needed (names : List String) : Flag :=
  { names, kind := .text, required := true }

/-- The names of the strippers. -/
def stripperNames : List String :=
  ["builtin", "codesign", "none"]

/-- The strippers by their names. -/
def strippers [Host] : List (String × Stripper) :=
  stripperNames.zip [.builtin, .tool Host.unsign, .none]

/-- The flags of the program itself. -/
def programFlags : List Flag :=
  [helpFlag, optional "--log-level" (.choice ["DEBUG", "INFO", "WARNING", "ERROR", "CRITICAL"])]

/-- The flags of a report on entitlements. -/
def entitlementsFlags : List Flag :=
  [helpFlag, needed ["-f", "--file"],
   { names := ["-j", "--json"], kind := .switch, required := false }]

/-- The flags of a comparison. -/
def compareFlags : List Flag :=
  [helpFlag, needed ["--trusted"], needed ["--untrusted"], optional "--permitted-diffs" .integer,
   optional "--pair-by" (.choice [PairBy.path.name, PairBy.position.name]),
   optional "--strip" (.choice stripperNames), optional "--suffix" .text]

/-- The flags of a seal. -/
def sealFlags : List Flag :=
  compareFlags ++
    [needed ["--artifact-url"], optional "--asset-dir" .text, optional "--tint" .text,
     optional "--allow-unsandboxed" .switch]

/-- The comparison that arguments describe. -/
def comparing [Host] (a : Arguments) : Comparing :=
  { trusted := a.value? "--trusted",
    untrusted := a.value? "--untrusted",
    permitted := ((a.value? "--permitted-diffs").bind Text.decimalInt?).getD 0,
    suffix := (a.last? "--suffix").getD (some Bundle.appSuffix),
    pairBy := ((a.last? "--pair-by").getD (some PairBy.path.name)).bind PairBy.ofName?,
    stripper := ((a.last? "--strip").getD (some "builtin")).bind fun name => strippers.lookup name }

/-- The tint that arguments give. -/
def tintFlag (a : Arguments) : TintFlag :=
  match a.last? "--tint" with
  | none => .absent
  | some none => .bare
  | some (some tint) => .given tint

/-- The seal that arguments describe. -/
def sealing (a : Arguments) : Sealing :=
  { artifactUrl := a.value? "--artifact-url",
    assetDirectories := a.values "--asset-dir",
    tint := tintFlag a,
    requireSandbox := !a.has "--allow-unsandboxed" }

/-- A kind of command: its flags, and the command that arguments describe. -/
structure Shape where
  name : String
  flags : List Flag
  command : Arguments → Command

/-- The kinds of commands. -/
def shapes [Host] : List Shape :=
  [{ name := "entitlements", flags := entitlementsFlags,
     command := fun a => .entitlements ((a.value? "-f/--file").getD "") (a.has "-j/--json") },
   { name := "compare", flags := compareFlags, command := fun a => .compare (comparing a) },
   { name := "seal", flags := sealFlags, command := fun a => .sealUp (comparing a) (sealing a) }]

/-- The number of permitted changes, if the command has one. -/
def permitted? : Command → Option Int
  | entitlements .. => none
  | compare c => some c.permitted
  | sealUp c _ => some c.permitted

/-- The paths that a command reads from. -/
def paths : Command → List String
  | entitlements file _ => [file]
  | compare c => [c.trusted, c.untrusted].filterMap id
  | sealUp c s => ([c.trusted, c.untrusted] ++ s.assetDirectories).filterMap id

/-- Refuses a name that no command has. -/
def shape [Host] (name : String) : Except Stop Shape :=
  match shapes.find? fun s => s.name == name with
  | some s => .ok s
  | none =>
    let names := ", ".intercalate (shapes.map fun s => Text.quoted s.name)
    .error (.misuse program
      ("argument command: invalid choice: " ++ Text.quoted name ++ " (choose from " ++ names ++ ")"))

/-- Refuses arguments that are left over, bare flags of numbers and levels, and a negative number of
permitted changes. -/
def checked (outer inner : Arguments) (c : Command) : Except Stop Command :=
  let leftOver := outer.leftOver ++ inner.leftOver
  if !leftOver.isEmpty then
    .error (.misuse program ("unrecognized arguments: " ++ " ".intercalate leftOver))
  else if outer.isBare "--log-level" then .error (.noValue "--log-level")
  else if inner.isBare "--permitted-diffs" then .error (.noValue "--permitted-diffs")
  else if c.permitted?.any (· < 0) then
    .error (.misuse program "--permitted-diffs cannot be negative")
  else .ok c

/-- The command that a command line gives. -/
def parse [Host] (args : List String) : Except Stop Command := do
  let outer ← Arguments.read program programFlags true args
  let s ← shape (outer.command.head?.getD "")
  let inner ← Arguments.read (program ++ " " ++ s.name) s.flags false (outer.command.drop 1)
  checked outer inner (s.command inner)

end Command

end ReleaseSeal.Cli
