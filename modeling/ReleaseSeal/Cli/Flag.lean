import ReleaseSeal.Text.Quoted
import ReleaseSeal.Text.Split

/-!
# Flags of a command line

The flags that a command knows, and how single arguments are understood. A flag may be given by the
start of its long name if no other flag starts so; its value may follow behind `=`, or right behind a
name of one letter. A negative number is no flag.
-/

namespace ReleaseSeal.Cli

/-- What a flag does. -/
inductive Kind where
  | help
  | switch
  | text
  | integer
  | choice (options : List String)

/-- A flag of a command. -/
structure Flag where
  names : List String
  kind : Kind
  required : Bool

/-- Why a command line does not lead to a command. -/
inductive Stop where
  | help
  /-- A flag that cannot do without a value has none. -/
  | noValue (flag : String)
  /-- The arguments of a program, or of a command of it, are wrong. -/
  | misuse (program text : String)
deriving DecidableEq, Repr

namespace Flag

/-- The name of a flag in messages. -/
def label (f : Flag) : String :=
  "/".intercalate f.names

/-- A value belongs to the flag. -/
def takesValue (f : Flag) : Bool :=
  match f.kind with
  | .help | .switch => false
  | .text | .integer | .choice _ => true

/-- What is wrong with the value of a flag. -/
def fault? (f : Flag) (value : String) : Option String :=
  match f.kind with
  | .help | .switch | .text => none
  | .integer =>
    if (Text.decimalInt? value).isSome then none
    else some ("invalid int value: " ++ Text.quoted value)
  | .choice options =>
    if options.contains value then none
    else
      some ("invalid choice: " ++ Text.quoted value ++ " (choose from " ++
        ", ".intercalate (options.map Text.quoted) ++ ")")

/-- A fault of a flag in a program's message. -/
def misuse (program : String) (f : Flag) (fault : String) : Stop :=
  .misuse program ("argument " ++ f.label ++ ": " ++ fault)

end Flag

/-- How an argument is understood. -/
inductive Token where
  | argument
  /-- What follows are arguments. -/
  | separator
  /-- A flag by one of its names, with the text behind it in the argument. -/
  | flag (f : Flag) (name : String) (attached : Option (List Char))
  | unknown

/-- A negative decimal number, perhaps before a line break. -/
def isNegativeNumeral : List Char → Bool
  | '-' :: rest =>
    let rest := if rest.getLast? = some '\n' then rest.dropLast else rest
    let isDigit (c : Char) : Bool := (Text.decimalDigit? c).isSome
    let (whole, rest) := rest.span isDigit
    match rest with
    | [] => !whole.isEmpty
    | '.' :: fraction => !fraction.isEmpty && fraction.all isDigit
    | _ => false
  | _ => false

namespace Token

/-- The names of flags, each with its flag. -/
def named (flags : List Flag) : List (String × Flag) :=
  flags.flatMap fun f => f.names.map (·, f)

/-- An argument in front of its first equals sign, and what is behind it. -/
def splitEquals (cs : List Char) : List Char × Option (List Char) :=
  match cs.span (· ≠ '=') with
  | (name, _ :: text) => (name, some text)
  | (name, []) => (name, none)

/-- The flags that an argument may stand for, none of whose names it spells out. -/
def candidates (flags : List Flag) : List Char → List (Flag × String × Option (List Char))
  | '-' :: '-' :: cs =>
    let (start, attached) := splitEquals ('-' :: '-' :: cs)
    (named flags).filterMap fun (name, f) =>
      if start.isPrefixOf name.toList then some (f, name, attached) else none
  | cs =>
    -- A name of one letter may have its value attached; a longer name may be cut short.
    (named flags).filterMap fun (name, f) =>
      if name.toList = cs.take 2 then some (f, name, some (cs.drop 2))
      else if cs.isPrefixOf name.toList then some (f, name, none)
      else none

/-- Understands an argument that starts with a dash and is no name of a flag. -/
def ofDashed (program : String) (flags : List Flag) (cs : List Char) : Except Stop Token :=
  let (name, attached) := splitEquals cs
  let exact := if attached.isSome then (named flags).lookup (String.ofList name) else none
  match exact, candidates flags cs with
  | some f, _ => .ok (.flag f (String.ofList name) attached)
  | none, [(f, name, attached)] => .ok (.flag f name attached)
  | none, [] =>
    if isNegativeNumeral cs || cs.contains ' ' then .ok .argument else .ok .unknown
  | none, several =>
    .error (.misuse program ("ambiguous option: " ++ String.ofList cs ++ " could match " ++
      ", ".intercalate (several.map fun c => c.2.1)))

/-- Understands an argument. -/
def of (program : String) (flags : List Flag) (arg : String) : Except Stop Token :=
  match (named flags).lookup arg, arg.toList with
  | some f, _ => .ok (.flag f arg none)
  | none, ['-'] => .ok .argument
  | none, '-' :: cs => ofDashed program flags ('-' :: cs)
  | none, _ => .ok .argument

/-- Understands the arguments of a command line. -/
def all (program : String) (flags : List Flag) : List String → Except Stop (List (String × Token))
  | [] => .ok []
  | arg :: rest =>
    if arg = "--" then .ok ((arg, .separator) :: rest.map (·, .argument))
    else do
      let token ← of program flags arg
      return (arg, token) :: (← all program flags rest)

end Token

end ReleaseSeal.Cli
