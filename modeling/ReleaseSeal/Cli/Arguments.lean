import ReleaseSeal.Cli.Flag
import ReleaseSeal.Host

/-!
# Reading a command line

Arguments are taken in order: flags with their values, and, where a command is expected, the first
argument that is no flag, with everything behind it. What no flag and no command takes is left over.
Two dashes alone, attached to a flag in place of its value, are its value on some hosts. On others they
leave the flag bare: it is given, but it has no value.
-/

namespace ReleaseSeal.Cli

/-- What a command line gives: flags by their labels, each with its value unless it is bare, the name
of a command with its arguments, and what is left over. -/
structure Arguments where
  given : List (String × Option String)
  command : List String
  leftOver : List String

namespace Arguments

def empty : Arguments :=
  { given := [], command := [], leftOver := [] }

/-- The last value of a flag, if it is given; `some none` if it is bare there. -/
def last? (a : Arguments) (label : String) : Option (Option String) :=
  a.given.reverse.lookup label

/-- The last value of a flag, if it has one. -/
def value? (a : Arguments) (label : String) : Option String :=
  (a.last? label).join

/-- All values of a flag, in order. -/
def values (a : Arguments) (label : String) : List (Option String) :=
  (a.given.filter fun pair => pair.1 == label).map (·.2)

/-- The flag is given. -/
def has (a : Arguments) (label : String) : Bool :=
  (a.last? label).isSome

/-- The flag is given, and bare. -/
def isBare (a : Arguments) (label : String) : Bool :=
  a.last? label == some none

/-- Adds a flag. -/
def add (a : Arguments) (f : Flag) (value : Option String) : Arguments :=
  { a with given := a.given ++ [(f.label, value)] }

/-- Gives a flag that takes no value. -/
def giveSwitch (a : Arguments) (f : Flag) : Except Stop Arguments :=
  match f.kind with
  | .help => .error .help
  | _ => .ok (a.add f none)

/-- Gives a flag its value. -/
def giveValue [Host] (program : String) (a : Arguments) (f : Flag) (value : String) :
    Except Stop Arguments :=
  if value = "--" && !Host.keepsDashes then .ok (a.add f none)
  else
    match f.fault? value with
    | some fault => .error (f.misuse program fault)
    | none => .ok (a.add f (some value))

/-- Leaves an argument over. -/
def leave (a : Arguments) (arg : String) : Arguments :=
  { a with leftOver := a.leftOver ++ [arg] }

/-- How a flag with attached text ends. -/
inductive Ending where
  | value (f : Flag) (value : String)
  /-- The last flag stands without attached text. -/
  | pending (f : Flag)

/-- Takes apart a flag with attached text: behind a flag of one letter that takes no value, further
letters are flags of their own, and the rest is the value of the first of them that takes one. -/
def unfold (program : String) (flags : List Flag) (isShort : Bool) : (text : List Char) → (f : Flag) →
    Except Stop (List Flag × Ending)
  | text, f =>
    if f.takesValue then .ok ([], .value f (String.ofList text))
    else
      let refusal :=
        f.misuse program ("ignored explicit argument " ++ Text.quoted (String.ofList text))
      match text with
      | [] => .error refusal
      | c :: rest =>
        if !isShort then .error refusal
        else
          match (Token.named flags).lookup (String.ofList ['-', c]), rest with
          | none, _ => .error refusal
          | some g, [] => .ok ([f], .pending g)
          | some g, rest => do
            let (switches, ending) ← unfold program flags true rest g
            return (f :: switches, ending)

/-- The flag of a name with one dash. -/
def isShortName (name : String) : Bool :=
  (name.toList.drop 1).head? != some '-'

/-- What a flag and its attached text come to. -/
def endingOf (program : String) (flags : List Flag) (f : Flag) (name : String) :
    (attached : Option (List Char)) → Except Stop (List Flag × Ending)
  | none => .ok ([], .pending f)
  | some text => unfold program flags (isShortName name) text f

/-- Takes the arguments of a command line in order. -/
def take [Host] (program : String) (flags : List Flag) (expectsCommand : Bool) (a : Arguments) :
    List (String × Token) → Except Stop Arguments
  | [] => .ok a
  | (arg, .argument) :: rest =>
    if expectsCommand then .ok { a with command := arg :: rest.map (·.1) }
    else take program flags expectsCommand (a.leave arg) rest
  | (arg, .separator) :: rest =>
    if expectsCommand && !rest.isEmpty then .ok { a with command := arg :: rest.map (·.1) }
    else take program flags expectsCommand (a.leave arg) rest
  | (arg, .unknown) :: rest => take program flags expectsCommand (a.leave arg) rest
  | (_, .flag f name attached) :: rest => do
    let (switches, ending) ← endingOf program flags f name attached
    let giveAll := fun a : Arguments => switches.foldlM giveSwitch a
    match ending, rest with
    | .value f value, rest =>
      take program flags expectsCommand (← giveValue program (← giveAll a) f value) rest
    | .pending f, rest =>
      if !f.takesValue then take program flags expectsCommand (← giveSwitch (← giveAll a) f) rest
      else
        match rest with
        | (value, .argument) :: rest =>
          take program flags expectsCommand (← giveValue program (← giveAll a) f value) rest
        | _ => throw (f.misuse program "expected one argument")

/-- Refuses a command line on which things are missing. -/
def requireAll (program : String) (missing : List String) : Except Stop Unit :=
  if missing.isEmpty then .ok ()
  else
    .error (.misuse program ("the following arguments are required: " ++ ", ".intercalate missing))

/-- Reads the arguments of a program; with `expectsCommand` they name a command. -/
def read [Host] (program : String) (flags : List Flag) (expectsCommand : Bool) (args : List String) :
    Except Stop Arguments := do
  let tokens ← Token.all program flags args
  let a ← take program flags expectsCommand empty tokens
  let missing := (flags.filter fun f => f.required && !a.has f.label).map Flag.label
  requireAll program (missing ++ if expectsCommand && a.command.isEmpty then ["command"] else [])
  return a

end Arguments

end ReleaseSeal.Cli
