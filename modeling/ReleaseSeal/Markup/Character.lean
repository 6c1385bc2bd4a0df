import ReleaseSeal.Markup.Name

/-!
# Characters of a markup text

The classes of characters of XML, and the small scanners that both the prolog and the content of a
document are read with. The characters of a document come with their line ends already joined to
single line feeds, and with a NUL in place of the first bytes that could not be decoded: no
construct of the language admits a NUL, so the document is malformed there and not earlier.
-/

namespace ReleaseSeal.Markup

/-- A character that a document may contain. -/
def isLegal (c : Char) : Bool :=
  let n := c.toNat
  n == 0x09 || n == 0x0a || n == 0x0d || (0x20 ≤ n && n != 0xfffe && n != 0xffff)

/-- White space of the markup language. -/
def isSpace (c : Char) : Bool :=
  c == ' ' || c == '\t' || c == '\n' || c == '\r'

/-- The text without the white space at its head. -/
def skipSpace (cs : List Char) : List Char :=
  cs.dropWhile isSpace

/-- The name at the head of a text, and the rest. -/
def name? (a : Alphabet) (cs : List Char) : Option (List Char × List Char) :=
  match cs with
  | c :: _ => if a.isStart c then some (cs.span a.isPart) else none
  | [] => none

/-- The rest of a text after an opening, if the text starts with it. -/
def after? : (opening cs : List Char) → Option (List Char)
  | [], cs => some cs
  | o :: opening, c :: cs => if o = c then after? opening cs else none
  | _ :: _, [] => none

/-- The characters up to the first occurrence of a closing, and the rest after it; all of them must
be legal. -/
def upTo? (closing : List Char) : (acc cs : List Char) → Option (List Char × List Char)
  | _, [] => none
  | acc, c :: rest =>
    match after? closing (c :: rest) with
    | some rest => some (acc.reverse, rest)
    | none => if isLegal c then upTo? closing (c :: acc) rest else none

/-- Line ends of all kinds as single line feeds. -/
def joinLineEnds : (acc cs : List Char) → List Char
  | acc, [] => acc.reverse
  | acc, '\r' :: '\n' :: rest => joinLineEnds ('\n' :: acc) rest
  | acc, '\r' :: rest => joinLineEnds ('\n' :: acc) rest
  | acc, c :: rest => joinLineEnds (c :: acc) rest

/-- A comment, without its opening: two hyphens may only occur at its end. -/
def comment? (cs : List Char) : Option (List Char) :=
  (upTo? ['-', '-'] [] cs).bind fun (_, rest) => after? ['>'] rest

/-- A processing instruction, without its opening; its target may not be a spelling of `xml`. -/
def instruction? (a : Alphabet) (cs : List Char) : Option (List Char) := do
  let (target, rest) ← name? a cs
  if target.map Char.toLower = ['x', 'm', 'l'] then none
  else
    match rest with
    | '?' :: '>' :: rest => some rest
    | c :: _ => if isSpace c then (upTo? ['?', '>'] [] rest).map (·.2) else none
    | [] => none

/-- The value of digits in a base, if there are digits and nothing else. -/
def digits? (base : Nat) (value : Char → Option Nat) (cs : List Char) : Option Nat :=
  if cs.isEmpty then none
  else cs.foldl (fun n c => do return (← n) * base + (← value c)) (some 0)

/-- The value of an ASCII hexadecimal digit. -/
def hexValue? (c : Char) : Option Nat :=
  if c.isDigit then some (c.toNat - 48)
  else if 'a' ≤ c && c ≤ 'f' then some (c.toNat - 87)
  else if 'A' ≤ c && c ≤ 'F' then some (c.toNat - 55)
  else none

/-- The character of a numeric reference, whose text stands between `&#` and the semicolon. -/
def numericReference? (cs : List Char) : Option Char := do
  let n ← match cs with
    | 'x' :: rest => digits? 16 hexValue? rest
    | _ => digits? 10 (fun c => if c.isDigit then some (c.toNat - 48) else none) cs
  if h : n.isValidChar then
    let c := Char.ofNatAux n h
    if isLegal c then some c else none
  else none

/-- The characters of the predefined entities. -/
def predefined : List (String × Char) :=
  [("lt", '<'), ("gt", '>'), ("amp", '&'), ("quot", '"'), ("apos", '\'')]

/-- A reference, without its ampersand: what it stands for and the rest. A name that is not
predefined is an error unless `lenient`, when it stands for nothing. -/
def reference? (a : Alphabet) (lenient : Bool) (cs : List Char) :
    Option (Option Char × List Char) :=
  match cs with
  | '#' :: rest => do
    let (body, rest) ← upTo? [';'] [] rest
    return (some (← numericReference? body), rest)
  | _ => do
    let (name, rest) ← name? a cs
    let rest ← after? [';'] rest
    match predefined.lookup (String.ofList name) with
    | some c => return (some c, rest)
    | none => if lenient then return (none, rest) else none

/-- Every reference in a quoted value is well formed. `fuel` exceeds its length. -/
def validReferences (a : Alphabet) (lenient : Bool) : (fuel : Nat) → List Char → Bool
  | 0, _ => false
  | fuel + 1, cs =>
    match cs.dropWhile (· != '&') with
    | [] => true
    | _ :: rest =>
      match reference? a lenient rest with
      | some (_, rest) => validReferences a lenient fuel rest
      | none => false

/-- The value of an attribute is well formed. -/
def validAttribute (a : Alphabet) (lenient : Bool) (value : List Char) : Bool :=
  !value.contains '<' && validReferences a lenient (value.length + 1) value

end ReleaseSeal.Markup
