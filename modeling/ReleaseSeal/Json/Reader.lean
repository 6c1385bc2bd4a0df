import ReleaseSeal.Json.Value
import ReleaseSeal.Text.Encoding
import ReleaseSeal.Text.Numeral

/-!
# Reading JSON

Reads the text of one value. Of fields with the same name the last one counts. A surrogate in a text
must be one of a pair.
-/

namespace ReleaseSeal.Json

/-- White space between tokens. -/
def isSpace (c : Char) : Bool :=
  c == ' ' || c == '\t' || c == '\n' || c == '\r'

/-- The value of four hexadecimal digits, and the rest. -/
def unit? : List Char → Option (Nat × List Char)
  | a :: b :: c :: d :: rest => do
    let digit (c : Char) : Option Nat := if c.toNat < 0x80 then Text.hexDigit? c else none
    return (Text.ofDigitList 16 [← digit a, ← digit b, ← digit c, ← digit d], rest)
  | _ => none

/-- The characters that stand for themselves behind a backslash, or name a control. -/
def simpleEscapes : List (Char × Char) :=
  [('"', '"'), ('\\', '\\'), ('/', '/'), ('n', '\n'), ('r', '\r'), ('t', '\t'), ('b', '\x08'),
   ('f', '\x0c')]

/-- The character of an escape behind its backslash, and the rest. -/
def escape? : List Char → Option (Char × List Char)
  | 'u' :: rest => do
    let (high, rest) ← unit? rest
    if 0xd800 ≤ high && high < 0xdc00 then
      match rest with
      | '\\' :: 'u' :: rest =>
        let (low, rest) ← unit? rest
        if 0xdc00 ≤ low && low < 0xe000 then
          return (← Text.scalar? (0x10000 + (high - 0xd800) * 1024 + (low - 0xdc00)), rest)
        else none
      | _ => none
    else return (← Text.scalar? high, rest)
  | c :: rest => (simpleEscapes.lookup c).map (·, rest)
  | [] => none

/-- The characters of a text up to its closing quote, and the rest. -/
def textFrom : (fuel : Nat) → (acc cs : List Char) → Option (List Char × List Char)
  | 0, _, _ => none
  | fuel + 1, acc, cs =>
    match cs with
    | [] => none
    | '"' :: rest => some (acc.reverse, rest)
    | '\\' :: rest => do
      let (c, rest) ← escape? rest
      textFrom fuel (c :: acc) rest
    | c :: rest => if c.toNat < 0x20 then none else textFrom fuel (c :: acc) rest

/-- The digits at the head of a text, and the rest. -/
def digits (cs : List Char) : List Nat × List Char :=
  let (ds, rest) := cs.span Char.isDigit
  (ds.map fun c => c.toNat - 48, rest)

/-- The exponent at the head of a text, if there is one, and the rest. -/
def exponent? : List Char → Option (Option Int × List Char)
  | e :: rest =>
    if e = 'e' || e = 'E' then
      let (negative, rest) := Text.splitSign rest
      match digits rest with
      | ([], _) => none
      | (ds, rest) =>
        let n : Int := Text.ofDigitList 10 ds
        some (some (if negative then -n else n), rest)
    else some (none, e :: rest)
  | [] => some (none, [])

/-- The number at the head of a text, and the rest. A fraction or an exponent makes it a real. -/
def number? (cs : List Char) : Option (Json × List Char) := do
  let (negative, cs) := match cs with
    | '-' :: rest => (true, rest)
    | cs => (false, cs)
  let (whole, rest) := digits cs
  if whole.isEmpty || (whole.head? == some 0 && whole.length > 1) then none
  else
    let (fraction, rest) ← match rest with
      | '.' :: rest =>
        match digits rest with
        | ([], _) => none
        | (ds, rest) => some (ds, rest)
      | rest => some ([], rest)
    let (exponent, rest) ← exponent? rest
    if fraction.isEmpty && exponent.isNone then
      let n : Int := Text.ofDigitList 10 whole
      return (int (if negative then -n else n), rest)
    else
      return (real (Binary64.ofDecimal negative (Text.ofDigitList 10 (whole ++ fraction))
        (exponent.getD 0 - fraction.length)), rest)

/-- The rest of a text behind a word, if the text starts with it. -/
def word? : (word cs : List Char) → Option (List Char)
  | [], cs => some cs
  | w :: word, c :: cs => if w = c then word? word cs else none
  | _ :: _, [] => none

/-- The text without the white space at its head. -/
def skip (cs : List Char) : List Char :=
  cs.dropWhile isSpace

mutual

/-- The value at the head of a text, and the rest. -/
def value? : (fuel : Nat) → List Char → Option (Json × List Char)
  | 0, _ => none
  | fuel + 1, cs =>
    match skip cs with
    | [] => none
    | '"' :: rest =>
      (textFrom (rest.length + 1) [] rest).map fun (s, rest) => (text (String.ofList s), rest)
    | '[' :: rest =>
      match skip rest with
      | ']' :: rest => some (array [], rest)
      | rest => items? fuel [] rest
    | '\x7b' :: rest =>
      match skip rest with
      | '\x7d' :: rest => some (object [], rest)
      | rest => fields? fuel [] rest
    | 'n' :: rest => (word? ['u', 'l', 'l'] rest).map (null, ·)
    | 't' :: rest => (word? ['r', 'u', 'e'] rest).map (bool true, ·)
    | 'f' :: rest => (word? ['a', 'l', 's', 'e'] rest).map (bool false, ·)
    | cs => number? cs

/-- The items of an array up to its bracket; those in front are in reverse order. -/
def items? : (fuel : Nat) → (acc : List Json) → List Char → Option (Json × List Char)
  | 0, _, _ => none
  | fuel + 1, acc, cs =>
    match value? fuel cs with
    | none => none
    | some (item, rest) =>
      match skip rest with
      | ',' :: rest => items? fuel (item :: acc) rest
      | ']' :: rest => some (array (item :: acc).reverse, rest)
      | _ => none

/-- The fields of an object up to its brace; those in front are given. -/
def fields? : (fuel : Nat) → (acc : List (String × Json)) → List Char → Option (Json × List Char)
  | 0, _, _ => none
  | fuel + 1, acc, cs =>
    match skip cs with
    | '"' :: rest =>
      match textFrom (rest.length + 1) [] rest with
      | none => none
      | some (name, rest) =>
        match skip rest with
        | ':' :: rest =>
          match value? fuel rest with
          | none => none
          | some (value, rest) =>
            let acc := setField acc (String.ofList name) value
            match skip rest with
            | ',' :: rest => fields? fuel acc rest
            | '\x7d' :: rest => some (object acc, rest)
            | _ => none
        | _ => none
    | _ => none

end

/-- The value that a text holds. A value nests at most as deep as the text is long. -/
def parse? (s : String) : Option Json :=
  let cs := s.toList
  match value? (2 * cs.length + 2) cs with
  | some (value, rest) => if (skip rest).isEmpty then some value else none
  | none => none

end ReleaseSeal.Json
