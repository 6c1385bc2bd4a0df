import ReleaseSeal.Markup.Character

/-!
# Tokens of a markup declaration

A declaration of a document type is read as a sequence of tokens. A token that could run into the next
one has to be followed by white space or by one of the marks listed with it.
-/

namespace ReleaseSeal.Markup

/-- How often a part of a content model may occur. -/
inductive Occurrence where
  | once | atMostOnce | anyNumber | atLeastOnce
  deriving DecidableEq

/-- The occurrence that a mark stands for. -/
def Occurrence.ofMark? : Char → Option Occurrence
  | '?' => some .atMostOnce
  | '*' => some .anyNumber
  | '+' => some .atLeastOnce
  | _ => none

/-- A token of a markup declaration. -/
inductive Token where
  | name (cs : List Char) (occurrence : Occurrence)
  /-- A run of name characters that is no name. -/
  | nameToken
  | literal (body : List Char)
  /-- A name behind a number sign. -/
  | keyword (cs : List Char)
  | opening
  | closing (occurrence : Occurrence)
  | comma
  | bar
  | percent

/-- The rest of a text, if it starts with white space or one of some marks. -/
def endingWith? (marks rest : List Char) : Option (List Char) :=
  match rest with
  | c :: _ => if isSpace c || marks.contains c then some rest else none
  | [] => none

/-- White space, at least one character of it. -/
def space? (cs : List Char) : Option (List Char) :=
  match cs with
  | c :: rest => if isSpace c then some (skipSpace rest) else none
  | [] => none

/-- A name or a name token, with the mark of its occurrence; only a name may have one. -/
def nameToken? (a : Alphabet) (cs : List Char) : Option (Token × List Char) := do
  let (body, rest) := cs.span a.isPart
  let isName := (body.head?.map a.isStart).getD false
  match rest.head?.bind Occurrence.ofMark? with
  | some occurrence => if isName then some (.name body occurrence, rest.drop 1) else none
  | none =>
    let rest ← endingWith? ['>', ')', ',', '|', '[', '%'] rest
    if body.isEmpty then none
    else return (if isName then .name body .once else .nameToken, rest)

/-- The token at the head of a text, and the rest. -/
def Token.next? (a : Alphabet) (cs : List Char) : Option (Token × List Char) :=
  match cs with
  | '(' :: rest => some (.opening, rest)
  | ')' :: rest =>
    match rest.head?.bind Occurrence.ofMark? with
    | some occurrence => some (.closing occurrence, rest.drop 1)
    | none => (endingWith? ['>', ',', '|', ')'] rest).map (.closing .once, ·)
  | ',' :: rest => some (.comma, rest)
  | '|' :: rest => some (.bar, rest)
  | '%' :: rest => (endingWith? ['%'] rest).map (.percent, ·)
  | '#' :: rest => do
    let (body, rest) ← name? a rest
    return (.keyword body, ← endingWith? [')', '>', '%', '|'] rest)
  | c :: rest =>
    if c = '"' || c = '\'' then do
      let (body, rest) ← upTo? [c] [] rest
      return (.literal body, ← endingWith? ['>', '%', '['] rest)
    else nameToken? a cs
  | [] => none

/-- The tokens up to the bracket that ends or interrupts a declaration, which the rest starts with.
`fuel` exceeds the length of the text. -/
def tokens? (a : Alphabet) : (fuel : Nat) → (acc : List Token) → List Char →
    Option (List Token × List Char)
  | 0, _, _ => none
  | fuel + 1, acc, cs =>
    match skipSpace cs with
    | '>' :: rest => some (acc.reverse, '>' :: rest)
    | '[' :: rest => some (acc.reverse, '[' :: rest)
    | cs => do
      let (token, rest) ← Token.next? a cs
      tokens? a fuel (token :: acc) rest

end ReleaseSeal.Markup
