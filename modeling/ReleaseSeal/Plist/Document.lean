import ReleaseSeal.Decimal.Literal
import ReleaseSeal.Markup.Event
import ReleaseSeal.Plist.Failure
import ReleaseSeal.Plist.Value
import ReleaseSeal.Text.Base64

/-!
# Property lists in markup

A property list in the XML format is built from the events of its document. Tags that are not part
of the format are ignored, so only the order of the known ones counts. A start tag discards the text
collected so far; an end tag uses it up.
-/

namespace ReleaseSeal.Plist

open Markup (Event)

/-- What an open container holds so far; the items of an array are in reverse order. -/
inductive Contents where
  | array (items : List Value)
  | dict (pairs : Dict)

/-- The finished value. -/
def Contents.value : Contents → Value
  | array items => .array items.reverse
  | dict pairs => .dict pairs

/-- An open container, and the key that it is stored under in the dictionary around it. -/
structure Frame where
  slot : Option String
  contents : Contents

/-- The state of building a value from events. The pending key belongs to no container: a dictionary
that ends with an empty key pending leaves it to the container around it. -/
structure Builder where
  stack : List Frame
  pending : Option String
  collected : List (List Char)
  root : Value

namespace Builder

def empty : Builder :=
  { stack := [], pending := none, collected := [], root := .null }

/-- The text collected since the last start tag. -/
def text (b : Builder) : List Char :=
  b.collected.reverse.flatten

/-- The key that a value is to be stored under, after the check that one may stand here: under the
pending key in a dictionary, in an array, or at the top. -/
def slot (b : Builder) : Except Failure (Option String) :=
  match b.pending, b.stack with
  | some _, [] => .error (.fault .noContainer)
  | some key, { contents := .dict _, .. } :: _ => .ok (some key)
  | some _, { contents := .array _, .. } :: _ => .error .malformed
  | none, [] => .ok none
  | none, { contents := .array _, .. } :: _ => .ok none
  | none, { contents := .dict _, .. } :: _ => .error .malformed

/-- Stores a finished value in the innermost container, or as the root if there is none. -/
def store (slot : Option String) (value : Value) (b : Builder) : Builder :=
  match b.stack with
  | [] => { b with root := value }
  | frame :: rest =>
    let contents := match frame.contents, slot with
      | .array items, _ => .array (value :: items)
      | .dict pairs, some key => .dict (Dict.insert pairs (.text key) value)
      | .dict pairs, none => .dict pairs
    { b with stack := { frame with contents } :: rest }

/-- Adds a scalar; its tag uses up the collected text. -/
def add (value : Value) (b : Builder) : Except Failure Builder := do
  let slot ← b.slot
  return store slot value { b with pending := none }

/-- Opens a container. -/
def push (contents : Contents) (b : Builder) : Except Failure Builder := do
  let slot ← b.slot
  return { b with pending := none, stack := { slot, contents } :: b.stack }

/-- Closes the innermost container. -/
def pop (b : Builder) : Except Failure Builder :=
  match b.stack with
  | [] => .error (.fault .noContainer)
  | frame :: rest => .ok (store frame.slot frame.contents.value { b with stack := rest })

/-- A key that is not empty is waiting for its value. -/
def expectsValue (b : Builder) : Bool :=
  match b.pending with
  | some key => key != ""
  | none => false

/-- Makes the collected text the pending key. -/
def key (b : Builder) : Except Failure Builder :=
  if b.expectsValue then .error .malformed
  else
    match b.stack with
    | [] => .error (.fault .noContainer)
    | { contents := .dict _, .. } :: _ =>
      .ok { b with pending := some (String.ofList b.text), collected := [] }
    | _ => .error .malformed

end Builder

/-- The next two digits after a mark. -/
def datePart? (mark : Char) : List Char → Option (Nat × List Char)
  | m :: a :: b :: rest =>
    if m = mark && a.isDigit && b.isDigit then
      some ((a.toNat - 48) * 10 + (b.toNat - 48), rest)
    else none
  | _ => none

/-- The fields that follow the year of a date, each behind its mark, and the rest. -/
def dateParts : (marks : List Char) → List Char → List Nat × List Char
  | [], cs => ([], cs)
  | mark :: marks, cs =>
    match datePart? mark cs with
    | some (n, rest) =>
      let (parts, rest) := dateParts marks rest
      (n :: parts, rest)
    | none => ([], cs)

/-- Reads a date: a year of four digits and up to five fields of two, then a `Z`. What follows is
ignored. -/
def dateOfText (cs : List Char) : Except Failure Timestamp :=
  let year := cs.take 4
  let (parts, rest) := dateParts ['-', '-', 'T', ':', ':'] (cs.drop 4)
  if year.length = 4 && year.all Char.isDigit && rest.head? == some 'Z' then
    let year := Text.ofDigitList 10 (year.map fun c => c.toNat - 48)
    let field (i : Nat) : Nat := (parts[i]?).getD 0
    if parts.length < 2 then .error (.fault .incompleteDate)
    else
      match Timestamp.make? year (field 0) (field 1) (field 2) (field 3) (field 4) with
      | some t => .ok t
      | none => .error .malformed
  else .error (.fault .shapelessDate)

/-- Reads an integer: hexadecimal if it starts with a mark, else decimal. -/
def integerOfText (cs : List Char) : Option Int :=
  match cs with
  | '0' :: x :: _ =>
    if x = 'x' || x = 'X' then Text.hexInt? (String.ofList cs)
    else Text.decimalInt? (String.ofList cs)
  | _ => Text.decimalInt? (String.ofList cs)

/-- A value that may be missing because its text is malformed. -/
def wellFormed {α : Type} : Option α → Except Failure α
  | some a => .ok a
  | none => .error .malformed

namespace Builder

/-- Reacts to an end tag. -/
def close (name : String) (b : Builder) : Except Failure Builder :=
  let used := { b with collected := [] }
  match name with
  | "dict" => if b.expectsValue then .error .malformed else b.pop
  | "array" => b.pop
  | "key" => b.key
  | "true" => b.add (.bool true)
  | "false" => b.add (.bool false)
  | "integer" => do used.add (.int (← wellFormed (integerOfText b.text)))
  | "real" => do used.add (.real (← wellFormed (Text.real? (String.ofList b.text))))
  | "string" => used.add (.text (String.ofList b.text))
  | "data" => do used.add (.data (← wellFormed (Text.base64? b.text)))
  | "date" => do used.add (.date (← dateOfText b.text))
  | _ => .ok b

/-- Reacts to an event. -/
def step (b : Builder) : Event → Except Failure Builder
  | .opened name =>
    let b := { b with collected := [] }
    if name = "dict" then b.push (.dict [])
    else if name = "array" then b.push (.array [])
    else .ok b
  | .closed name => b.close name
  | .text cs => .ok { b with collected := cs :: b.collected }

end Builder

/-- The value of a document. A fault in an event is found before one in the text behind it. -/
def ofMarkup (bytes : ByteArray) : Except Failure Value := do
  let scan := Markup.Scan.ofBytes bytes.data.toList
  let b ← scan.events.foldlM Builder.step Builder.empty
  match scan.ending with
  | .complete => return b.root
  | .malformed => throw .malformed
  | .unknownEncoding name => throw (.fault (.unknownEncoding name))

end ReleaseSeal.Plist
