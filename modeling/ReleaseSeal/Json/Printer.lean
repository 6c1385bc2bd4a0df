import ReleaseSeal.Decimal.Text
import ReleaseSeal.Host
import ReleaseSeal.Json.Value
import ReleaseSeal.Text.Numeral

/-!
# Writing JSON

A value is written with the fields of objects in order and in ASCII alone: a character outside it is
written by its UTF-16 units. Without an indentation everything is on one line; with one, every item
and every field has a line of its own, and empty containers stay closed. A number of too many digits
cannot be written, nor what nests too deep.
-/

namespace ReleaseSeal.Json

/-- A UTF-16 unit in a text. -/
def escapedUnit (n : Nat) : List Char :=
  '\\' :: 'u' :: (Text.hexPadded 4 n).toList

/-- A character in a text. -/
def escapedChar (c : Char) : List Char :=
  let n := c.toNat
  if c = '"' then ['\\', '"']
  else if c = '\\' then ['\\', '\\']
  else if c = '\n' then ['\\', 'n']
  else if c = '\r' then ['\\', 'r']
  else if c = '\t' then ['\\', 't']
  else if n = 0x08 then ['\\', 'b']
  else if n = 0x0c then ['\\', 'f']
  else if 0x20 ≤ n && n < 0x7f then [c]
  else if n < 0x10000 then escapedUnit n
  else escapedUnit (0xd800 + (n - 0x10000) / 1024) ++ escapedUnit (0xdc00 + (n - 0x10000) % 1024)

/-- A text between quotes. -/
def quotedText (s : String) : List Char :=
  '"' :: s.toList.flatMap escapedChar ++ ['"']

/-- How containers are laid out. -/
inductive Style where
  /-- On one line. -/
  | inline
  /-- One item a line, indented by a unit for each level. -/
  | indented (unit : List Char)

namespace Style

def isInline : Style → Bool
  | inline => true
  | indented _ => false

/-- What stands in front of an item at a level: the break of the line, if there is one. -/
def lineBreak (style : Style) (level : Nat) : List Char :=
  match style with
  | inline => []
  | indented unit => '\n' :: (List.replicate level unit).flatten

/-- What stands between two items of a container at a level. -/
def separator (style : Style) (level : Nat) : List Char :=
  match style with
  | inline => [',', ' ']
  | indented _ => ',' :: style.lineBreak level

/-- A container of written items, whose own level is given. -/
def enclose (style : Style) (level : Nat) (opening closing : Char) (items : List (List Char)) :
    List Char :=
  match items with
  | [] => [opening, closing]
  | _ =>
    opening :: style.lineBreak (level + 1) ++ (style.separator (level + 1)).intercalate items ++
      style.lineBreak level ++ [closing]

end Style

/-- An indentation as it is asked for. -/
inductive Indent where
  | none
  | spaces (count : Nat)
  | text (unit : List Char)

/-- A text has fewer characters than this. -/
def textLimit : Nat := 0x8000000000000000

/-- The layout of an indentation, unless it is wider than a text can be. -/
def Indent.style? : Indent → Option Style
  | none => some .inline
  | spaces count =>
    if count < textLimit then some (.indented (List.replicate count ' ')) else Option.none
  | text unit => some (.indented unit)

mutual

/-- The text of a value that stands at a level. -/
def renderAt (style : Style) (level : Nat) : Json → List Char
  | null => ['n', 'u', 'l', 'l']
  | bool true => ['t', 'r', 'u', 'e']
  | bool false => ['f', 'a', 'l', 's', 'e']
  | int n => (toString n).toList
  | real x => (x.text Binary64.jsonNames).toList
  | text s => quotedText s
  | array items => style.enclose level '[' ']' (renderItems style (level + 1) items)
  | object fields => style.enclose level '\x7b' '\x7d' (renderFields style (level + 1) fields)

/-- The texts of the items of an array. -/
def renderItems (style : Style) (level : Nat) : List Json → List (List Char)
  | [] => []
  | item :: rest => renderAt style level item :: renderItems style level rest

/-- The texts of the fields of an object. -/
def renderFields (style : Style) (level : Nat) : List (String × Json) → List (List Char)
  | [] => []
  | field :: rest => renderField style level field :: renderFields style level rest

/-- The text of a field. -/
def renderField (style : Style) (level : Nat) : String × Json → List Char
  | (name, value) => quotedText name ++ ':' :: ' ' :: renderAt style level value

end

mutual

/-- A value with the fields of all its objects in order. -/
def sorted : Json → Json
  | array items => array (sortedItems items)
  | object fields => object (sortFields (sortedFields fields))
  | null => null
  | bool b => bool b
  | int n => int n
  | real x => real x
  | text s => text s

/-- The items of an array, each sorted. -/
def sortedItems : List Json → List Json
  | [] => []
  | item :: rest => sorted item :: sortedItems rest

/-- The fields of an object, the value of each sorted. -/
def sortedFields : List (String × Json) → List (String × Json)
  | [] => []
  | field :: rest => sortedField field :: sortedFields rest

/-- A field with its value sorted. -/
def sortedField : String × Json → String × Json
  | (name, value) => (name, sorted value)

end

/-- What a value is. -/
def kind : Json → ValueKind
  | null => .null
  | bool _ => .bool
  | int _ => .int
  | real _ => .real
  | text _ => .text
  | array _ => .array
  | object _ => .dict

/-- What comes of writing a value of a kind, if there is stack for it. -/
def ifRoom [Host] (isInline : Bool) (around : List ValueKind) (kind : ValueKind)
    (fault? : Option TextFault) : Option TextFault :=
  if Host.roomToWrite isInline around kind then fault? else some .tooDeep

mutual

/-- Why a value inside containers of some kinds cannot be written: the first fault on the way. -/
def fault? [Host] (isInline : Bool) (around : List ValueKind) : Json → Option TextFault
  | int n => ifRoom isInline around .int (if Text.isLongNumeral n then some .longNumeral else none)
  | array items => ifRoom isInline around .array (itemsFault? isInline (.array :: around) items)
  | object fields => ifRoom isInline around .dict (fieldsFault? isInline (.dict :: around) fields)
  | null => ifRoom isInline around .null none
  | bool _ => ifRoom isInline around .bool none
  | real _ => ifRoom isInline around .real none
  | text _ => ifRoom isInline around .text none

/-- The first fault of some items. -/
def itemsFault? [Host] (isInline : Bool) (around : List ValueKind) : List Json → Option TextFault
  | [] => none
  | item :: rest => fault? isInline around item <|> itemsFault? isInline around rest

/-- The first fault of some fields. -/
def fieldsFault? [Host] (isInline : Bool) (around : List ValueKind) :
    List (String × Json) → Option TextFault
  | [] => none
  | field :: rest => fieldFault? isInline around field <|> fieldsFault? isInline around rest

/-- The first fault of a field. -/
def fieldFault? [Host] (isInline : Bool) (around : List ValueKind) :
    String × Json → Option TextFault
  | (_, value) => ifRoom isInline around .text none <|> fault? isInline around value

end

/-- The text of a value, its fields as they stand. -/
def write (style : Style) (value : Json) : String :=
  String.ofList (renderAt style 0 value)

/-- The text of a value, its fields in order. -/
def render (style : Style) (value : Json) : String :=
  write style value.sorted

/-- The text of a value, its fields in order, if it can be written. -/
def dump [Host] (style : Style) (value : Json) : Except TextFault String :=
  match value.sorted.fault? style.isInline [] with
  | none => .ok (value.render style)
  | some fault => .error fault

end ReleaseSeal.Json
