import ReleaseSeal.Decimal.Text
import ReleaseSeal.Plist.Value
import ReleaseSeal.Text.Quoted

/-!
# How reports show values

A value in a report is shown as itself if it is text, and in its literal form otherwise; inside a
container everything is in literal form. A value with a number of too many digits cannot be shown, nor
one that nests too deep.
-/

namespace ReleaseSeal.Plist.Value

/-- The name of a value's type in messages. -/
def typeName : Value → String
  | null => "NoneType"
  | bool _ => "bool"
  | int _ => "int"
  | real _ => "float"
  | text _ => "str"
  | data _ => "bytes"
  | date _ => "datetime"
  | uid _ => "UID"
  | array _ | again false _ => "list"
  | dict _ | again true _ => "dict"

/-- A truth value in reports. -/
def boolName (b : Bool) : String :=
  if b then "True" else "False"

/-- A timestamp in literal form: seconds and microseconds are left out while nothing follows. -/
def dateLiteral (t : Timestamp) : String :=
  let rest :=
    if t.microsecond ≠ 0 then [t.second, t.microsecond]
    else if t.second ≠ 0 then [t.second]
    else []
  let fields := [t.year, t.month, t.day, t.hour, t.minute] ++ rest
  "datetime.datetime(" ++ ", ".intercalate (fields.map toString) ++ ")"

mutual

/-- The literal form of a value. -/
def literal : Value → String
  | null => "None"
  | bool b => boolName b
  | int n => toString n
  | real x => x.text Binary64.plainNames
  | text s => Text.quoted s
  | data bytes => Text.quotedBytes bytes
  | date t => dateLiteral t
  | uid n => "UID(" ++ toString n ++ ")"
  | array items => "[" ++ ", ".intercalate (literalItems items) ++ "]"
  | dict pairs => "\x7b" ++ ", ".intercalate (literalPairs pairs) ++ "\x7d"
  | again isDict _ => if isDict then "\x7b...\x7d" else "[...]"

/-- The literal forms of the items of an array. -/
def literalItems : List Value → List String
  | [] => []
  | item :: rest => literal item :: literalItems rest

/-- The literal forms of the pairs of a dictionary. -/
def literalPairs : List (Value × Value) → List String
  | [] => []
  | pair :: rest => literalPair pair :: literalPairs rest

/-- The literal form of a pair. -/
def literalPair : Value × Value → String
  | (key, value) => literal key ++ ": " ++ literal value

end

/-- What comes of showing a value of a kind, if there is stack for it. -/
def ifRoom [Host] (around : List ValueKind) (kind : ValueKind) (fault? : Option TextFault) :
    Option TextFault :=
  if Host.roomToShow around kind then fault? else some .tooDeep

mutual

/-- Why a value inside containers of some kinds cannot be shown: the first fault on the way. -/
def textFault? [Host] (around : List ValueKind) : Value → Option TextFault
  | int n => ifRoom around .int (if Text.isLongNumeral n then some .longNumeral else none)
  | array items => ifRoom around .array (itemsFault? (.array :: around) items)
  | dict pairs => ifRoom around .dict (pairsFault? (.dict :: around) pairs)
  | null => ifRoom around .null none
  | bool _ => ifRoom around .bool none
  | real _ => ifRoom around .real none
  | text _ => ifRoom around .text none
  | data _ => ifRoom around .data none
  | date _ => ifRoom around .date none
  | uid _ => ifRoom around .uid none
  | again isDict _ => ifRoom around (if isDict then .dict else .array) none

/-- The first fault of some items. -/
def itemsFault? [Host] (around : List ValueKind) : List Value → Option TextFault
  | [] => none
  | item :: rest => textFault? around item <|> itemsFault? around rest

/-- The first fault of some pairs. -/
def pairsFault? [Host] (around : List ValueKind) : List (Value × Value) → Option TextFault
  | [] => none
  | pair :: rest => pairFault? around pair <|> pairsFault? around rest

/-- The first fault of a pair. -/
def pairFault? [Host] (around : List ValueKind) : Value × Value → Option TextFault
  | (key, value) => textFault? around key <|> textFault? around value

end

/-- The form of a value in a report. -/
def shown : Value → String
  | text s => s
  | date t => t.text " "
  | value => value.literal

end ReleaseSeal.Plist.Value
