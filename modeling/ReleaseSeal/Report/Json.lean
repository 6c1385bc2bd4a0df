import ReleaseSeal.Failure
import ReleaseSeal.Json.Printer
import ReleaseSeal.Plist.Display
import ReleaseSeal.Plist.KeyOrder

/-!
# Values in JSON reports

A property-list value as JSON. The pairs of a dictionary are in the order of their keys, which must
have one; a key that is no text is written as the text of its number or name. Data, dates and
references to other objects become the text by which they are shown. A container that is part of itself
has no form in JSON, and neither has what nests too deep.
-/

namespace ReleaseSeal.Report

open Plist (Value Dict)

/-- What comes of writing a value of a kind, if there is stack for it. -/
def ifRoom [Host] {α : Type} (around : List ValueKind) (kind : ValueKind) (result : Except Failure α) :
    Except Failure α :=
  if Host.roomToWrite false around kind then result else .error .tooDeep

/-- A key of a dictionary as the name of a field. -/
def keyText : Value → Except Failure String
  | .text s => .ok s
  | .int n => if Text.isLongNumeral n then .error .numeralTooLong else .ok (toString n)
  | .real x => .ok (x.text Binary64.jsonNames)
  | .bool b => .ok (if b then "true" else "false")
  | .null => .ok "null"
  | .data _ | .date _ | .uid _ | .array _ | .dict _ | .again .. => .error .unwritableKey

/-- A key of a dictionary inside containers of some kinds as the name of a field. -/
def fieldName [Host] (around : List ValueKind) (key : Value) : Except Failure String :=
  ifRoom around key.kind (keyText key)

/-- The fields of an object, from the items of a dictionary. They are written in their order, so the
first one that cannot be written counts. -/
def fieldsOf [Host] (around : List ValueKind) (items : List (Value × Except Failure Json)) :
    Except Failure (List (String × Json)) :=
  match Plist.sortByKey? items with
  | none => .error .unorderedKeys
  | some items => items.mapM fun (key, value) => do return (← fieldName around key, ← value)

mutual

/-- A value inside containers of some kinds as JSON. -/
def ofValue [Host] (around : List ValueKind) : Value → Except Failure Json
  | .null => ifRoom around .null (.ok .null)
  | .bool b => ifRoom around .bool (.ok (.bool b))
  | .int n =>
    ifRoom around .int (if Text.isLongNumeral n then .error .numeralTooLong else .ok (.int n))
  | .real x => ifRoom around .real (.ok (.real x))
  | .text s => ifRoom around .text (.ok (.text s))
  | .data bytes => ifRoom around .data (.ok (.text (Value.data bytes).shown))
  | .date t => ifRoom around .date (.ok (.text (Value.date t).shown))
  | .uid n => ifRoom around .uid (.ok (.text (Value.uid n).shown))
  | .array items => ifRoom around .array do return .array (← ofItems (.array :: around) items)
  | .dict pairs =>
    ifRoom around .dict do
      return .object (← fieldsOf (.dict :: around) (ofPairs (.dict :: around) pairs))
  | .again isDict _ => ifRoom around (if isDict then .dict else .array) (.error .selfContaining)

/-- The items of an array as JSON. -/
def ofItems [Host] (around : List ValueKind) : List Value → Except Failure (List Json)
  | [] => .ok []
  | item :: rest => do return (← ofValue around item) :: (← ofItems around rest)

/-- The pairs of a dictionary with their values as JSON. -/
def ofPairs [Host] (around : List ValueKind) :
    List (Value × Value) → List (Value × Except Failure Json)
  | [] => []
  | pair :: rest => ofPair around pair :: ofPairs around rest

/-- A pair with its value as JSON. -/
def ofPair [Host] (around : List ValueKind) : Value × Value → Value × Except Failure Json
  | (key, value) => (key, ofValue around value)

end

/-- How many spaces indent a level of a report in JSON. -/
def indentWidth : Nat := 2

/-- How reports in JSON are laid out. -/
def style : Json.Style :=
  .indented (List.replicate indentWidth ' ')

end ReleaseSeal.Report
