import ReleaseSeal.Decimal.Binary64

/-!
# JSON values

Integers and reals are kept apart, since they are written differently. An object is a list of fields
in the order in which their names were first given; no name occurs twice.
-/

namespace ReleaseSeal

/-- A JSON value. -/
inductive Json where
  | null
  | bool (b : Bool)
  | int (n : Int)
  | real (x : Binary64)
  | text (s : String)
  | array (items : List Json)
  | object (fields : List (String × Json))
deriving Inhabited

namespace Json

/-- The value of a field of an object. -/
def field? (name : String) : Json → Option Json
  | object fields => fields.lookup name
  | _ => none

/-- Gives a field a value; a field that is there keeps its place. -/
def setField (fields : List (String × Json)) (name : String) (value : Json) : List (String × Json) :=
  match fields with
  | [] => [(name, value)]
  | (n, v) :: rest => if n = name then (n, value) :: rest else (n, v) :: setField rest name value

/-- Fields in the order of their names. -/
def sortFields (fields : List (String × Json)) : List (String × Json) :=
  fields.mergeSort fun a b => !decide (b.1 < a.1)

end Json

end ReleaseSeal
