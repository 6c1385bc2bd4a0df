import ReleaseSeal.Host
import ReleaseSeal.Plist.Timestamp

/-!
# Property-list values

The values that both formats of a property list can hold. A dictionary is a list of pairs in the
order in which its keys were first stored. In the binary format a key may be any scalar, and two
keys are the same if they denote the same number, text, date, …, whatever their types; `Key` is the
normal form that decides it.

In the binary format a container may be part of itself. Where it comes up again among its own parts,
the value points back to it.
-/

namespace ReleaseSeal.Plist

/-- A property-list value. -/
inductive Value where
  | null
  | bool (b : Bool)
  | int (n : Int)
  | real (x : Binary64)
  | text (s : String)
  | data (bytes : ByteArray)
  | date (t : Timestamp)
  | uid (n : Nat)
  | array (items : List Value)
  | dict (pairs : List (Value × Value))
  /-- The array or dictionary again that lies this many containers further out than the one around. -/
  | again (isDict : Bool) (levels : Nat)
deriving Inhabited

/-- The pairs of a dictionary in insertion order. -/
abbrev Dict := List (Value × Value)

/-- What a dictionary key denotes. A number is a reduced fraction, so that a boolean, an integer and
a real of one value are one key. -/
inductive Key where
  | null
  | number (num : Int) (den : Nat)
  | infinity (negative : Bool)
  | nan
  | text (s : String)
  | data (bytes : Array UInt8)
  | date (t : Timestamp)
  | uid (n : Nat)
deriving DecidableEq

/-- A finite double as a key. -/
def Key.ofReal (x : Binary64) : Key :=
  if x.isNaN then .nan
  else if x.isInfinite then .infinity x.isNegative
  else
    let (num, den) := x.quotient
    let g := num.gcd den
    let n : Int := num / g
    .number (if x.isNegative then -n else n) (den / g)

namespace Value

/-- What a value is. -/
def kind : Value → ValueKind
  | null => .null
  | bool _ => .bool
  | int _ => .int
  | real _ => .real
  | text _ => .text
  | data _ => .data
  | date _ => .date
  | uid _ => .uid
  | array _ => .array
  | dict _ => .dict
  | again isDict _ => if isDict then .dict else .array

/-- What a value denotes as a dictionary key; arrays and dictionaries cannot be keys. -/
def key? : Value → Option Key
  | null => some .null
  | bool b => some (.number (if b then 1 else 0) 1)
  | int n => some (.number n 1)
  | real x => some (.ofReal x)
  | text s => some (.text s)
  | data bytes => some (.data bytes.data)
  | date t => some (.date t)
  | uid n => some (.uid n)
  | array _ | dict _ | again .. => none

/-- Two values are the same dictionary key. What is not a number equals nothing. -/
def sameKey (a b : Value) : Bool :=
  match a.key?, b.key? with
  | some x, some y => decide (x = y) && decide (x ≠ Key.nan)
  | _, _ => false

@[simp] theorem sameKey_text (s t : String) : sameKey (text s) (text t) = decide (s = t) := by
  simp [sameKey, key?]

end Value

namespace Dict

/-- The value stored under a key. -/
def get? (d : Dict) (key : Value) : Option Value :=
  (d.find? fun pair => pair.1.sameKey key).map (·.2)

/-- The value stored under a text. -/
def getText? (d : Dict) (key : String) : Option Value :=
  get? d (.text key)

/-- Stores a value under a key. A key that is there already keeps its place and its spelling. -/
def insert (d : Dict) (key value : Value) : Dict :=
  match d with
  | [] => [(key, value)]
  | pair :: rest =>
    if pair.1.sameKey key then (pair.1, value) :: rest else pair :: insert rest key value

end Dict

end ReleaseSeal.Plist
