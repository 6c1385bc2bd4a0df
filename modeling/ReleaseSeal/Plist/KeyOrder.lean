import ReleaseSeal.Plist.Value
import ReleaseSeal.Order.Halving

/-!
# The order of keys

Keys of one class have an order: texts by their code points, numbers by size, data by its bytes,
timestamps by time. What is not a number has no place among numbers.
-/

namespace ReleaseSeal.Plist

/-- The classes of keys that have an order among themselves. -/
inductive KeyClass where
  | text
  | number
  | data
  | date
deriving DecidableEq

namespace Key

/-- The class of keys that a key can be ordered with. -/
def orderClass? : Key → Option KeyClass
  | text _ => some .text
  | number .. | infinity _ | nan => some .number
  | data _ => some .data
  | date _ => some .date
  | null | uid _ => none

/-- The fields of a timestamp, from the largest unit down. -/
def dateFields (t : Timestamp) : List Nat :=
  [t.year, t.month, t.day, t.hour, t.minute, t.second, t.microsecond]

/-- The order within a class: code points of texts, sizes of numbers, bytes of data, time. -/
def less : Key → Key → Bool
  | text s, text t => decide (s < t)
  | number a b, number c d => decide (a * d < c * b)
  | infinity negative, number .. => negative
  | number .., infinity negative => !negative
  | infinity a, infinity b => a && !b
  | data a, data b => decide (a.toList < b.toList)
  | date a, date b => decide (dateFields a < dateFields b)
  | _, _ => false

end Key

/-- The order of two keys of one class. -/
def Value.keyLe (a b : Value) : Bool :=
  match a.key?, b.key? with
  | some x, some y => !y.less x
  | _, _ => true

/-- The key is a number that is not a number. -/
def Value.isUnplaced (v : Value) : Bool :=
  v.key? == some .nan

/-- Things by key in ascending order of keys of one class. Where a key has no place, the order depends
on the way of sorting: each thing behind the leading run is put in place by halving. -/
def inKeyOrder {α : Type} (key : α → Value) (items : List α) : List α :=
  if items.any fun item => (key item).isUnplaced then
    Order.sortByHalving (fun a b => !Value.keyLe (key b) (key a)) items
  else items.mergeSort fun a b => Value.keyLe (key a) (key b)

/-- Keys can be ordered: a single key always can, more of them only if they are of one class. -/
def canOrder : List Value → Bool
  | [] | [_] => true
  | key :: rest =>
    let classOf := fun v : Value => v.key?.bind Key.orderClass?
    match classOf key with
    | none => false
    | some c => rest.all fun v => classOf v == some c

/-- Things by key in ascending order of the keys, if these can be ordered. -/
def sortByKey? {α : Type} (items : List (Value × α)) : Option (List (Value × α)) :=
  if canOrder (items.map (·.1)) then some (inKeyOrder (·.1) items) else none

/-- Keys in ascending order, if they can be ordered. -/
def sortKeys? (keys : List Value) : Option (List Value) :=
  if canOrder keys then some (inKeyOrder id keys) else none

end ReleaseSeal.Plist
