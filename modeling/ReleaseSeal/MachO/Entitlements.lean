import ReleaseSeal.MachO.Error
import ReleaseSeal.Plist.Decode
import ReleaseSeal.Plist.Display
import ReleaseSeal.Plist.KeyOrder

/-!
# Entitlements

The dictionary that a code signature grants to one slice of a binary, and the merging of those of
several slices.
-/

namespace ReleaseSeal

/-- The entitlements of one slice, or merged from several; then there is no architecture. -/
structure Entitlements where
  values : Plist.Dict
  arch : Option String

/-- The types by which a value can be asked for. A truth value also counts as an integer. -/
inductive ValueType where
  | bool
  | text
  | int
  | real
  | array
  | dict
  | data
deriving DecidableEq

/-- The value is of a type. -/
def ValueType.admits : ValueType → Plist.Value → Bool
  | bool, .bool _ => true
  | text, .text _ => true
  | int, .int _ => true
  | int, .bool _ => true
  | real, .real _ => true
  | array, .array _ | array, .again false _ => true
  | dict, .dict _ | dict, .again true _ => true
  | data, .data _ => true
  | _, _ => false

namespace Entitlements

/-- Decodes an entitlements payload, which must be a property list of a dictionary. -/
def ofPayload [Host] (arch : Option String) (payload : ByteArray) : Except MachO.Error Entitlements :=
  match Plist.decode payload with
  | .ok (.dict values) => .ok { values, arch }
  | .ok value => .error (.payloadNotDictionary value.typeName)
  | .error .malformed => .error .unreadablePayload
  | .error (.fault fault) => .error (.payloadFault fault)

/-- The value of a key, null if there is none or it is not of the type asked for. -/
def value (e : Entitlements) (key : String) (type : Option ValueType) : Plist.Value :=
  let value := (Plist.Dict.getText? e.values key).getD .null
  match type with
  | none => value
  | some type => if type.admits value then value else .null

/-- The architecture and the keys in order, for diagnostics; keys that have no common order cannot be
listed. -/
def describe? (e : Entitlements) : Option String :=
  (Plist.sortKeys? (e.values.map (·.1))).map fun keys =>
    "Entitlements(arch=" ++ (e.arch.map Text.quoted).getD "None" ++ ", keys=" ++
      (Plist.Value.array keys).literal ++ ")"

/-- Adds the pairs of a dictionary whose keys are not there yet. -/
def mergeInto (merged : Plist.Dict) (values : Plist.Dict) : Plist.Dict :=
  values.foldl (fun merged pair =>
    if (Plist.Dict.get? merged pair.1).isSome then merged else merged ++ [pair]) merged

/-- The entitlements of several slices as one: of a key that several slices have, the first slice's
value counts. -/
def merge (slices : List Entitlements) : Entitlements :=
  { values := slices.foldl (fun merged e => mergeInto merged e.values) [], arch := none }

end Entitlements

end ReleaseSeal
