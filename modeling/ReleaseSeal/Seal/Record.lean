import ReleaseSeal.Entitlement.Policy
import ReleaseSeal.Json.Printer
import ReleaseSeal.Seal.Asset
import ReleaseSeal.Seal.Tint

/-!
# Seal records

The record that attests a comparison: the size of the main executable, the justified permissions and
the published files. It is written as JSON and can be read back; whatever JSON value stands in a
field is kept as it is.
-/

namespace ReleaseSeal.Seal

/-- Why a JSON value is no seal record. -/
inductive RecordError where
  | notObject
  /-- A list is no list, or an item of it has no fields. -/
  | wrongType
  | missingField (name : String)
deriving DecidableEq, Repr

/-- A published file in a record. -/
structure AssetItem where
  url : Json
  size : Json
  digest : Json

/-- A permission in a record. -/
structure PermissionItem where
  key : Json
  justification : Json

/-- A seal record. -/
structure Record where
  assets : List AssetItem
  permissions : List PermissionItem
  coreSize : Json
  /-- Null if there is none. -/
  tint : Json
  generatorVersion : Json

/-- The version of the generator that records name. -/
def generatorVersion : String := "2025.10.1"

/-- The value of a field of an item. -/
def itemField (name : String) : Json → Except RecordError Json
  | .object fields =>
    match fields.lookup name with
    | some value => .ok value
    | none => .error (.missingField name)
  | _ => .error .wrongType

namespace AssetItem

/-- A described file as an item. -/
def ofAsset (a : Asset) : AssetItem :=
  { url := .text a.url, size := .int a.size, digest := .text a.digest }

/-- The object of an item. -/
def toJson (a : AssetItem) : Json :=
  .object [("url", a.url), ("size", a.size), ("sha256", a.digest)]

/-- Reads an item. -/
def ofJson (value : Json) : Except RecordError AssetItem := do
  let url ← itemField "url" value
  let size ← itemField "size" value
  let digest ← itemField "sha256" value
  return { url, size, digest }

end AssetItem

namespace PermissionItem

/-- A permission as an item. -/
def ofPermission (p : Entitlement.Permission) : PermissionItem :=
  { key := .text p.key, justification := .text p.justification }

/-- The object of an item. -/
def toJson (p : PermissionItem) : Json :=
  .object [("key", p.key), ("justification", p.justification)]

/-- Reads an item. -/
def ofJson (value : Json) : Except RecordError PermissionItem := do
  let key ← itemField "key" value
  let justification ← itemField "justification" value
  return { key, justification }

end PermissionItem

namespace Record

/-- The record of a core size, permissions and files, with a tint in normal form if there is one. -/
def make (coreSize : Int) (permissions : List Entitlement.Permission) (assets : List Asset)
    (tint : Option String) : Record :=
  { assets := assets.map AssetItem.ofAsset,
    permissions := permissions.map PermissionItem.ofPermission,
    coreSize := .int coreSize,
    tint := (tint.map Json.text).getD .null,
    generatorVersion := .text Seal.generatorVersion }

/-- Assembles a record; a tint is brought into normal form. -/
def assemble (coreSize : Int) (permissions : List Entitlement.Permission) (assets : List Asset)
    (tint : Option String) : Except Failure Record :=
  match tint with
  | none => .ok (make coreSize permissions assets none)
  | some given =>
    match normalTint? given with
    | none => .error (.invalidTint given)
    | some tint => .ok (make coreSize permissions assets tint)

/-- The object of a record; a missing tint is left out. -/
def toJson (r : Record) : Json :=
  .object
    ([("assets", .array (r.assets.map AssetItem.toJson)),
      ("permissions", .array (r.permissions.map PermissionItem.toJson)),
      ("coreSize", r.coreSize),
      ("generatorVersion", r.generatorVersion)] ++
      match r.tint with
      | .null => []
      | tint => [("tint", tint)])

/-- The text of a record, with its fields in order. -/
def render [Host] (indent : Json.Indent) (r : Record) : Except Failure String :=
  match indent.style? with
  | none => .error .indentTooWide
  | some style => (r.toJson.dump style).mapError .ofText

/-- The items of a list in a record; a missing list has none. A text counts as the list of its
characters and an object as that of its names, none of which is an item. -/
def items : Option Json → Except RecordError (List Json)
  | none => .ok []
  | some (.array items) => .ok items
  | some (.object []) => .ok []
  | some (.text s) => if s = "" then .ok [] else .error .wrongType
  | some _ => .error .wrongType

/-- Reads a record. -/
def ofJson : Json → Except RecordError Record
  | .object fields => do
    let assets ← (← items (fields.lookup "assets")).mapM AssetItem.ofJson
    let permissions ← (← items (fields.lookup "permissions")).mapM PermissionItem.ofJson
    return {
      assets, permissions,
      coreSize := (fields.lookup "coreSize").getD (.int 0),
      tint := (fields.lookup "tint").getD .null,
      generatorVersion := (fields.lookup "generatorVersion").getD (.text Seal.generatorVersion) }
  | _ => .error .notObject

end Record

end ReleaseSeal.Seal
