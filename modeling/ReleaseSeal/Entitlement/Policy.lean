import ReleaseSeal.Entitlement.Catalogue
import ReleaseSeal.Plist.KeyOrder
import ReleaseSeal.Text.Blank

/-!
# The policy on entitlements

Which of the declared entitlements are permitted, and why. The sandbox must be declared true where it
is required; a forbidden key is refused before a missing description is; the least key in order is
the one that is named.
-/

namespace ReleaseSeal.Entitlement

open Plist (Dict Value)

/-- Why declared entitlements are refused. -/
inductive Violation where
  | sandboxRequired (key : String)
  | forbidden (key : String)
  | missingJustification (key : String) (properties : List String)
deriving DecidableEq, Repr

/-- The wording of a refusal. -/
def Violation.message : Violation → String
  | sandboxRequired key => s!"Sandbox entitlement must be declared true: {key}"
  | forbidden key => s!"Entitlement is forbidden: {key}"
  | missingJustification key properties =>
    let shown := ", ".intercalate properties
    let shown := if shown = "" then key else shown
    s!"Entitlement {key} requires a usage description (looked up: {shown})"

/-- Why a check has no answer: the entitlements are refused, or their keys have no common order. -/
inductive CheckError where
  | violation (violation : Violation)
  | unorderedKeys
deriving DecidableEq, Repr

/-- A declared entitlement and the usage description that permits it. -/
structure Permission where
  key : String
  justification : String
deriving DecidableEq, Repr

/-- A value declares its entitlement unless it is null or false. -/
def isDeclared : Value → Bool
  | .null => false
  | .bool b => b
  | _ => true

/-- The keys of the declared entitlements, in order. -/
def declaredKeys? (entitlements : Dict) : Option (List Value) :=
  Plist.sortKeys? ((entitlements.filter fun pair => isDeclared pair.2).map (·.1))

/-- The sandbox is declared true. -/
def isSandboxed (entitlements : Dict) : Bool :=
  match Dict.getText? entitlements appSandbox with
  | some (.bool b) => b
  | _ => false

/-- A value's text, if it is text. -/
def textOf? : Value → Option String
  | .text s => some s
  | _ => none

/-- The groups of applications that the entitlements list. -/
def groups (entitlements : Dict) : List String :=
  match Dict.getText? entitlements applicationGroups with
  | some (.array items) => items.filterMap textOf?
  | _ => []

/-- The known entitlements among declared keys. -/
def known (keys : List Value) : List Entry :=
  keys.filterMap fun key => (textOf? key).bind Catalogue.find?

/-- The declared keys of each category that has some, by the names of the categories. -/
def byCategory (keys : List Value) : List (Category × List String) :=
  (Category.all.map fun category =>
    (category, ((known keys).filter fun e => e.categories.contains category).map (·.key))).filter
      fun group => !group.2.isEmpty

/-- The property of an application's information that holds its usage descriptions. -/
def usageKey : String := "FairUsage"

/-- The value is empty, zero or false, and stands for missing information. -/
def isMissing : Value → Bool
  | .null => true
  | .bool b => !b
  | .int n => n == 0
  | .real x => x.magnitudeBits == 0
  | .text s => s == ""
  | .data bytes => bytes.size == 0
  | .array items => items.isEmpty
  | .dict pairs => pairs.isEmpty
  -- A container that comes up again is part of itself, so it is not empty.
  | .date _ | .uid _ | .again .. => false

/-- The usage descriptions in an application's information: the texts of one dictionary in it. -/
def usageDescriptions (info : Dict) : Dict :=
  match Dict.getText? info usageKey with
  | some (.dict usage) => usage.filter fun pair => (textOf? pair.2).isSome
  | _ => []

/-- The usage descriptions in a value that should be a dictionary; a missing one has none. -/
def usageDescriptions? (info : Value) : Option Dict :=
  match info with
  | .dict pairs => some (usageDescriptions pairs)
  | value => if isMissing value then some [] else none

/-- The first usage description under some properties that is not blank, without white space at its
ends. -/
def justification? (usage : Dict) (properties : List String) : Option String :=
  properties.findSome? fun property =>
    match Dict.getText? usage property with
    | some (.text s) =>
      let stripped := Text.strip s
      if stripped = "" then none else some stripped
    | _ => none

/-- The permission for a known entitlement; none is needed where it is unrestricted. -/
def permission (usage : Dict) (e : Entry) : Except Violation (Option Permission) :=
  match e.rule with
  | .explained properties =>
    match justification? usage properties with
    | some justification => .ok (some { key := e.key, justification })
    | none => .error (.missingJustification e.key properties)
  | .forbidden | .unrestricted => .ok none

/-- The permissions for known entitlements, in order, or the first refusal. A forbidden entitlement
anywhere comes before a missing description. -/
def permissions (usage : Dict) (entries : List Entry) : Except Violation (List Permission) :=
  match entries.find? fun e => e.rule = .forbidden with
  | some e => .error (.forbidden e.key)
  | none => (entries.mapM (permission usage)).map fun permissions => permissions.filterMap id

/-- Checks declared entitlements against the policy. -/
def check (entitlements usage : Dict) (requireSandbox : Bool) :
    Except CheckError (List Permission) :=
  if requireSandbox && !isSandboxed entitlements then
    .error (.violation (.sandboxRequired appSandbox))
  else
    match declaredKeys? entitlements with
    | none => .error .unorderedKeys
    | some keys => (permissions usage (known keys)).mapError .violation

end ReleaseSeal.Entitlement
