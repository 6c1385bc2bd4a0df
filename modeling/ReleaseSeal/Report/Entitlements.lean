import ReleaseSeal.Entitlement.Policy
import ReleaseSeal.MachO.File
import ReleaseSeal.Report.Json
import ReleaseSeal.Report.Text

/-!
# Reports on entitlements

What is known of a binary: general information, the entitlements of its slices and, in the text, the
declared entitlements by category of risk.
-/

namespace ReleaseSeal.Report

open MachO (File)
open Plist (Value)

/-- The entitlements of a slice as a value. -/
def sliceValue (e : Entitlements) : Value :=
  .dict
    [(.text "arch", (e.arch.map Value.text).getD .null),
     (.text "values", .dict e.values)]

/-- What a report on a binary tells, as a value. -/
def entitlementsValue (f : File) (slices : List Entitlements) : Value :=
  .dict
    [(.text "general_info", .dict f.info),
     (.text "entitlements", .array (slices.map sliceValue))]

/-- The report on a binary as JSON. -/
def entitlementsJson [Host] (f : File) (slices : List Entitlements) : Except Failure String := do
  return (← ofValue [] (entitlementsValue f slices)).write style ++ "\n"

/-- The section of a slice. -/
def sliceSection [Host] (e : Entitlements) : Draft :=
  dictSection ("Entitlements - " ++ e.arch.getD "None") e.values

/-- The sections of the slices. -/
def sliceSections [Host] (slices : List Entitlements) : Draft :=
  match slices with
  | [] => .finished (titled "Entitlements" ["No entitlements found"])
  | slices => .join (slices.map sliceSection)

/-- The sections of the categories that the declared entitlements fall under. -/
def categorySections (slices : List Entitlements) : Except Failure String :=
  match Entitlement.declaredKeys? (Entitlements.merge slices).values with
  | none => .error .unorderedKeys
  | some keys =>
    .ok (String.join ((Entitlement.byCategory keys).map fun (category, keys) =>
      titled ("Category - " ++ category.name) keys))

/-- The report on a binary as text. -/
def entitlementsText [Host] (f : File) (slices : List Entitlements) : Draft :=
  .join
    [dictSection "General File Info" f.info, sliceSections slices,
     .ofExcept (categorySections slices)]

end ReleaseSeal.Report
