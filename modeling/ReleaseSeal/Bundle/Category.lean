import ReleaseSeal.Text.Split

/-!
# Files that differ between equal builds

Some compiled resources differ between two builds of the same source. They are known by their paths:
by the name of the file, or by the name of a directory above it.
-/

namespace ReleaseSeal.Bundle

/-- The kinds of files that differ between equal builds. -/
inductive Category where
  | assetCatalog
  | nib
  | storyboard
  | codeSignature
deriving DecidableEq, Repr

namespace Category

/-- The name of a category in reports. -/
def name : Category → String
  | assetCatalog => "asset-catalog"
  | nib => "nib"
  | storyboard => "storyboard"
  | codeSignature => "code-signature"

/-- The directory of a bundle that holds its signature. -/
def signatureDirectory : String := "_CodeSignature"

/-- The files that a signature consists of. -/
def signatureFiles : List String :=
  ["CodeResources", "CodeDirectory", "CodeRequirements", "CodeRequirements-1", "CodeSignature"]

/-- The category of the file of a name in directories of given names. -/
def ofName? (above : List String) (name : String) : Option Category :=
  if name = "Assets.car" then some assetCatalog
  else if Text.endsWith name ".nib" then some nib
  else if above.any fun directory => Text.endsWith directory ".storyboardc" then some storyboard
  else if above.contains signatureDirectory || signatureFiles.contains name then some codeSignature
  else none

/-- The category of the file of a path, whose empty segments do not count. -/
def ofPath? (path : String) : Option Category :=
  match (Text.segments path).reverse with
  | [] => none
  | name :: above => ofName? above name

end Category

end ReleaseSeal.Bundle
