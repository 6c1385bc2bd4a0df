import ReleaseSeal.Text.Split

/-!
# The root of a bundle

An archive holds one bundle: all its paths start with the same segment, where a leading packaging
directory does not count.
-/

namespace ReleaseSeal.Bundle

/-- The suffix of bundles that applications have. -/
def appSuffix : String := ".app"

/-- The directory that bundles may be packaged in. -/
def packagingDirectory : String := "Payload"

/-- The first segment of a path, not counting the packaging directory in front. -/
def rootOf? (path : String) : Option String :=
  match Text.segments path with
  | [] => none
  | first :: rest => if first = packagingDirectory then rest.head? else some first

/-- Texts in order, each once. -/
def inOrder (names : List String) : List String :=
  names.eraseDups.mergeSort fun a b => !decide (b < a)

/-- The roots that paths have, in order. -/
def roots (paths : List String) : List String :=
  inOrder (paths.filterMap rootOf?)

/-- The only root that paths have, if there is just one and it has the suffix. -/
def root? (suffix : String) (paths : List String) : Option String :=
  match roots paths with
  | [root] => if Text.endsWith root suffix then some root else none
  | _ => none

end ReleaseSeal.Bundle
