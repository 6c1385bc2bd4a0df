import ReleaseSeal.Text.Split

/-!
# Paths

A path is a text whose segments stand between slashes; it is absolute if it starts with one. An
absolute path is normal if it has no empty segments, no `.` and no `..`. It starts with one slash, or
with two if it was given with exactly two.
-/

namespace ReleaseSeal.Files

/-- Resolves the segments of an absolute path by their spelling alone; those in front are in reverse
order. -/
def normalizeOnto : (above : List String) → List String → List String
  | above, [] => above.reverse
  | above, segment :: rest =>
    if segment = "" || segment = "." then normalizeOnto above rest
    else if segment = ".." then normalizeOnto (above.drop 1) rest
    else normalizeOnto (segment :: above) rest

/-- The segments of a path, the empty ones too. -/
def segmentsOf (path : String) : List String :=
  (Text.splitOn '/' path.toList).map String.ofList

/-- The path starts at the root. -/
def isAbsolute (path : String) : Bool :=
  path.toList.head? == some '/'

/-- How many slashes the normal form of a path starts with. -/
def leadingSlashes (path : String) : Nat :=
  if (path.toList.takeWhile (· = '/')).length = 2 then 2 else 1

/-- The normal form of a path that is taken from a directory of given segments. -/
def absolute (directory : List String) (path : String) : String :=
  let above := if isAbsolute path then [] else directory
  String.ofList (List.replicate (leadingSlashes path) '/') ++
    "/".intercalate (normalizeOnto [] (above ++ segmentsOf path))

/-- A path has fewer bytes than this. -/
def pathLimit : Nat := 4096

/-- A path is short enough to be one. -/
def fits (path : String) : Bool :=
  decide (path.utf8ByteSize < pathLimit)

/-- The path of a name in a directory. An absolute one replaces the directory. -/
def join (directory name : String) : String :=
  if isAbsolute name then name
  else if directory = "" || directory.toList.getLast? = some '/' then directory ++ name
  else directory ++ "/" ++ name

/-- The last segment of a path. -/
def baseName (path : String) : String :=
  String.ofList (Text.afterLast '/' path.toList)

end ReleaseSeal.Files
