import ReleaseSeal.Failure
import ReleaseSeal.Seal.Sha256

/-!
# Release assets

The files that are published beside an artifact. They are collected from directories, in their order
and then by name; of several files with one name the first counts. The artifact itself is one of
them: it is always described from the artifact that was compared, not from a collected copy, and it
stands in front if no copy was collected.
-/

namespace ReleaseSeal.Seal

open Files (Node Volume)

/-- A published file. -/
structure Asset where
  url : String
  size : Nat
  digest : String
deriving DecidableEq, Repr

/-- Describes a file that is published at a URL. -/
def Asset.ofBytes (url : String) (bytes : ByteArray) : Asset :=
  { url, size := bytes.size, digest := Sha256.hexDigest bytes }

/-- The name of the file that a URL leads to. -/
def urlName (url : String) : String :=
  String.ofList (Text.afterLast '/' url.toList)

/-- The URL of a file beside another. -/
def siblingUrl (url name : String) : String :=
  let base := String.ofList (Text.beforeLast '/' url.toList)
  if base = "" then name else base ++ "/" ++ name

/-- The files of a directory with their names, in order. -/
def filesOf (children : List (String × Node)) : List (String × ByteArray) :=
  let files := children.filterMap fun child =>
    match child with
    | (name, .file bytes) => some (name, bytes)
    | (_, .dir _) => none
  files.mergeSort fun a b => !decide (b.1 < a.1)

/-- The files with their names, each name once. -/
def firstOfEach : (seen : List String) → List (String × ByteArray) → List (String × ByteArray)
  | _, [] => []
  | seen, file :: rest =>
    if seen.contains file.1 then firstOfEach seen rest
    else file :: firstOfEach (file.1 :: seen) rest

/-- The files of some directories in order, with the artifact in place of the copies of it. The
artifact must be readable if there is one. -/
def collect (v : Volume) (name : String) (artifact : Except Failure ByteArray) :
    (directories : List String) → Except Failure (List (String × ByteArray))
  | [] => .ok []
  | directory :: rest => do
    let children ← (v.children directory).mapError .file
    -- A file that is in the directory, but under too long a path, is none that can be published.
    let reachable := (filesOf children).filter fun file => Files.fits (Files.join directory file.1)
    let files ← reachable.mapM fun file =>
      if file.1 = name then artifact.map (file.1, ·) else .ok file
    return files ++ (← collect v name artifact rest)

/-- Describes the files of some directories beside the artifact of a path. -/
def stage (v : Volume) (url : String) (directories : List String) (path : String) :
    Except Failure (List Asset) := do
  let artifact := (v.readFile path).mapError Failure.file
  let files := firstOfEach [] (← collect v (urlName url) artifact directories)
  let assets := files.map fun file => Asset.ofBytes (siblingUrl url file.1) file.2
  if files.any fun file => file.1 == urlName url then return assets
  else return Asset.ofBytes url (← artifact) :: assets

end ReleaseSeal.Seal
