import ReleaseSeal.Files.Node
import ReleaseSeal.Text.Quoted

/-!
# Volumes

A volume is a file tree with a working directory in it, from which relative paths are followed.
-/

namespace ReleaseSeal.Files

/-- The wording of a fault of a path. -/
def Error.message : Error → String
  | noSuchFile path => "[Errno 2] No such file or directory: " ++ Text.quoted path
  | notDirectory path => "[Errno 20] Not a directory: " ++ Text.quoted path
  | isDirectory path => "[Errno 21] Is a directory: " ++ Text.quoted path
  | nameTooLong path => "[Errno 36] File name too long: " ++ Text.quoted path
  | nullInPath => "listdir: embedded null character in path"

/-- A file tree and the segments of its working directory. -/
structure Volume where
  root : Node
  workingDirectory : List String

namespace Volume

/-- The normal form of a path. -/
def absolute (v : Volume) (path : String) : String :=
  Files.absolute v.workingDirectory path

/-- What a path leads to; the empty path leads nowhere, and a null character stands in no path. -/
def lookup (v : Volume) (path : String) : Except Error Node :=
  if path = "" then .error (.noSuchFile path)
  else if path.toList.contains '\x00' then .error .nullInPath
  else if !fits path then .error (.nameTooLong path)
  else
    let above := if isAbsolute path then [] else v.workingDirectory
    Node.follow path [] v.root (above ++ segmentsOf path)

/-- The path leads to a directory. -/
def isDir (v : Volume) (path : String) : Bool :=
  match v.lookup path with
  | .ok node => node.isDir
  | .error _ => false

/-- The bytes of the file that a path leads to. -/
def readFile (v : Volume) (path : String) : Except Error ByteArray := do
  match ← v.lookup path with
  | .file bytes => return bytes
  | .dir _ => throw (.isDirectory path)

/-- What is in the directory that a path leads to. -/
def children (v : Volume) (path : String) : Except Error (List (String × Node)) := do
  match ← v.lookup path with
  | .file _ => throw (.notDirectory path)
  | .dir children => return children

/-- Puts a node at a path; directories on the way are made. -/
def insert (v : Volume) (path : String) (node : Node) : Volume :=
  let above := if isAbsolute path then [] else v.workingDirectory
  { v with root := Node.insert node (normalizeOnto [] (above ++ segmentsOf path)) v.root }

end Volume

end ReleaseSeal.Files
