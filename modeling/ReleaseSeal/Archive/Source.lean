import ReleaseSeal.Archive.Folder
import ReleaseSeal.Archive.Zip
import ReleaseSeal.Files.Volume

/-!
# Sources of archives

An archive is a zip file, or a directory that is listed as one. Either is opened by its path; its
entries can be listed, and read by their paths.
-/

namespace ReleaseSeal.Archive

open Files (Volume)

/-- An opened archive. A directory is known by its normal path on its volume. -/
inductive Source where
  | zip (z : Zip)
  | folder (volume : Volume) (root : String)

namespace Source

/-- Opens a zip file. -/
def openZip (v : Volume) (path : String) : Except Error Source :=
  match v.readFile path with
  | .ok bytes => (Zip.ofBytes path bytes).map zip
  | .error .nullInPath => .error .nullInPath
  | .error _ => .error (.cannotOpen path)

/-- Opens a directory. -/
def openFolder (v : Volume) (path : String) : Except Error Source :=
  if v.isDir path then .ok (folder v (v.absolute path)) else .error (.notDirectory path)

/-- Opens a directory as such, and anything else as a zip file. -/
def ofPath (v : Volume) (path : String) : Except Error Source :=
  if v.isDir path then openFolder v path else openZip v path

/-- Reads the file at a path below a directory. -/
def readFolder (v : Volume) (root path : String) : Except Error ByteArray :=
  (v.readFile ((Files.segmentsOf path).foldl Files.join root)).mapError fun e =>
    if e = .nullInPath then .nullInPath else .cannotRead path root

/-- Reads the entry of a path. -/
def read [Host] : Source → String → Except Error ByteArray
  | zip z, path => z.read path
  | folder v root, path => readFolder v root path

/-- The entries, those of a zip file in the order of its directory. -/
def entries [Host] : Source → Except Error (List Entry)
  | zip z => z.entries
  | folder v root =>
    match v.lookup root with
    | .ok node => (entriesBelow (readFolder v root) root "" 0 node).mapM id
    | .error _ => .ok []

end Source

end ReleaseSeal.Archive
