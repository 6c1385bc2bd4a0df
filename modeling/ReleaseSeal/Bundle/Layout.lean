import ReleaseSeal.Archive.Entry
import ReleaseSeal.Bundle.Root
import ReleaseSeal.Failure
import ReleaseSeal.Plist.Decode

/-!
# The layout of a bundle

Where a bundle keeps its information and its main executable: in one layout below a directory of
contents, in the other, packaged one, right below its root. The information is a property list; if it
cannot be decoded, or is not a dictionary, the bundle has none.
-/

namespace ReleaseSeal.Bundle

open Archive (Entry)

/-- What is known of a bundle: the path of its main executable, and its information. -/
structure Layout where
  executable : Option String
  info : Option Plist.Dict

/-- Where the information of a bundle may be. -/
def infoPaths (root : String) : List String :=
  [root ++ "/Contents/Info.plist", packagingDirectory ++ "/" ++ root ++ "/Info.plist"]

/-- Where the main executable of a bundle may be. -/
def executablePaths (root name : String) : List String :=
  [root ++ "/Contents/MacOS/" ++ name, packagingDirectory ++ "/" ++ root ++ "/" ++ name]

/-- The property of the information that names the main executable. -/
def executableKey : String := "CFBundleExecutable"

/-- The entry of a path; of several the last one counts. -/
def entryAt? (entries : List Entry) (path : String) : Option Entry :=
  entries.reverse.find? fun e => e.path == path

/-- The information in a payload. -/
def decodeInfo [Host] (payload : ByteArray) : Except Failure (Option Plist.Dict) :=
  match Plist.decode payload with
  | .ok (.dict pairs) => .ok (some pairs)
  | .ok _ | .error .malformed => .ok none
  | .error (.fault fault) => .error (.faultyInformation fault)

/-- The information in an entry. -/
def readInfo [Host] (e : Entry) : Except Failure (Option Plist.Dict) :=
  match e.read with
  | .ok payload => decodeInfo payload
  | .error fault => if fault.isBadValue then .ok none else .error (.archive fault)

/-- The entry with the information of a bundle: the first that stands where it may be. -/
def entryOfInfo? (entries : List Entry) (root : String) : Option Entry :=
  (infoPaths root).findSome? (entryAt? entries)

/-- The information of a bundle. -/
def findInfo [Host] (entries : List Entry) (root : String) : Except Failure (Option Plist.Dict) :=
  match entryOfInfo? entries root with
  | none => .ok none
  | some e => readInfo e

/-- The name of a bundle: its root without as many characters as its suffix has. -/
def bundleName (root suffix : String) : String :=
  String.ofList (root.toList.take (root.toList.length - suffix.toList.length))

/-- The names that the main executable may have: the one in the information, and the bundle's. -/
def executableNames (info : Option Plist.Dict) (root suffix : String) : List String :=
  match info.bind fun pairs => Plist.Dict.getText? pairs executableKey with
  | some (.text name) => [name, bundleName root suffix]
  | _ => [bundleName root suffix]

/-- Finds the main executable of a bundle and its information. -/
def Layout.find [Host] (entries : List Entry) (root suffix : String) : Except Failure Layout := do
  let info ← findInfo entries root
  let paths := (executableNames info root suffix).flatMap (executablePaths root)
  return { executable := paths.find? fun path => (entryAt? entries path).isSome, info }

end ReleaseSeal.Bundle
