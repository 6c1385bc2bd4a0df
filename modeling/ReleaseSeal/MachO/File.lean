import ReleaseSeal.Failure
import ReleaseSeal.MachO.Image

/-!
# Inspected files

A binary that is inspected, with the path of its file if it comes from one, and what is generally
known of it.
-/

namespace ReleaseSeal.MachO

open Files (Volume)

/-- A binary and the normal path of its file. -/
structure File where
  path : Option String
  image : Image

namespace File

/-- A binary that does not come from a file. -/
def ofBytes (bytes : ByteArray) : Except Failure File := do
  let image ← (Image.ofBytes bytes).mapError .binary
  return { path := none, image }

/-- Opens the binary in the file of a path. -/
def ofPath (v : Volume) (path : String) : Except Failure File :=
  let path' := v.absolute path
  if path = "" then .error .emptyPath
  else
    match v.lookup path' with
    | .error _ => .error (.missingFile path')
    | .ok (.dir _) => .error (.file (.isDirectory path'))
    | .ok (.file bytes) => do
      let image ← (Image.ofBytes bytes).mapError .binary
      return { path := some path', image }

/-- What is generally known of a file. -/
def info (f : File) : Plist.Dict :=
  [(.text "file_name", ((f.path.map Files.baseName).map Plist.Value.text).getD .null),
   (.text "file_size", .int f.image.bytes.size),
   (.text "format", .text f.image.format),
   (.text "architectures", .array (f.image.architectures.map Plist.Value.text))]

/-- The entitlements of the slices that have some. -/
def entitlements [Host] (f : File) : Except Failure (List Entitlements) :=
  f.image.entitlements.mapError .binary

end File

end ReleaseSeal.MachO
