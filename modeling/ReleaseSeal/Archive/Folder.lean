import ReleaseSeal.Archive.Crc32
import ReleaseSeal.Archive.Entry
import ReleaseSeal.Files.Node
import ReleaseSeal.Files.Path
import ReleaseSeal.Host

/-!
# The entries of a directory tree

A directory is listed as an archive: its own entry, unless it is the root; then its files by name;
then its directories by name, each with everything below it. The path of a directory ends with a
slash. What lies too deep has no entries: a file of too long a path, and directories that nest deeper
than the call stack, end the listing, while a directory of too long a path is passed over.
-/

namespace ReleaseSeal.Archive

open Files (Node)

/-- Things by name, in the order of the names. -/
def inNameOrder {α : Type} (items : List (String × α)) : List (String × α) :=
  items.mergeSort fun a b => !decide (b.1 < a.1)

namespace Entry

/-- The entry of a directory. -/
def ofDir (path : String) : Entry :=
  { path, size := 0, checksum := 0, isDir := true, payload := none }

/-- The entry of a file, whose payload is fetched by its path. -/
def ofFile (fetch : String → Except Error ByteArray) (path : String) (bytes : ByteArray) : Entry :=
  { path, size := bytes.size, checksum := (crc32 bytes).toNat, isDir := false,
    payload := some (Thunk.mk fun _ => fetch path) }

end Entry

/-- The entries of the files among the children of a directory, with its location on the volume and its
path in the archive. A file whose own location is too long has none, and ends the listing. -/
def fileEntries (fetch : String → Except Error ByteArray) (location path : String)
    (children : List (String × Node)) : List (Except Error Entry) :=
  let files := children.filterMap fun child =>
    match child with
    | (name, .file bytes) => some (name, bytes)
    | (_, .dir _) => none
  (inNameOrder files).map fun file =>
    let place := Files.join location file.1
    if Files.fits place then .ok (Entry.ofFile fetch (path ++ file.1) file.2)
    else .error (.pathTooLong place)

mutual

/-- The entries below a directory that is `depth` levels below the listed one, and the faults that end
the listing, each in its place. The path in the archive is empty or ends with a slash. -/
def entriesBelow [Host] (fetch : String → Except Error ByteArray) (location path : String)
    (depth : Nat) : Node → List (Except Error Entry)
  | .file _ => []
  | .dir children =>
    fileEntries fetch location path children ++
      if children.any (·.2.isDir) && !Host.roomToDescend depth then [.error .tooDeep]
      else (inNameOrder (subtrees fetch location path (depth + 1) children)).flatMap (·.2)

/-- The directories among the children of a directory that can be opened, each with its entries. -/
def subtrees [Host] (fetch : String → Except Error ByteArray) (location path : String)
    (depth : Nat) : List (String × Node) → List (String × List (Except Error Entry))
  | [] => []
  | child :: rest =>
    subtree fetch location path depth child ++ subtrees fetch location path depth rest

/-- A child with its entries if it is a directory. One whose location is too long cannot be opened and
is passed over, with everything below it. -/
def subtree [Host] (fetch : String → Except Error ByteArray) (location path : String)
    (depth : Nat) : String × Node → List (String × List (Except Error Entry))
  | (_, .file _) => []
  | (name, .dir children) =>
    let location := Files.join location name
    let path := path ++ name ++ "/"
    if Files.fits location then
      [(name,
        .ok (Entry.ofDir path) :: entriesBelow fetch location path depth (.dir children))]
    else []

end

end ReleaseSeal.Archive
