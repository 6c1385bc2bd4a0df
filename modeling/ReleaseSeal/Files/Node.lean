import ReleaseSeal.Files.Path

/-!
# File trees

A file tree is a file with its bytes, or a directory with its files and directories by name. A path
is followed segment by segment: nothing can be followed behind a file, not even an empty segment.
-/

namespace ReleaseSeal.Files

/-- A file, or a directory with what is in it. -/
inductive Node where
  | file (bytes : ByteArray)
  | dir (children : List (String × Node))
deriving Inhabited

/-- Why a path leads to nothing that can be used. -/
inductive Error where
  | noSuchFile (path : String)
  | notDirectory (path : String)
  | isDirectory (path : String)
  | nameTooLong (path : String)
  | nullInPath
deriving DecidableEq, Repr

namespace Node

/-- A directory without content. -/
def empty : Node := .dir []

def isDir : Node → Bool
  | dir _ => true
  | file _ => false

@[simp] theorem isDir_dir (children : List (String × Node)) : (dir children).isDir = true := rfl

@[simp] theorem isDir_file (bytes : ByteArray) : (file bytes).isDir = false := rfl

/-- The child of a name, if the node is a directory that has it. -/
def child? (name : String) : Node → Option Node
  | dir children => children.lookup name
  | file _ => none

/-- Replaces the child of a name, or adds it. -/
def setChild (children : List (String × Node)) (name : String) (node : Node) :
    List (String × Node) :=
  match children with
  | [] => [(name, node)]
  | child :: rest => if child.1 = name then (name, node) :: rest else child :: setChild rest name node

/-- Puts a node at the end of a path; directories on the way are made. -/
def insert (node : Node) : (path : List String) → Node → Node
  | [], _ => node
  | name :: rest, tree =>
    let children := match tree with
      | dir children => children
      | file _ => []
    dir (setChild children name (insert node rest ((children.lookup name).getD empty)))

/-- A name has at most this many bytes. -/
def maxNameSize : Nat := 255

/-- Follows segments from a node; the directories above it are given, innermost first. The path is
the one that faults name. -/
def follow (path : String) : (above : List Node) → Node → List String → Except Error Node
  | _, node, [] => .ok node
  | _, file _, _ :: _ => .error (.notDirectory path)
  | above, dir children, segment :: rest =>
    if segment = "" || segment = "." then follow path above (dir children) rest
    else if segment = ".." then
      match above with
      | [] => follow path [] (dir children) rest
      | parent :: above => follow path above parent rest
    else if segment.utf8ByteSize > maxNameSize then .error (.nameTooLong path)
    else
      match children.lookup segment with
      | none => .error (.noSuchFile path)
      | some child => follow path (dir children :: above) child rest

end Node

end ReleaseSeal.Files
