import ReleaseSeal.Cli.Run

/-!
# The program

Reads what a command names from the disk, runs the command on it and prints what it leaves behind.
-/

namespace ReleaseSeal

open Files (Node Volume)

/-- Reads a file, or a directory with everything in it. -/
partial def readNode (e : IO.FS.DirEntry) : IO Node := do
  if ← e.path.isDir then
    let children ← (← e.path.readDir).toList.mapM fun child => do
      return (child.fileName, ← readNode child)
    return .dir children
  else return .file (← IO.FS.readBinFile e.path)

/-- The leading parts of a path, longest last. -/
def leadingPaths (path : String) : List String :=
  let segments := Files.segmentsOf path
  ((List.range segments.length).map fun n => "/".intercalate (segments.take (n + 1))).filter (· ≠ "")

/-- Adds the directory of a path to a volume, without what is in it, if the disk has it. -/
def addDirectory (cwd : IO.FS.DirEntry) (v : Volume) (path : String) : IO Volume := do
  let e : IO.FS.DirEntry := { root := cwd.path, fileName := path }
  if v.isDir path || !(← e.path.isDir) then return v else return v.insert path .empty

/-- Adds what a path leads to on the disk to a volume, and the directories on the way. -/
def addPath (cwd : IO.FS.DirEntry) (v : Volume) (path : String) : IO Volume := do
  let v ← (leadingPaths path).foldlM (addDirectory cwd) v
  let e : IO.FS.DirEntry := { root := cwd.path, fileName := path }
  if path ≠ "" && (← e.path.pathExists) then return v.insert path (← readNode e) else return v

/-- Prints what a program leaves behind. -/
def printOutcome : Except Failure Cli.Outcome → IO UInt32
  | .ok o => do
    IO.print o.output
    IO.eprint o.errors
    return UInt32.ofNat o.status
  | .error e => throw (IO.userError e.message)

/-- Runs a command on the disk. -/
def runOnDisk (c : Cli.Command) : IO UInt32 := do
  let cwd ← IO.currentDir
  let workingDirectory := Text.segments cwd.toString
  let empty : Volume := { root := Node.insert .empty workingDirectory .empty, workingDirectory }
  let v ← c.paths.foldlM (addPath { root := cwd, fileName := "." }) empty
  printOutcome (c.run v)

end ReleaseSeal

/-- Runs a command line. -/
def main (args : List String) : IO UInt32 := do
  match ReleaseSeal.Cli.Command.parse args with
  | .error stop => ReleaseSeal.printOutcome (ReleaseSeal.Cli.Outcome.ofStop stop)
  | .ok c => ReleaseSeal.runOnDisk c
