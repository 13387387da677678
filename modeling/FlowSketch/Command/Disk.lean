import FlowSketch.Command.Path

/-!
# Disks

Files and directories held in memory, with the faults that a real disk answers with.

* `Disk` — the files with their bytes, and the directories.
* `Disk.read`, `Disk.write`, `Disk.makeDirs` — what can be done with them.
-/

namespace FlowSketch

/-- The files and directories of a disk. The ancestors of what is listed are directories too. -/
structure Disk where
  files : List (Path × List UInt8) := []
  directories : List Path := []
  deriving DecidableEq, Repr

namespace Disk

/-- There is a file at the path. -/
def isFile (d : Disk) (p : Path) : Bool := (d.files.lookup p).isSome

/-- There is a directory at the path: it is listed, or something below it is. -/
def isDirectory (d : Disk) (p : Path) : Bool :=
  p.names.isEmpty ||
  d.directories.any (fun q => p.names.isPrefixOf q.names) ||
  d.files.any (fun (q, _) => q != p && p.names.isPrefixOf q.names)

/-- What is wrong with the way to a path, if anything: its first ancestor that is no directory is a
    file, or is not there. -/
def wayFault? (d : Disk) (p : Path) : Option FileFault :=
  (p.ancestors.find? (fun q => !d.isDirectory q)).map (fun q =>
    if d.isFile q then .notADirectory p else .notFound p)

/-- The bytes of a file. -/
def read (d : Disk) (p : Path) : Except FileFault (List UInt8) :=
  match d.wayFault? p, d.files.lookup p with
  | some fault, _ => .error fault
  | none, some bytes => .ok bytes
  | none, none => .error (if d.isDirectory p then .isADirectory p else .notFound p)

/-- The files with one of them replaced or added. -/
def put (p : Path) (bytes : List UInt8) : List (Path × List UInt8) → List (Path × List UInt8)
  | [] => [(p, bytes)]
  | (q, old) :: rest => if q = p then (p, bytes) :: rest else (q, old) :: put p bytes rest

/-- The disk with the bytes in a file, which is made or replaced. -/
def write (d : Disk) (p : Path) (bytes : List UInt8) : Except FileFault Disk :=
  match d.wayFault? p with
  | some fault => .error fault
  | none =>
    if d.isDirectory p then .error (.isADirectory p)
    else .ok { d with files := put p bytes d.files }

/-- The disk with a directory and all directories on the way to it. -/
def makeDirs (d : Disk) (p : Path) : Except FileFault Disk :=
  if p.ancestors.any d.isFile then .error (.notADirectory p)
  else if d.isFile p then .error (.alreadyExists p)
  else .ok { d with directories := d.directories ++ [p] }

end Disk

end FlowSketch
