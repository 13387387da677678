import FlowSketch.Command.Run
import FlowSketch.Json.Reader

/-!
# The program

The command line on a real host. Files are those of the file system, and the concrete tree of a
source file is read from the file beside it that has `.cst.json` added to its name.

* `Program.host` — the host of a process.
* `main` — the command line of the process carried out.
-/

namespace FlowSketch.Program

/-- The fault that a failed access to a path comes from. -/
def faultOf (p : Path) : IO.Error → FileFault
  | .alreadyExists .. => .alreadyExists p
  | .permissionDenied .. => .denied p
  | .inappropriateType _ code _ => if code = 20 then .notADirectory p else .isADirectory p
  | _ => .notFound p

/-- An access to a path, with its fault as a result. -/
def attempt {α : Type} (p : Path) (access : IO α) : IO (Except FileFault α) := do
  try
    return .ok (← access)
  catch e =>
    return .error (faultOf p e)

/-- The file that holds the concrete tree of a source file. -/
def treeFile (p : Path) : Path := ⟨p.parent.names ++ [p.name ++ ".cst.json"]⟩

/-- The concrete tree of a source file. -/
def readTree (p : Path) : IO (Except FileFault Cst) := do
  let read ← attempt (treeFile p) (IO.FS.readFile (treeFile p).text)
  return read.map (fun text => Cst.ofJson ((Json.read? text).getD .null))

/-- The host of a process. -/
def host (home working : Path) : Host IO where
  home
  working
  read p := attempt p do return (← IO.FS.readBinFile p.text).toList
  write p bytes := attempt p (IO.FS.writeBinFile p.text ⟨bytes.toArray⟩)
  makeDirs p := attempt p (IO.FS.createDirAll p.text)
  grammar p _ := readTree p
  print := IO.print
  record event := IO.eprintln (event.level.name ++ " " ++ event.message)

/-- The settings of the process. -/
def settings : IO (Except Settings.BadInteger Settings) := do
  let keys := [Settings.labelLimitKey, Settings.directionKey, Settings.depthLimitKey]
  let values ← keys.mapM (fun key => do return (key, ← IO.getEnv key))
  return Settings.ofEnvironment (fun key => (values.lookup key).join)

end FlowSketch.Program

open FlowSketch in
/-- Carry out the command line of the process. -/
def main (args : List String) : IO UInt32 := do
  match ← Program.settings with
  | .error bad =>
    IO.eprintln (bad.key ++ " is not an integer")
    return 1
  | .ok settings =>
    let working := Path.resolve {} {} (← IO.currentDir).toString
    let home := Path.resolve {} working ((← IO.getEnv "HOME").getD "/")
    let status ← Command.run (Program.host home working) settings args
    return status.toUInt32
