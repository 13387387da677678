import FlowSketch.Command.Disk
import FlowSketch.Command.Run

/-!
# Running in memory

A host without a world around it: files are on a disk in memory, and what is shown is kept.

* `Memory` — the disk, what has been shown, and the events recorded.
* `Memory.host` — the host, for a grammar given as a function.
-/

namespace FlowSketch

/-- What a run in memory leaves behind. -/
structure Memory where
  disk : Disk
  shown : String := ""
  events : List Event := []

namespace Memory

/-- A change of the disk, which a fault leaves as it was. -/
def change (f : Disk → Except FileFault Disk) : StateM Memory (Except FileFault Unit) := do
  let memory ← get
  match f memory.disk with
  | .ok disk =>
    set { memory with disk }
    return .ok ()
  | .error fault => return .error fault

/-- The host in memory, with a working directory and a grammar. -/
def host (working : Path) (grammar : String → Cst) : Host (StateM Memory) where
  home := {}
  working
  read p := do return (← get).disk.read p
  write p bytes := change (fun disk => disk.write p bytes)
  makeDirs p := change (fun disk => disk.makeDirs p)
  grammar _ source := return .ok (grammar source)
  print text := modify (fun memory => { memory with shown := memory.shown ++ text })
  record event := modify (fun memory => { memory with events := memory.events ++ [event] })

end Memory

end FlowSketch
