import FlowSketch.Command.Arguments
import FlowSketch.Command.Console
import FlowSketch.Command.Path
import FlowSketch.Command.Table
import FlowSketch.Cst.Record
import FlowSketch.Json.Printer
import FlowSketch.Service

/-!
# Running a command

What the program does for a command line, on whatever host it runs: a host reads and writes files,
knows the grammar, and shows lines and events.

* `Host` — what a command needs of its surroundings.
* `Command.run` — a command line carried out, with the status that it ends with.
-/

namespace FlowSketch

/-- What a command needs of its surroundings. -/
structure Host (m : Type → Type) where
  /-- The directory that stands for a tilde. -/
  home : Path
  /-- The directory in which paths begin. -/
  working : Path
  read : Path → m (Except FileFault (List UInt8))
  write : Path → List UInt8 → m (Except FileFault Unit)
  makeDirs : Path → m (Except FileFault Unit)
  /-- The concrete tree of a source text that was read from a file. -/
  grammar : Path → String → m (Except FileFault Cst)
  /-- Show a line, or several. -/
  print : String → m Unit
  /-- Record an event. -/
  record : Event → m Unit

/-- The path that a text means on a host. -/
def Host.resolve {m : Type → Type} (host : Host m) (text : String) : Path :=
  Path.resolve host.home host.working text

namespace Command

/-! ## Files -/

/-- A text with a line feed for every carriage return, and for one together with a line feed. -/
def plainLines : List Char → List Char
  | [] => []
  | '\r' :: '\n' :: rest => '\n' :: plainLines rest
  | '\r' :: rest => '\n' :: plainLines rest
  | c :: rest => c :: plainLines rest

/-- The text of a file. -/
def textOf (bytes : List UInt8) : String := String.ofList (plainLines (Utf8.decode bytes).toList)

/-! ## What is shown -/

/-- The line that tells an error. -/
def errorLine (message : String) (failure? : Option Failure) : String :=
  let details := (failure?.map Failure.message).getD ""
  "Error: " ++ message ++ ": " ++ Console.untagged details

/-- The line for a malformed node. -/
def malformedLine (m : Malformed) : String :=
  "  Malformed " ++ m.kind.name ++ " (line " ++ toString m.line ++ "): " ++ m.message

/-- The rows of the table of figures. -/
def figures (m : Metrics) : List (String × String) := [
  ("totalLines", toString m.lines),
  ("functionCount", toString m.functions),
  ("loopCount", toString m.loops),
  ("nestedLoopCount", toString m.nested),
  ("recursionCount", toString m.recursion),
  ("conditionalCount", toString m.conditionals),
  ("complexity", m.complexity.label),
  ("complexityNotation", m.complexity.growth),
  ("score", toString m.score)]

/-- The lines that tell the figures of a file: a table, the remarks, and the score. -/
def figureLines (fileName : String) (m : Metrics) : List String :=
  Table.render ("Metrics: " ++ Console.untagged fileName) ("Metric", "Value") (figures m) ++
    m.insights.map (fun i => "  " ++ i.severity.name ++ ": " ++ i.message) ++
    ["", "Score: " ++ toString m.score ++ "/100  Complexity: " ++ m.complexity.label]

/-! ## Running -/

section

variable {m : Type → Type} [Monad m]

/-- Show some lines. -/
def printAll (host : Host m) (lines : List String) : m Unit :=
  lines.forM (fun line => host.print (Console.shown line ++ "\n"))

/-- Record the events that matter: warnings and errors, and the others on demand. -/
def recordAll (host : Host m) (verbose : Bool) (events : List Event) : m Unit :=
  (events.filter (fun e => verbose || e.level != .debug)).forM host.record

/-- The text of a file with its concrete tree. A blank text needs no tree. Model of `_read_source`,
    with the tree beside the text. -/
def readSource (host : Host m) (file : Path) : ExceptT FileFault m (String × Cst) := do
  let bytes ← ExceptT.mk (host.read file)
  let source := textOf bytes
  if Text.blankOnly source then return (source, Cst.ofMembers [] [])
  let tree ← ExceptT.mk (host.grammar file source)
  return (source, tree)

/-- Write the Mermaid text of a flowchart to a file, and tell where it is. -/
def writeMermaid (host : Host m) (out : Path) (mermaid : String) : ExceptT FileFault m Unit := do
  ExceptT.mk (host.makeDirs out.parent)
  ExceptT.mk (host.write out (Utf8.encode mermaid))
  ExceptT.lift (printAll host ["Wrote Mermaid flowchart to " ++ Console.untagged out.text])

/-- Draw the flowchart of a file. Model of `_run_flowchart`. -/
def runFlowchart (host : Host m) (settings : Settings) (verbose : Bool) (file : Path)
    (out : Option Path) (json : Bool) : ExceptT FileFault m Nat := do
  let (source, tree) ← readSource host file
  let report := generate (fun _ => tree) settings (some source)
  ExceptT.lift (recordAll host verbose report.events)
  match report.outcome with
  | .ok (.drawn chart mermaid) =>
    let shown := if json then [chart.toJson.indented] else if out.isNone then [mermaid] else []
    ExceptT.lift (printAll host shown)
    match out with
    | some out => writeMermaid host out mermaid
    | none => pure ()
    ExceptT.lift (printAll host (chart.malformed.map malformedLine))
    return 0
  | .ok reply =>
    ExceptT.lift (printAll host [errorLine reply.message reply.failure?])
    return 1
  | .error _ => return 1

/-- Tell the figures of a file. Model of `_run_analyze`. -/
def runAnalyze (host : Host m) (settings : Settings) (verbose : Bool) (file : Path)
    (json : Bool) : ExceptT FileFault m Nat := do
  let (source, tree) ← readSource host file
  let report := analyze (fun _ => tree) settings (some source)
  ExceptT.lift (recordAll host verbose report.events)
  match report.outcome with
  | .ok (.done figures) =>
    ExceptT.lift (printAll host
      (if json then [figures.report.indented] else figureLines file.name figures))
    return 0
  | .ok reply =>
    ExceptT.lift (printAll host [errorLine reply.message reply.failure?])
    return 1
  | .error _ => return 1

/-- Carry out a task. -/
def runTask (host : Host m) (settings : Settings) : Invocation → ExceptT FileFault m Nat
  | ⟨verbose, .flowchart file out json⟩ =>
    runFlowchart host settings verbose (host.resolve file) (out.map host.resolve) json
  | ⟨verbose, .analyze file json⟩ =>
    runAnalyze host settings verbose (host.resolve file) json

/-- Carry out a command line. A mistake in it ends with status 2, a fault of a file with 1. Model of
    `main`. -/
def run (host : Host m) (settings : Settings) (args : List String) : m Nat := do
  match Invocation.read args with
  | .error .help => return 0
  | .error .misuse => return 2
  | .ok invocation =>
    match ← (runTask host settings invocation).run with
    | .ok status => return status
    | .error fault =>
      printAll host ["", "Error: " ++ Console.untagged fault.message]
      return 1

end

end Command

end FlowSketch
