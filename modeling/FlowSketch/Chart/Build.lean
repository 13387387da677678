import FlowSketch.Chart.Layout
import FlowSketch.Program.Outline

/-!
# The flowchart of a tree

A tree is read as a structured program, which is then laid out. Trees that nest too deep have no
flowchart; malformed nodes are recorded on it.

* `Flowchart.ofProgram` — the flowchart of a structured program.
* `Flowchart.ofAst` — the flowchart of a tree.
* `Flowchart.build` — the same where there may be no tree.
-/

namespace FlowSketch.Flowchart

/-- The flowchart of a structured program. It starts at its first node. -/
def ofProgram (program : Stmt) (malformed : List Malformed) : Flowchart :=
  let (d, _) := program.lay {}
  { nodes := d.nodes
    edges := d.edges
    entry := d.nodes.head?.map (·.id)
    malformed }

/-- The flowchart of a tree whose nodes lie at most `limit` steps below its root. -/
def ofAst (limit : Int) (root : Ast) : Report Failure Flowchart :=
  let outlined := root.outline limit
  let malformed := outlined.events.filterMap Event.malformed?
  do
    let program ← outlined
    let chart := ofProgram program malformed
    Report.note (.chartBuilt chart.nodes.length chart.edges.length chart.malformed.length)
    return chart

/-- The flowchart of a tree that may be missing. Model of `GraphBuilder.build` on a new builder. -/
def build (limit : Int) : Option Ast → Report Failure Flowchart
  | some root => ofAst limit root
  | none => Report.fail .noTree

end FlowSketch.Flowchart
