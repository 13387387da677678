import FlowSketch.Json
import FlowSketch.Failure

/-!
# Flowcharts

Labelled graphs of control flow, nodes and edges in the order in which they were made.

* `Flowchart.node?`, `Flowchart.outEdges`, `Flowchart.inEdges` — what belongs to a node.
* `Flowchart.toJson` — the record of a flowchart.
-/

namespace FlowSketch

/-- The kinds of flowchart nodes. Model of `FlowNodeKind`. -/
inductive FlowKind where
  | function
  | branch
  | forLoop
  | whileLoop
  | returns
  | declaration
  | call
  | operation
  | other
  deriving DecidableEq, Repr

namespace FlowKind

/-- The name of a kind in records. -/
def name : FlowKind → String
  | function => "function"
  | branch => "if"
  | forLoop => "for"
  | whileLoop => "while"
  | returns => "return"
  | declaration => "declaration"
  | call => "call"
  | operation => "operation"
  | other => "other"

/-- Every kind. -/
def all : List FlowKind :=
  [function, branch, forLoop, whileLoop, returns, declaration, call, operation, other]

/-- The kind of that name. -/
def ofName? (s : String) : Option FlowKind := all.find? (fun kind => kind.name == s)

/-- The header of a loop. -/
def isLoop : FlowKind → Bool
  | forLoop | whileLoop => true
  | _ => false

end FlowKind

/-- Why control goes along an edge. Model of `EdgeLabel`. -/
inductive EdgeLabel where
  /-- One thing after the other. -/
  | next
  /-- The condition held. -/
  | yes
  /-- The condition failed, or the loop is over. -/
  | no
  /-- From the header of a loop into its body. -/
  | body
  /-- Back to the header of a loop. -/
  | loop
  deriving DecidableEq, Repr

namespace EdgeLabel

/-- The name of a label in records. -/
def name : EdgeLabel → String
  | next => "next"
  | yes => "true"
  | no => "false"
  | body => "body"
  | loop => "loop"

/-- Every label. -/
def all : List EdgeLabel := [next, yes, no, body, loop]

/-- The label of that name. -/
def ofName? (s : String) : Option EdgeLabel := all.find? (fun label => label.name == s)

end EdgeLabel

/-- A node of a flowchart. Model of `FlowNode`. -/
structure FlowNode where
  id : Int
  kind : FlowKind
  label : String
  deriving DecidableEq, Repr

/-- An edge of a flowchart. Model of `FlowEdge`. -/
structure FlowEdge where
  source : Int
  target : Int
  label : EdgeLabel
  deriving DecidableEq, Repr

/-- A flowchart: its nodes and edges, the node where it starts if it has any, and the malformed
    syntax nodes met on the way. Model of `Flowchart`. -/
structure Flowchart where
  nodes : List FlowNode
  edges : List FlowEdge
  entry : Option Int
  malformed : List Malformed := []
  deriving DecidableEq, Repr

namespace Flowchart

/-- The node of that id. Model of `Flowchart.node`. -/
def node? (chart : Flowchart) (id : Int) : Option FlowNode :=
  chart.nodes.find? (fun n => n.id == id)

/-- The edges that leave a node. Model of `Flowchart.out_edges`. -/
def outEdges (chart : Flowchart) (id : Int) : List FlowEdge :=
  chart.edges.filter (fun e => e.source == id)

/-- The edges that enter a node. Model of `Flowchart.in_edges`. -/
def inEdges (chart : Flowchart) (id : Int) : List FlowEdge :=
  chart.edges.filter (fun e => e.target == id)

end Flowchart

/-! ## Records -/

/-- The record of an edge. -/
def FlowEdge.toJson (e : FlowEdge) : Json :=
  .object [("from", .integer e.source), ("to", .integer e.target), ("label", .string e.label.name)]

/-- The record of a node. -/
def FlowNode.toJson (n : FlowNode) : Json :=
  .object [("id", .integer n.id), ("kind", .string n.kind.name), ("label", .string n.label)]

/-- The record of a malformed node. Model of `MalformedNode.to_dict`. -/
def Malformed.toJson (m : Malformed) : Json :=
  .object [
    ("kind", .string "MalformedNode"),
    ("nodeKind", .string m.kind.name),
    ("text", .string m.text),
    ("message", .string m.message),
    ("line", .integer m.line)]

/-- The record of a flowchart. Model of `Flowchart.to_dict`. -/
def Flowchart.toJson (chart : Flowchart) : Json :=
  .object [
    ("entry", (chart.entry.map .integer).getD .null),
    ("nodes", .array (chart.nodes.map FlowNode.toJson)),
    ("edges", .array (chart.edges.map FlowEdge.toJson)),
    ("diagnostics", .array (chart.malformed.map Malformed.toJson))]

end FlowSketch
