import FlowSketch.Chart
import FlowSketch.Program

/-!
# Laying out a structured program

The flowchart of a structured program, grown statement by statement. A statement becomes a
fragment: the node where control enters it, if it has any, and its open exits, which are edges
that still lack a target.

* `Draft` — the nodes and edges so far; `addNode`, `addEdge`, `connect` add to them.
* `Fragment` — the entry and the open exits of a statement.
* `Stmt.lay` — a statement laid out at the end of a draft.
-/

namespace FlowSketch

/-- The flow node kind of a step. Model of `LEAF_KINDS`. -/
def Action.flowKind : Action → FlowKind
  | returns => .returns
  | declares => .declaration
  | calls => .call
  | operates => .operation
  | other => .other

/-- The flow node kind of a loop header. Model of `LOOP_HEADER_KINDS`. -/
def LoopForm.flowKind : LoopForm → FlowKind
  | forLoop => .forLoop
  | whileLoop | doWhile => .whileLoop

/-! ## Drafts -/

/-- The nodes and edges made so far. -/
structure Draft where
  nodes : List FlowNode := []
  edges : List FlowEdge := []
  deriving DecidableEq, Repr

/-- An edge without its target. -/
structure Exit where
  source : Int
  label : EdgeLabel
  deriving DecidableEq, Repr

/-- Where control enters a statement, and the exits by which it leaves. Model of `_Fragment`. -/
structure Fragment where
  entry : Option Int := none
  exits : List Exit := []
  deriving DecidableEq, Repr

namespace Draft

/-- The id that the next node will have: ids count up from zero. -/
def nextId (d : Draft) : Int := d.nodes.length

/-- The draft with one more node, whose id is `d.nextId`. Model of `GraphBuilder._create_node`. -/
def addNode (d : Draft) (kind : FlowKind) (label : String) : Draft :=
  { d with nodes := d.nodes ++ [⟨d.nextId, kind, label⟩] }

/-- The draft with one more edge, unless it is there already. Model of `GraphBuilder._add_edge`. -/
def addEdge (d : Draft) (source target : Int) (label : EdgeLabel) : Draft :=
  if d.edges.contains ⟨source, target, label⟩ then d
  else { d with edges := d.edges ++ [⟨source, target, label⟩] }

/-- The draft with every exit led to the target. Model of `GraphBuilder._connect`. -/
def connect (d : Draft) (exits : List Exit) (target : Int) : Draft :=
  exits.foldl (fun d exit => d.addEdge exit.source target exit.label) d

/-- The node of that id is a branch. -/
def isBranch (d : Draft) (id : Int) : Bool :=
  d.nodes.any (fun n => n.id == id && n.kind == .branch)

/-- The label with which an exit of a loop body goes back to the header: the side of a branch that
    falls out of the body keeps its own, everything else is marked as going back. -/
def backLabel (d : Draft) (exit : Exit) : EdgeLabel :=
  if (exit.label = .yes ∨ exit.label = .no) ∧ d.isBranch exit.source then exit.label else .loop

/-- The draft with the exits of a loop body led back to the header. There is always an edge marked
    as going back, from the last exit if no other is. Model of `GraphBuilder._close_loop`. -/
def closeLoop (d : Draft) (header : Int) (exits : List Exit) : Draft :=
  let closed := exits.foldl (fun d' exit => d'.addEdge exit.source header (d.backLabel exit)) d
  if exits.any (fun exit => d.backLabel exit = .loop) then closed
  else match exits.getLast? with
    | some exit => closed.addEdge exit.source header .loop
    | none => closed

end Draft

namespace Fragment

/-- The exits without repetitions, each at its first place. Model of `_dedupe`. -/
def distinct (exits : List Exit) : List Exit := exits.eraseDups

/-- Lead a branch into the fragment of one of its sides. A side without an entry leaves an open exit
    at the branch. One side of `GraphBuilder._visit_if`. -/
def attach (side : Fragment) (d : Draft) (branch : Int) (label : EdgeLabel) : Draft × List Exit :=
  match side.entry with
  | some entry => (d.addEdge branch entry label, side.exits)
  | none => (d, [⟨branch, label⟩])

end Fragment

/-! ## Statements -/

mutual

/-- A statement laid out at the end of a draft. Nodes are made in the order of the program text, the
    header of a branch, loop or function before what it governs. By cases what `GraphBuilder` does
    in `_leaf`, `_sequence`, `_visit_if`, `_visit_loop` and `_visit_function`. -/
def Stmt.lay : Stmt → Draft → Draft × Fragment
  | .step action label, d =>
    (d.addNode action.flowKind label, ⟨some d.nextId, [⟨d.nextId, .next⟩]⟩)
  | .block stmts, d => layAll stmts d {}
  | .branch label yes no, d =>
    let decision := d.nextId
    let d := d.addNode .branch label
    let (d, yesPart) := yes.lay d
    let (d, yesExits) := yesPart.attach d decision .yes
    let (d, noPart) := no.lay d
    let (d, noExits) := noPart.attach d decision .no
    (d, ⟨some decision, Fragment.distinct (yesExits ++ noExits)⟩)
  | .loop form label body, d =>
    let header := d.nextId
    let d := d.addNode form.flowKind label
    let (d, part) := body.lay d
    match part.entry with
    | none => (d.addEdge header header .loop, ⟨some header, [⟨header, .no⟩]⟩)
    | some entry =>
      let d := (d.addEdge header entry .body).closeLoop header part.exits
      (d, ⟨some (if form = .doWhile then entry else header), [⟨header, .no⟩]⟩)
  | .function label body, d =>
    let start := d.nextId
    let d := d.addNode .function label
    let (d, part) := body.lay d
    match part.entry with
    | some entry => (d.addEdge start entry .next, ⟨some start, []⟩)
    | none => (d, ⟨some start, []⟩)

/-- Statements laid out one after the other, behind what `before` holds. Functions stand apart, and
    a statement without an entry is passed through. Model of `GraphBuilder._sequence`. -/
def layAll : List Stmt → Draft → (before : Fragment) → Draft × Fragment
  | [], d, before => (d, before)
  | stmt :: rest, d, before =>
    let (d, part) := stmt.lay d
    match stmt.isFunction, part.entry with
    | false, some entry =>
      layAll rest (d.connect before.exits entry) ⟨before.entry <|> some entry, part.exits⟩
    | _, _ => layAll rest d before

end

end FlowSketch
