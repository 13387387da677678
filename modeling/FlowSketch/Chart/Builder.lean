import FlowSketch.Chart.Build

/-!
# Builders

A builder draws one tree after the other, in one go: it labels a node, notes what the node lacks,
makes its flow node and goes on to the nodes below, watching the depth. What is drawn and noted
stays in the builder, also when it has to give up halfway, and is thrown away when the next tree
is begun.

* `Builder` — the limit on the depth, and what is drawn and noted so far.
* `Builder.visit` — a tree drawn at the end of what is there.
* `Builder.build` — a tree drawn anew.
-/

namespace FlowSketch

theorem Ast.sizeOf_children_lt (n : Ast) : sizeOf n.children < sizeOf n := by
  cases n
  simp only [mk.sizeOf_spec]
  omega

/-- What draws trees whose nodes lie at most `limit` steps below the root, with all that is left in
    it of the last one. Model of `GraphBuilder`. -/
structure Builder where
  limit : Int
  draft : Draft := {}
  malformed : List Malformed := []
  deriving DecidableEq, Repr

namespace Builder

/-- A part of a drawing. What it leaves in the builder stays there when it gives up. -/
abbrev Draws := EStateM Failure Builder

/-- A change of the draft with its result. -/
def draw {α : Type} (change : Draft → Draft × α) : Draws α :=
  modifyGet fun b => ((change b.draft).2, { b with draft := (change b.draft).1 })

/-- Note what a node lacks. Model of `GraphBuilder._malformed`. -/
def note (n : Ast) : Draws Unit :=
  modify fun b => { b with malformed := b.malformed ++ n.malformed?.toList }

/-- Give up on a node that lies too deep. The first lines of `GraphBuilder._visit`. -/
def guardDepth (depth : Nat) : Draws Unit := do
  let limit := (← get).limit
  if limit < depth then throw (.tooDeep depth limit)

/-- A new flow node, by its id. Model of `GraphBuilder._create_node`. -/
def create (kind : FlowKind) (label : String) : Draws Int :=
  draw fun d => (d.addNode kind label, d.nextId)

/-- A function around its body, which control does not leave. The last lines of
    `GraphBuilder._visit_function`. -/
def closeFunction (start : Int) (body : Fragment) : Draws Fragment :=
  draw fun d =>
    match body.entry with
    | some entry => (d.addEdge start entry .next, ⟨some start, []⟩)
    | none => (d, ⟨some start, []⟩)

/-- A loop around its body. The last lines of `GraphBuilder._visit_loop`. -/
def closeLoop (header : Int) (form : LoopForm) (body : Fragment) : Draws Fragment :=
  draw fun d =>
    match body.entry with
    | none => (d.addEdge header header .loop, ⟨some header, [⟨header, .no⟩]⟩)
    | some entry =>
      ((d.addEdge header entry .body).closeLoop header body.exits,
        ⟨some (if form = .doWhile then entry else header), [⟨header, .no⟩]⟩)

/-- A statement behind what `before` holds: functions stand apart, and a statement without an entry
    is passed through. One turn of the loop of `GraphBuilder._sequence`. -/
def follow (before : Fragment) (n : Ast) (part : Fragment) : Draws Fragment :=
  match decide (n.kind = .functionDef), part.entry with
  | false, some entry =>
    draw fun d => (d.connect before.exits entry, ⟨before.entry <|> some entry, part.exits⟩)
  | _, _ => return before

mutual

/-- The fragment of a tree at a depth. Model of `GraphBuilder._visit`, with `_visit_function`,
    `_visit_if` and `_leaf`. -/
def visit (n : Ast) (depth : Nat) : Draws Fragment := do
  guardDepth depth
  match n.kind with
  | .functionDef => do
    note n
    let start ← create .function n.label
    let body ← visitBody n depth
    closeFunction start body
  | .compoundBlock => visitAll n.children depth {}
  | .elseClause => visitElse n depth
  | .ifStmt => do
    note n
    let decision ← create .branch n.label
    let yes ← visitSlot n .body depth
    let yesExits ← draw fun d => yes.attach d decision .yes
    let no ← visitSlot n .elseBranch depth
    let noExits ← draw fun d => no.attach d decision .no
    return ⟨some decision, Fragment.distinct (yesExits ++ noExits)⟩
  | .forLoop => visitLoop n .forLoop depth
  | .whileLoop => visitLoop n .whileLoop depth
  | .doWhile => visitLoop n .doWhile depth
  | kind => do
    let id ← create (Ast.actionOf kind).flowKind n.label
    return ⟨some id, [⟨id, .next⟩]⟩
termination_by (sizeOf n, 2)
decreasing_by
  all_goals first
    | exact .right _ (by decide)
    | exact .left _ _ (Ast.sizeOf_children_lt n)

/-- The fragment of a loop. Model of `GraphBuilder._visit_loop`. -/
def visitLoop (n : Ast) (form : LoopForm) (depth : Nat) : Draws Fragment := do
  note n
  let header ← create form.flowKind n.label
  let body ← visitSlot n .body depth
  closeLoop header form body
termination_by (sizeOf n, 1)
decreasing_by exact .right _ (by decide)

/-- The fragment of what fills a slot. Model of `GraphBuilder._visit_optional`. -/
def visitSlot (n : Ast) (slot : Slot) (depth : Nat) : Draws Fragment :=
  match _h : n.child? slot with
  | some child => visit child (depth + 1)
  | none => return {}
termination_by (sizeOf n, 0)
decreasing_by exact .left _ _ (Ast.sizeOf_child?_lt _h)

/-- The fragment of the body, or of all children when there is no body. -/
def visitBody (n : Ast) (depth : Nat) : Draws Fragment :=
  match _h : n.child? .body with
  | some body => visit body (depth + 1)
  | none => visitAll n.children depth {}
termination_by (sizeOf n, 0)
decreasing_by
  · exact .left _ _ (Ast.sizeOf_child?_lt _h)
  · exact .left _ _ (Ast.sizeOf_children_lt n)

/-- The fragment of the body as a statement of its own, or of all children when there is no body. -/
def visitElse (n : Ast) (depth : Nat) : Draws Fragment :=
  match _h : n.child? .body with
  | some body => do
    let part ← visit body (depth + 1)
    follow {} body part
  | none => visitAll n.children depth {}
termination_by (sizeOf n, 0)
decreasing_by
  · exact .left _ _ (Ast.sizeOf_child?_lt _h)
  · exact .left _ _ (Ast.sizeOf_children_lt n)

/-- The fragment of statements one after the other, behind what `before` holds. Model of
    `GraphBuilder._sequence`. -/
def visitAll (ns : List Ast) (depth : Nat) (before : Fragment) : Draws Fragment :=
  match ns with
  | [] => return before
  | n :: rest => do
    let part ← visit n (depth + 1)
    let before ← follow before n part
    visitAll rest depth before
termination_by (sizeOf ns, 0)
decreasing_by
  · exact .left _ _ (by simp only [List.cons.sizeOf_spec]; omega)
  · exact .left _ _ (by simp only [List.cons.sizeOf_spec]; omega)

end

/-- A builder without anything drawn. Model of `GraphBuilder._reset`. -/
def reset (b : Builder) : Builder := { limit := b.limit }

/-- The flowchart of what is drawn. It starts at its first node. -/
def chart (b : Builder) : Flowchart where
  nodes := b.draft.nodes
  edges := b.draft.edges
  entry := b.draft.nodes.head?.map (·.id)
  malformed := b.malformed

/-- The flowchart of a tree that may be missing, with the builder as it is left. Model of
    `GraphBuilder.build`. -/
def build (b : Builder) : Option Ast → Report Failure Flowchart × Builder
  | none => (Report.fail .noTree, b)
  | some root =>
    match visit root 0 b.reset with
    | .ok _ left =>
      let chart := left.chart
      let built := .chartBuilt chart.nodes.length chart.edges.length chart.malformed.length
      (⟨left.malformed.map .malformedNode ++ [built], .ok chart⟩, left)
    | .error failure left => (⟨left.malformed.map .malformedNode, .error failure⟩, left)

end Builder

end FlowSketch
