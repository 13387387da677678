import FlowSketch.Program
import FlowSketch.Program.Label
import FlowSketch.Report

/-!
# The structured program of a tree

The statements of a tree that control flows through, down to a limit on how deep they nest. A
block stands for its children, an `else` for its body, a `switch` and everything else for one step.

Nodes are visited in pre-order: a node too deep ends the visit, and a malformed one is recorded
before the nodes below it.

* `Ast.outlineAt` — the program of a tree at a depth.
* `Ast.outline` — the program of a whole tree.
-/

namespace FlowSketch.Ast

/-- The step that a node of that kind takes as a whole. -/
def actionOf : Kind → Action
  | .returnStmt => .returns
  | .declaration => .declares
  | .call => .calls
  | .binaryOp => .operates
  | _ => .other

/-- Record what a node lacks. Model of `GraphBuilder._malformed`. -/
def noteDefect (n : Ast) : Report Failure Unit :=
  match n.malformed? with
  | some m => Report.note (.malformedNode m)
  | none => return ()

/-- The program of a slot, the empty block when nothing fills it. What
    `GraphBuilder._visit_optional` reads. -/
def outlineSlot (visit : Ast → Report Failure Stmt) (n : Ast) (slot : Slot) :
    Report Failure Stmt :=
  match n.child? slot with
  | some child => visit child
  | none => return .block []

/-- The program of the body, or of all children when there is no body. What
    `GraphBuilder._visit_function` reads below a function. -/
def outlineBody (visit : Ast → Report Failure Stmt) (n : Ast) : Report Failure Stmt :=
  match n.child? .body with
  | some body => visit body
  | none => return .block (← Report.each visit n.children)

/-- The program of a loop. What `GraphBuilder._visit_loop` reads. -/
def outlineLoop (visit : Ast → Report Failure Stmt) (n : Ast) (form : LoopForm) :
    Report Failure Stmt := do
  n.noteDefect
  let body ← outlineSlot visit n .body
  return .loop form n.label body

/-- The program of a tree at `depth`; `budget` is the number of levels left, this one included. What
    `GraphBuilder._visit` reads of a tree, apart from what it draws. -/
def outlineAt (limit : Int) : (budget depth : Nat) → Ast → Report Failure Stmt
  | 0, depth, _ => Report.fail (.tooDeep depth limit)
  | budget + 1, depth, n =>
    match n.kind with
    | .functionDef => do
      n.noteDefect
      let body ← outlineBody (outlineAt limit budget (depth + 1)) n
      return .function n.label body
    | .compoundBlock => do
      let stmts ← Report.each (outlineAt limit budget (depth + 1)) n.children
      return .block stmts
    | .elseClause =>
      match n.child? .body with
      | some body => do
        let stmt ← outlineAt limit budget (depth + 1) body
        return .block [stmt]
      | none => do
        let stmts ← Report.each (outlineAt limit budget (depth + 1)) n.children
        return .block stmts
    | .ifStmt => do
      n.noteDefect
      let yes ← outlineSlot (outlineAt limit budget (depth + 1)) n .body
      let no ← outlineSlot (outlineAt limit budget (depth + 1)) n .elseBranch
      return .branch n.label yes no
    | .forLoop => outlineLoop (outlineAt limit budget (depth + 1)) n .forLoop
    | .whileLoop => outlineLoop (outlineAt limit budget (depth + 1)) n .whileLoop
    | .doWhile => outlineLoop (outlineAt limit budget (depth + 1)) n .doWhile
    | kind => return .step (actionOf kind) n.label

/-- The program of a tree whose nodes lie at most `limit` steps below the root. -/
def outline (limit : Int) (root : Ast) : Report Failure Stmt :=
  root.outlineAt limit (limit + 1).toNat 0

end FlowSketch.Ast
