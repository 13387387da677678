import FlowSketch.Cst.Condition
import FlowSketch.Cst.Expression
import FlowSketch.Cst.Fault
import FlowSketch.Cst.Name
import FlowSketch.Report

/-!
# Syntax trees of source texts

The syntax tree of a source text, from the concrete tree that a grammar makes of it. Statements
keep their structure as far as control flow needs it; comments vanish, and so do expressions
without an inner structure.

Statements may nest down to a limit. An expression does not count as a level, but the statements
inside it are one level further down.

* `Cst.statement` — the tree of a statement, given how to read the nodes inside it.
* `Cst.astAt` — the tree of a node at a depth.
* `Cst.parse` — the tree of a source text.
-/

namespace FlowSketch.Cst

section

variable (bytes : List UInt8) (visit : Cst → Except Failure Ast)

/-! ## Parts of statements -/

/-- The trees of several nodes, up to the first failure. -/
def visitAll : List Cst → Except Failure (List Ast)
  | [] => .ok []
  | c :: rest => do
    let tree ← visit c
    let trees ← visitAll rest
    return tree :: trees

/-- The tree of a node that may be missing. -/
def visitOption : Option Cst → Except Failure (Option Ast)
  | none => .ok none
  | some c => do
    let tree ← visit c
    return some tree

/-- The trees of the statements inside a node. Model of `CppParser._statements`. -/
def statements (n : Cst) : Except Failure (List Ast) := visitAll visit n.content

/-- The trees of the expressions inside a node that have an inner structure. Model of
    `CppParser._expressions`. -/
def expressions (n : Cst) : Except Failure (List Ast) := visitAll visit n.inner

/-- The tree of the child of a field. Model of `CppParser._field`. -/
def part (n : Cst) (field : String) : Except Failure (Option Ast) :=
  visitOption visit (n.child? field)

/-- The tree of the unwrapped condition. Model of `CppParser._condition`. -/
def conditionPart (n : Cst) : Except Failure (Option Ast) := visitOption visit n.condition?

/-! ## Statements -/

/-- A node with the text and line of a statement. -/
def node (n : Cst) (kind : Kind) (filled : Slots Ast) (others : List Ast)
    (name : Option String := none) : Ast :=
  Ast.ofParts kind (n.text bytes) n.line name filled others

/-- The header of a loop over a range, from behind `for` up to the body, without the parentheses
    around it. Model of the header that `CppParser._convert` reads of a `for_range_loop`. -/
def rangeHeader (n : Cst) : String :=
  let stop := match n.child? "body" with
    | some body => body.start
    | none => n.stop
  let header := Text.trim (Utf8.decode (Utf8.slice bytes n.start stop)).toList
  let header := if "for".toList.isPrefixOf header then Text.trim (header.drop 3) else header
  let header :=
    if header.head? = some '(' ∧ header.getLast? = some ')' then (header.drop 1).dropLast
    else header
  String.ofList (Text.trim header)

/-- A loop with a condition in front of or behind its body, and a switch. -/
def conditional (n : Cst) (kind : Kind) : Except Failure Ast := do
  let condition ← conditionPart visit n
  let body ← part visit n "body"
  return n.node bytes kind { condition, body } []

/-- An expression as a statement. A single expression lends its kind, name and operands to the
    statement, whose own text is kept. The last case of `CppParser._convert`. -/
def expressionStmt (n : Cst) : Except Failure Ast :=
  match n.content with
  | [single] => do
    let tree ← visit single
    return n.node bytes tree.kind {} tree.children tree.name
  | _ => do
    let children ← expressions visit n
    return n.node bytes .other {} children

/-- The tree of a statement; `visit` gives the trees of the nodes inside it. Model of the cases of
    `CppParser._convert`. -/
def statement (n : Cst) : Except Failure Ast :=
  match n.form with
  | .block => do
    let children ← statements visit n
    return n.node bytes .compoundBlock {} children
  | .scope => do
    let body ← part visit n "body"
    return n.node bytes .compoundBlock {} body.toList
  | .template => do
    let children ← visitAll visit (n.content.filter (fun c => c.type != "template_parameter_list"))
    return n.node bytes .compoundBlock {} children
  | .function => do
    let body ← part visit n "body"
    return n.node bytes .functionDef { body } [] (n.functionName? bytes)
  | .ifStmt => do
    let condition ← conditionPart visit n
    let body ← part visit n "consequence"
    let elseBranch ← part visit n "alternative"
    return n.node bytes .ifStmt { condition, body, elseBranch } []
  | .elseClause => do
    let children ← statements visit n
    return n.node bytes .elseClause { body := children.head? } children.tail
  | .forLoop => do
    let init ← part visit n "initializer"
    let condition ← part visit n "condition"
    let increment ← part visit n "update"
    let body ← part visit n "body"
    return n.node bytes .forLoop { init, condition, increment, body } []
  | .rangeLoop => do
    let condition : Ast := { kind := .other, text := n.rangeHeader bytes, line := n.line }
    let right ← part visit n "right"
    let body ← part visit n "body"
    return n.node bytes .forLoop { condition := some condition, body } right.toList
  | .whileLoop => conditional bytes visit n .whileLoop
  | .doLoop => conditional bytes visit n .doWhile
  | .switchStmt => conditional bytes visit n .switchStmt
  | .returnStmt => do
    let children ← expressions visit n
    return n.node bytes .returnStmt {} children
  | .declaration => do
    let children ← expressions visit n
    return n.node bytes .declaration {} children
  | _ => expressionStmt bytes visit n

end

/-! ## Whole trees -/

/-- The tree of a node at `depth`; `budget` is the number of levels left for statements, this one
    included. Model of `CppParser._convert`. -/
def astAt (bytes : List UInt8) (limit : Int) : (budget depth : Nat) → Cst → Except Failure Ast
  | 0, depth, n =>
    if n.isStatement then .error (.tooDeep depth limit)
    else n.expression bytes (fun _ => .error (.tooDeep (depth + 1) limit))
  | budget + 1, depth, n =>
    if n.isStatement then n.statement bytes (astAt bytes limit budget (depth + 1))
    else n.expression bytes (astAt bytes limit budget (depth + 1))

/-- The tree of a concrete tree, statements nested at most `limit` levels below the root. -/
def ast (bytes : List UInt8) (limit : Int) (root : Cst) : Except Failure Ast :=
  root.astAt bytes limit (limit + 1).toNat 0

/-- The tree of a source text, of which `grammar` makes the concrete tree. A blank text has none,
    and a faulty one has none. Model of `CppParser.parse`. -/
def parse (grammar : String → Cst) (limit : Int) (source : String) : Report Failure Ast :=
  if Text.blankOnly source then Report.fail .noSource
  else
    let root := grammar source
    match root.failure? with
    | some failure => Report.fail failure
    | none => do
      let bytes := Utf8.encode source
      let tree ← Report.ofExcept (root.ast bytes limit)
      Report.note (.sourceParsed bytes.length tree.preorder.length)
      return tree

end FlowSketch.Cst
