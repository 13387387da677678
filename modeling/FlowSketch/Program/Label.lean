import FlowSketch.Ast
import FlowSketch.Failure
import FlowSketch.Text.Blank

/-!
# Labels

The one-line label of every node that is drawn, and the defects for which a placeholder stands in.

* `Ast.clause` — the text in a slot of a loop header, without its semicolons.
* `Ast.label` — the label of a node.
* `Ast.defect?`, `Ast.malformed?` — what the node lacks.
-/

namespace FlowSketch.Ast

/-- Stands in for a condition that is not there. Model of `MISSING_CONDITION`. -/
def missingCondition : String := "<missing condition>"

/-- Stands in for a name that is not there. Model of `ANONYMOUS_FUNCTION`. -/
def anonymousFunction : String := "<anonymous>"

/-- The text, or something else when it is empty. -/
def orElse (text instead : String) : String := if text.isEmpty then instead else text

/-- The collapsed text without the semicolons at its end. -/
def clauseText (text : String) : String :=
  let cs := (Text.collapse text).toList
  String.ofList (Text.trim (cs.reverse.dropWhile (· == ';')).reverse)

/-- The clause in a slot, empty when the slot is. Model of `_clause`. -/
def clause (n : Ast) (slot : Slot) : String :=
  match n.child? slot with
  | some child => clauseText child.text
  | none => ""

/-- The label of a `for` loop: its three clauses, or its condition alone when the other two are
    empty. The part of `GraphBuilder._loop_label` for these loops. -/
def forLabel (init condition increment : String) : String :=
  if init.isEmpty && condition.isEmpty && increment.isEmpty then "for (;;)"
  else if init.isEmpty && increment.isEmpty then condition
  else Text.strip (init ++ "; " ++ condition ++ "; " ++ increment)

/-- The label of the flow node of a syntax node. Model of the labels in
    `GraphBuilder._visit_function`, `_visit_if`, `_loop_label` and `_visit`. -/
def label (n : Ast) : String :=
  match n.kind with
  | .functionDef => "Function: " ++ n.properName?.getD anonymousFunction
  | .ifStmt =>
    match n.child? .condition with
    | some condition => orElse (Text.collapse condition.text) missingCondition
    | none => missingCondition
  | .forLoop => forLabel (n.clause .init) (n.clause .condition) (n.clause .increment)
  | .whileLoop => orElse (n.clause .condition) missingCondition
  | .doWhile => "do ... while (" ++ orElse (n.clause .condition) missingCondition ++ ")"
  | kind => orElse (Text.collapse n.text) ("<" ++ kind.name ++ ">")

/-- What the node lacks. A `for` loop may do without any of its clauses. Model of the checks before
    each `GraphBuilder._malformed`. -/
def defect? (n : Ast) : Option Defect :=
  match n.kind with
  | .functionDef => if n.properName?.isNone then some .functionWithoutName else none
  | .ifStmt => if (n.child? .condition).isNone then some .ifWithoutCondition else none
  | .whileLoop | .doWhile =>
    if (n.clause .condition).isEmpty then some .loopWithoutCondition else none
  | _ => none

/-- The record of what the node lacks. Model of `GraphBuilder._malformed`. -/
def malformed? (n : Ast) : Option Malformed :=
  n.defect?.map (fun defect => ⟨n.kind, defect, Text.collapse n.text, n.line⟩)

end FlowSketch.Ast
