import FlowSketch.Ast
import FlowSketch.Cst.Form
import FlowSketch.Failure
import FlowSketch.Text.Blank

/-!
# Expressions

The syntax trees of expressions. Only operands with an inner structure are kept, and a call keeps
those of its callee and of its arguments. A chain of operators nests once a term, so expressions
are built with a stack instead of recursion; a statement inside one is handed to whoever reads
statements.

* `Cst.operands` — the operands that are kept.
* `Cst.expressionNode` — the tree of an expression, given those of its operands.
* `Cst.build` — the work on a stack of expressions begun.
* `Cst.expression` — the tree of a whole expression.

Results:

* `Cst.sizeAll_operands_lt`: the operands together are smaller than the expression.
-/

namespace FlowSketch.Cst

/-! ## Operands -/

/-- The nodes in which the operands of an expression are looked for. -/
def operandHolders (n : Cst) : List Cst :=
  if n.form = .call then (n.child? "function").toList ++ (n.child? "arguments").toList else [n]

/-- The operands that are kept. Model of `CppParser._operands`. -/
def operands (n : Cst) : List Cst := n.operandHolders.flatMap inner

theorem sizeAll_operands_lt (n : Cst) : sizeAll n.operands < n.size := by
  have hn := size_eq n
  simp only [operands, operandHolders]
  split
  · cases hf : n.child? "function" with
    | none =>
      cases ha : n.child? "arguments" with
      | none => simp [sizeAll]; omega
      | some a =>
        have := sizeAll_inner_le a
        have := size_eq a
        have := size_lt_of_child? ha
        simp; omega
    | some f =>
      cases ha : n.child? "arguments" with
      | none =>
        have := sizeAll_inner_le f
        have := size_eq f
        have := size_lt_of_child? hf
        simp; omega
      | some a =>
        have := sizeAll_inner_le f
        have := size_eq f
        have := sizeAll_inner_le a
        have := size_eq a
        have := size_two_children_le (by decide) hf ha
        simp [sizeAll_append]; omega
  · have := sizeAll_inner_le n
    simp; omega

/-- The tree of an expression, given the trees of its operands. Model of
    `CppParser._expression_node`. -/
def expressionNode (bytes : List UInt8) (n : Cst) (operands : List Ast) : Ast :=
  match n.form with
  | .call =>
    { kind := .call
      text := n.text bytes
      name := (n.child? "function").map (fun f => Text.strip (f.text bytes))
      line := n.line
      children := operands }
  | .operation =>
    { kind := .binaryOp, text := n.text bytes, line := n.line, children := operands }
  | _ => { kind := .other, text := n.text bytes, line := n.line, children := operands }

/-! ## The stack -/

/-- What is still to be done: begin a node, or finish one whose operands are built. -/
inductive Step where
  | begin (n : Cst)
  | finish (n : Cst)
  deriving Repr

/-- A bound on the number of steps that a step leads to, itself included. -/
def Step.weight : Step → Nat
  | begin n => 2 * n.size
  | finish _ => 1

/-- A bound on the number of steps that the steps of a stack lead to. -/
def Step.weightAll : List Step → Nat
  | [] => 0
  | step :: rest => step.weight + weightAll rest

theorem Step.weightAll_append (steps rest : List Step) :
    weightAll (steps ++ rest) = weightAll steps + weightAll rest := by
  induction steps with
  | nil => simp only [List.nil_append, weightAll, Nat.zero_add]
  | cons step steps ih => simp only [List.cons_append, weightAll, ih, Nat.add_assoc]

theorem weight_begins (ns : List Cst) : Step.weightAll (ns.map Step.begin) = 2 * sizeAll ns := by
  induction ns with
  | nil => rfl
  | cons n ns ih =>
    simp only [List.map_cons, Step.weightAll, ih, Step.weight, sizeAll]
    omega

/-- The steps of a stack, the first on top; `built` holds the trees not yet taken up by a node, the
    latest first. A statement is handed to `onStatement`. A finished node takes up as many trees as
    it has operands. The loop of `CppParser._convert_expression`. -/
def build (bytes : List UInt8) (onStatement : Cst → Except Failure Ast) :
    List Step → (built : List Ast) → Except Failure (List Ast)
  | [], built => .ok built
  | .begin n :: rest, built =>
    if n.isStatement then
      match onStatement n with
      | .ok tree => build bytes onStatement rest (tree :: built)
      | .error failure => .error failure
    else build bytes onStatement (n.operands.map .begin ++ .finish n :: rest) built
  | .finish n :: rest, built =>
    let count := n.operands.length
    let node := n.expressionNode bytes (built.take count).reverse
    build bytes onStatement rest (node :: built.drop count)
termination_by steps => Step.weightAll steps
decreasing_by
  · have := size_eq n
    simp only [Step.weightAll, Step.weight]
    omega
  · have := sizeAll_operands_lt n
    simp only [Step.weightAll_append, weight_begins, Step.weightAll, Step.weight]
    omega
  · simp only [Step.weightAll, Step.weight]
    omega

/-- The tree of an expression: the only one that is left when all steps are done. Model of
    `CppParser._convert_expression`. -/
def expression (bytes : List UInt8) (onStatement : Cst → Except Failure Ast) (n : Cst) :
    Except Failure Ast := do
  let built ← build bytes onStatement [.begin n] []
  return built.getLastD (n.expressionNode bytes [])

end FlowSketch.Cst
