import FlowSketch.Ast
import FlowSketch.Program

/-!
# The structure of programs

Induction over trees and over statements, both of which hold lists of their own kind, and the
number of nodes that a statement draws. Nodes are numbered in the order of the program text, so
these numbers alone say which ids belong to which statement.

* `Stmt.size`, `Stmt.sizeAll` — the number of nodes of a statement and of several.

Results:

* `Ast.induction`: what holds of a node whenever it holds of its children holds of all.
* `Stmt.induction`: what holds of a statement whenever it holds of its parts holds of all.
-/

namespace FlowSketch

/-- Induction over trees, with one hypothesis for all children of a node. -/
@[elab_as_elim]
theorem Ast.induction {P : Ast → Prop} (node : ∀ n : Ast, (∀ m ∈ n.children, P m) → P n)
    (n : Ast) : P n := by
  apply node
  intro m hm
  have := sizeOf_lt_of_mem_children hm
  exact Ast.induction node m
termination_by sizeOf n

namespace Stmt

/-- Induction over statements. The members of a block are taken one by one, so that no second
    motive for lists is needed. -/
@[elab_as_elim]
theorem induction {P : Stmt → Prop}
    (step : ∀ action label, P (.step action label))
    (block : ∀ stmts, (∀ s ∈ stmts, P s) → P (.block stmts))
    (branch : ∀ label yes no, P yes → P no → P (.branch label yes no))
    (loop : ∀ form label body, P body → P (.loop form label body))
    (function : ∀ label body, P body → P (.function label body)) (s : Stmt) : P s := by
  refine @Stmt.rec P (fun stmts => ∀ s ∈ stmts, P s) step block branch loop function ?_ ?_ s
  · intro s hs
    simp at hs
  · intro s rest hs hrest t ht
    rcases List.mem_cons.1 ht with rfl | ht
    · exact hs
    · exact hrest t ht

mutual

/-- The number of nodes that a statement draws. -/
def size : Stmt → Nat
  | .step .. => 1
  | .block stmts => sizeAll stmts
  | .branch _ yes no => 1 + yes.size + no.size
  | .loop _ _ body => 1 + body.size
  | .function _ body => 1 + body.size

/-- The number of nodes that several statements draw. -/
def sizeAll : List Stmt → Nat
  | [] => 0
  | s :: rest => s.size + sizeAll rest

end

theorem sizeAll_append (stmts rest : List Stmt) :
    sizeAll (stmts ++ rest) = sizeAll stmts + sizeAll rest := by
  induction stmts with
  | nil => simp [sizeAll]
  | cons s stmts ih => rw [List.cons_append, sizeAll, sizeAll, ih, Nat.add_assoc]

end Stmt

end FlowSketch
