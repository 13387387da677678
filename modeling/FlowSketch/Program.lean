/-!
# Structured programs

What is left of a syntax tree for drawing its control flow: steps, blocks, branches, loops and
functions, each with the label it will carry.

* `Action`, `LoopForm` — the kinds of steps and of loops.
* `Stmt` — structured programs. A branch or loop without a statement has the empty block.
-/

namespace FlowSketch

/-- What a single step does. -/
inductive Action where
  | returns
  | declares
  | calls
  | operates
  | other
  deriving DecidableEq, Repr

/-- How a loop is written. A do-while loop runs its body before its first test, the others test
    first. -/
inductive LoopForm where
  | forLoop
  | whileLoop
  | doWhile
  deriving DecidableEq, Repr

/-- A structured program. -/
inductive Stmt where
  | step (action : Action) (label : String)
  | block (stmts : List Stmt)
  | branch (label : String) (yes no : Stmt)
  | loop (form : LoopForm) (label : String) (body : Stmt)
  | function (label : String) (body : Stmt)
  deriving Repr

namespace Stmt

/-- A function definition, which control does not flow through. -/
def isFunction : Stmt → Bool
  | function .. => true
  | _ => false

end Stmt

end FlowSketch
