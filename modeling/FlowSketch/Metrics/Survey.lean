import FlowSketch.Ast
import FlowSketch.Metrics.Callee

/-!
# Surveying a tree

One pass over a tree that counts functions, loops and conditionals, measures how deep loops nest,
and notes which functions are declared and which call themselves.

The pass keeps a stack of tasks instead of recursing. Every node is entered, which opens its scope,
and left again behind its children, which closes it; so depth and open functions follow the tree.

* `Tally` — what has been counted, with the scopes that are open.
* `Task`, `Task.perform` — entering and leaving a node.
* `survey` — the pass over a whole tree.

Results:

* `weight_tasks_lt`: the tasks that a task gives rise to are less work than the task itself.
-/

namespace FlowSketch.Metrics

/-- The counts so far, the number of open loops and the names of the open functions, innermost
    first. Names are listed once each, in order of first occurrence. Model of `_WalkResult`, with
    the variables of `_walk`. -/
structure Tally where
  functions : Nat := 0
  loops : Nat := 0
  conditionals : Nat := 0
  deepest : Nat := 0
  declared : List String := []
  recursive : List String := []
  openLoops : Nat := 0
  openFunctions : List String := []
  deriving DecidableEq, Repr

/-- The list with one more name at its end, unless it is there already. -/
def addName (names : List String) (name : String) : List String :=
  if names.contains name then names else names ++ [name]

namespace Tally

/-- Count a function and open its scope. A function without a name cannot be called. -/
def enterFunction (t : Tally) (name? : Option String) : Tally :=
  match name? with
  | some name =>
    { t with
      functions := t.functions + 1
      declared := addName t.declared name
      openFunctions := name :: t.openFunctions }
  | none => { t with functions := t.functions + 1 }

/-- Count a loop and open its scope. -/
def enterLoop (t : Tally) : Tally :=
  { t with
    loops := t.loops + 1
    openLoops := t.openLoops + 1
    deepest := max t.deepest (t.openLoops + 1) }

/-- Note the function that a call inside it means. -/
def enterCall (t : Tally) (name? : Option String) : Tally :=
  match name?.bind (fun name => target? name t.openFunctions) with
  | some function => { t with recursive := addName t.recursive function }
  | none => t

/-- Enter a node. Model of a turn of `_walk` that is not leaving. -/
def enter (t : Tally) (n : Ast) : Tally :=
  if n.kind = .functionDef then t.enterFunction n.properName?
  else if n.kind.isLoop then t.enterLoop
  else if n.kind.isConditional then { t with conditionals := t.conditionals + 1 }
  else if n.kind = .call then t.enterCall n.properName?
  else t

/-- Leave a node: close what entering it has opened. Model of a turn of `_walk` that is leaving. -/
def leave (t : Tally) (n : Ast) : Tally :=
  if n.kind.isLoop then { t with openLoops := t.openLoops - 1 }
  else if n.kind = .functionDef ∧ n.properName?.isSome then
    { t with openFunctions := t.openFunctions.tail }
  else t

end Tally

/-! ## The stack of tasks -/

/-- What is still to be done: enter a node, or leave one that has been entered. -/
inductive Task where
  | enter (n : Ast)
  | leave (n : Ast)
  deriving Repr

namespace Task

/-- The counts after a task. -/
def perform (t : Tally) : Task → Tally
  | enter n => t.enter n
  | leave n => t.leave n

/-- The tasks that a task gives rise to: the children of a node are entered one after the other,
    and then the node is left. -/
def tasks : Task → List Task
  | enter n => n.children.map enter ++ [leave n]
  | leave _ => []

/-- The number of steps that a task takes, those it gives rise to included. -/
def weight : Task → Nat
  | enter n => 2 * n.preorder.length
  | leave _ => 1

/-- The number of steps that the tasks of a stack take. -/
def weightAll : List Task → Nat
  | [] => 0
  | task :: rest => task.weight + weightAll rest

theorem weightAll_append (stack rest : List Task) :
    weightAll (stack ++ rest) = weightAll stack + weightAll rest := by
  induction stack with
  | nil => simp only [List.nil_append, weightAll, Nat.zero_add]
  | cons task stack ih => simp only [List.cons_append, weightAll, ih, Nat.add_assoc]

end Task

theorem weight_enters (ns : List Ast) :
    Task.weightAll (ns.map Task.enter) = 2 * (Ast.preorderAll ns).length := by
  induction ns with
  | nil => rfl
  | cons n ns ih =>
    simp only [List.map_cons, Task.weightAll, ih, Task.weight, Ast.preorderAll, List.length_append]
    omega

theorem weight_tasks_lt (task : Task) : Task.weightAll task.tasks < task.weight := by
  cases task with
  | enter n =>
    simp only [Task.tasks, Task.weightAll_append, weight_enters, Task.weightAll, Task.weight,
      Ast.preorder_eq, List.length_cons]
    omega
  | leave n => simp [Task.tasks, Task.weight, Task.weightAll]

/-- The counts after all tasks of a stack, the first on top. The loop of `_walk`. -/
def work (t : Tally) : List Task → Tally
  | [] => t
  | task :: rest => work (task.perform t) (task.tasks ++ rest)
termination_by stack => Task.weightAll stack
decreasing_by
  have := weight_tasks_lt task
  simp only [Task.weightAll_append, Task.weightAll]
  omega

/-- The counts of a tree. Model of `_walk`. -/
def survey (root : Ast) : Tally := work {} [.enter root]

end FlowSketch.Metrics
