import FlowSketch.Cst
import FlowSketch.Failure

/-!
# Faults in the source

The grammar marks what it could not make sense of: nodes of type `ERROR`, and nodes that it put
where the source lacks them. Every node says whether there is such a mark at it or below.

* `Cst.isFault` — a marked node.
* `Cst.firstFault?` — the first marked node in the order of the source, sought only where a node
  says that there is one.
* `Cst.failure?` — the failure that a faulty tree means.
-/

namespace FlowSketch.Cst

/-- A node that does not belong, or that the source lacks. -/
def isFault (n : Cst) : Bool := n.type == "ERROR" || n.missing

mutual

/-- The first fault at a node or below. Model of `_first_error`. -/
def firstFault? : Cst → Option Cst
  | ⟨type, start, stop, row, column, field, named, missing, faulty, children⟩ =>
    let n : Cst := ⟨type, start, stop, row, column, field, named, missing, faulty, children⟩
    if n.isFault then some n
    else if faulty then firstFaultOf children
    else none

/-- The first fault in several trees. -/
def firstFaultOf : List Cst → Option Cst
  | [] => none
  | c :: rest =>
    match c.firstFault? with
    | some bad => some bad
    | none => firstFaultOf rest

end

theorem firstFaultOf_eq_findSome? (cs : List Cst) : firstFaultOf cs = cs.findSome? firstFault? := by
  induction cs with
  | nil => rfl
  | cons c rest ih => cases h : c.firstFault? <;> simp [firstFaultOf, h, ih]

theorem firstFault?_eq (n : Cst) :
    n.firstFault? =
      if n.isFault then some n
      else if n.faulty then n.children.findSome? firstFault?
      else none := by
  cases n
  simp only [firstFault?, firstFaultOf_eq_findSome?]

/-- The failure that the faults of a tree mean, if the tree says that there are any. The check of
    `has_error` in `CppParser.parse`. -/
def failure? (root : Cst) : Option Failure :=
  if root.faulty then
    match root.firstFault? with
    | some bad =>
      some (.faultySource (if bad.missing then some bad.type else none) (bad.row + 1)
        (bad.column + 1))
    | none => some (.faultySource none 0 0)
  else none

end FlowSketch.Cst
