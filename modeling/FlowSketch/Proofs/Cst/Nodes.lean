import FlowSketch.Cst

/-!
# Nodes of concrete trees

All nodes of a concrete tree in the order of the source, and induction over concrete trees, whose
nodes hold lists of their own kind.

* `Cst.preorder` — the nodes of a concrete tree, every node before its children.

Results:

* `Cst.preorder_eq`: the nodes of a tree are its root and those of its children.
* `Cst.induction`: what holds of a node whenever it holds of its children holds of all.
-/

namespace FlowSketch.Cst

mutual

/-- All nodes, every node before its children and these in order. -/
def preorder : Cst → List Cst
  | ⟨type, start, stop, row, column, field, named, missing, faulty, children⟩ =>
    ⟨type, start, stop, row, column, field, named, missing, faulty, children⟩ ::
      preorderAll children

/-- The nodes of several trees, one tree after the other. -/
def preorderAll : List Cst → List Cst
  | [] => []
  | c :: rest => c.preorder ++ preorderAll rest

end

theorem preorderAll_eq_flatMap (cs : List Cst) : preorderAll cs = cs.flatMap preorder := by
  induction cs with
  | nil => rfl
  | cons c rest ih => simp [preorderAll, ih]

theorem preorder_eq (n : Cst) : n.preorder = n :: n.children.flatMap preorder := by
  cases n
  simp only [preorder, preorderAll_eq_flatMap]

/-- What holds of all nodes of a tree holds of the root and of all nodes below its children. -/
theorem forall_mem_preorder_iff {P : Cst → Prop} {n : Cst} :
    (∀ m ∈ n.preorder, P m) ↔ P n ∧ ∀ c ∈ n.children, ∀ m ∈ c.preorder, P m := by
  rw [preorder_eq, List.forall_mem_cons, List.forall_mem_flatMap]

/-- Induction over trees, with one hypothesis for all children of a node. -/
@[elab_as_elim]
theorem induction {P : Cst → Prop} (node : ∀ n : Cst, (∀ c ∈ n.children, P c) → P n)
    (n : Cst) : P n := by
  apply node
  intro c hc
  have := size_lt_of_mem hc
  exact induction node c
termination_by n.size

theorem mem_preorder_self (n : Cst) : n ∈ n.preorder := by
  rw [preorder_eq]
  exact List.mem_cons_self

end FlowSketch.Cst
