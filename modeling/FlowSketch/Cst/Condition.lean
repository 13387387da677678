import FlowSketch.Cst.Form

/-!
# Conditions

The grammar wraps a condition into clauses and parentheses, which say nothing about it.

* `Cst.isWrapper` — a clause or parentheses.
* `Cst.unwrap` — what stands inside all wrappers.
* `Cst.condition?` — the condition of a statement, unwrapped.
-/

namespace FlowSketch.Cst

/-- A clause or parentheses around an expression. -/
def isWrapper (n : Cst) : Bool :=
  n.type == "condition_clause" || n.type == "parenthesized_expression"

/-- What a wrapper holds: its value, or the last of its children with a part in the program. -/
def wrapped? (n : Cst) : Option Cst := n.child? "value" <|> n.content.getLast?

theorem size_lt_of_wrapped? {n c : Cst} (h : n.wrapped? = some c) : c.size < n.size := by
  simp only [wrapped?] at h
  cases hv : n.child? "value" with
  | some v =>
    rw [hv] at h
    cases h
    exact size_lt_of_child? hv
  | none =>
    rw [hv] at h
    exact size_lt_of_mem (mem_children_of_mem_content (List.mem_of_getLast? h))

/-- What stands inside all wrappers. A wrapper that holds nothing stays. The loop of
    `CppParser._condition`. -/
def unwrap (n : Cst) : Cst :=
  if n.isWrapper then
    match _h : n.wrapped? with
    | some inside => unwrap inside
    | none => n
  else n
termination_by n.size
decreasing_by exact size_lt_of_wrapped? _h

/-- The condition of a statement. Model of the first part of `CppParser._condition`. -/
def condition? (n : Cst) : Option Cst := (n.child? "condition").map unwrap

end FlowSketch.Cst
