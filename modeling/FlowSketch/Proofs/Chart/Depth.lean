import FlowSketch.Proofs.Chart.Outline

/-!
# How deep a tree is visited

A tree is drawn unless some node that control reaches lies too many visit steps below the root.
Which limit is too low can be read off the tree alone, and it makes no difference where the visit
meets the node: the failure names the first level that is beyond the limit.

* `Ast.reaches` — some visited node lies so many steps below a node.

Results:

* `Ast.reaches_of_succ`: what is reached at a level is reached at every level above.
* `Ast.outcome_outlineAt`: an outline fails exactly when the first level beyond the budget is
  reached.
* `Flowchart.outcome_ofAst`: so does a flowchart, and otherwise it is the layout of the program.
-/

namespace FlowSketch

/-! ## Outcomes -/

namespace Report

variable {ε α β : Type}

/-- Where every item that fails does so for the same reason, a list fails for that reason if one of
    its items does. -/
theorem outcome_each {f : α → Report ε β} {as : List α} {fails : α → Bool} {failure : ε}
    {result : α → β} (h : ∀ a ∈ as, (f a).outcome =
      if fails a then .error failure else .ok (result a)) :
    (each f as).outcome = if as.any fails then .error failure else .ok (as.map result) := by
  induction as with
  | nil => rfl
  | cons a as ih =>
    have ha := h a List.mem_cons_self
    have has := ih (fun b hb => h b (List.mem_cons_of_mem a hb))
    rw [each, outcome_bind, ha, List.any_cons]
    cases hf : fails a with
    | true => rfl
    | false =>
      have hrest : (each f as >>= fun bs => (return result a :: bs : Report ε (List β))).outcome =
          if as.any fails then .error failure else .ok (result a :: as.map result) := by
        rw [outcome_bind, has]
        split_ifs <;> rfl
      simpa [Except.bind] using hrest

end Report

namespace Ast

/-! ## Levels -/

/-- Some visited node lies that many visit steps below the node. -/
def reaches : (steps : Nat) → Ast → Bool
  | 0, _ => true
  | steps + 1, n => n.visited.any (reaches steps)

theorem reaches_succ_iff {steps : Nat} {n : Ast} :
    n.reaches (steps + 1) = true ↔ ∃ m ∈ n.visited, m.reaches steps = true := by
  rw [reaches, List.any_eq_true]

/-- What is reached at a level is reached at every level above. -/
theorem reaches_of_succ {steps : Nat} {n : Ast} (h : n.reaches (steps + 1) = true) :
    n.reaches steps = true := by
  induction steps generalizing n with
  | zero => rfl
  | succ steps ih =>
    obtain ⟨m, hm, hreaches⟩ := reaches_succ_iff.1 h
    exact reaches_succ_iff.2 ⟨m, hm, ih hreaches⟩

theorem reaches_of_add {steps : Nat} {n : Ast} (more : Nat)
    (h : n.reaches (steps + more) = true) : n.reaches steps = true := by
  induction more with
  | zero => exact h
  | succ more ih => exact ih (reaches_of_succ h)

/-! ## Outlines -/

theorem outcome_noteDefect (n : Ast) : n.noteDefect.outcome = .ok () := by
  unfold noteDefect
  cases n.malformed? <;> rfl

/-- An outline fails exactly when the level behind its budget is reached, and names that level. -/
theorem outcome_outlineAt (limit : Int) (budget depth : Nat) (n : Ast) :
    (n.outlineAt limit budget depth).outcome =
      if n.reaches budget then .error (.tooDeep (depth + budget : Nat) limit)
      else .ok n.program := by
  induction budget generalizing depth n with
  | zero => rfl
  | succ budget ih =>
    have hv : ∀ m ∈ n.visited, (outlineAt limit budget (depth + 1) m).outcome =
        if m.reaches budget then .error (.tooDeep (depth + (budget + 1) : Nat) limit)
        else .ok m.program := by
      intro m _
      rw [ih, Nat.add_right_comm, Nat.add_assoc]
    rw [outlineAt_succ, Report.outcome_bind, outcome_noteDefect]
    simp only [Except.bind]
    rw [Report.outcome_bind, Report.outcome_each hv, reaches, program_eq_assemble]
    split_ifs <;> rfl

end Ast

/-- A flowchart is not drawn exactly when the first level beyond the limit is reached, and otherwise
    it is the layout of the program. -/
theorem Flowchart.outcome_ofAst (limit : Int) (root : Ast) :
    (Flowchart.ofAst limit root).outcome =
      if root.reaches (limit + 1).toNat then .error (.tooDeep (limit + 1).toNat limit)
      else .ok (ofProgram root.program
        ((root.outline limit).events.filterMap Event.malformed?)) := by
  have houtline : (root.outline limit).outcome = if root.reaches (limit + 1).toNat then
      .error (.tooDeep (limit + 1).toNat limit) else .ok root.program := by
    rw [Ast.outline, Ast.outcome_outlineAt, Nat.zero_add]
  unfold ofAst
  rw [Report.outcome_bind, houtline]
  split_ifs <;> rfl

end FlowSketch
