import FlowSketch.Proofs.Chart.Listing

/-!
# Outlines level by level

However a node is read, three things happen: what it lacks is recorded, the nodes that are visited
from it are read in order, and its statement is put together from theirs. What an outline does is
proved from this one equation, by induction on how many levels are left.

* `Ast.assemble` — the statement of a node from those of the nodes visited from it.

Results:

* `Report.each_append`: reports for one list after the other.
* `Ast.program_eq_assemble`: the program of a node is put together from theirs.
* `Ast.outlineAt_succ`: so is an outline, level by level.
-/

namespace FlowSketch

/-! ## Reports -/

namespace Report

variable {ε α β γ : Type}

theorem id_map_eq (x : Report ε α) : id <$> x = x := by
  obtain ⟨events, outcome⟩ := x
  cases outcome with
  | error e => rfl
  | ok a =>
    show (⟨events ++ [], .ok a⟩ : Report ε α) = _
    rw [List.append_nil]

theorem bind_bind_eq (x : Report ε α) (f : α → Report ε β) (g : β → Report ε γ) :
    x >>= f >>= g = x >>= fun a => f a >>= g := by
  obtain ⟨events, outcome⟩ := x
  cases outcome with
  | error e => rfl
  | ok a => cases h : (f a).outcome <;> simp [bind, h]

instance : LawfulMonad (Report ε) :=
  LawfulMonad.mk' (Report ε) id_map_eq (fun _ _ => rfl) bind_bind_eq

theorem each_singleton (f : α → Report ε β) (a : α) :
    each f [a] = f a >>= fun b => pure [b] := rfl

theorem each_append (f : α → Report ε β) (as bs : List α) :
    each f (as ++ bs) = each f as >>= fun xs => each f bs >>= fun ys => pure (xs ++ ys) := by
  induction as with
  | nil => exact (bind_pure _).symm
  | cons a as ih =>
    rw [List.cons_append, each, ih, each]
    simp only [bind_assoc, pure_bind, List.cons_append]

end Report

/-! ## One level -/

namespace Ast

/-- The statement of a node, put together from those of the nodes that are visited from it. -/
def assemble (n : Ast) (stmts : List Stmt) : Stmt :=
  match n.kind with
  | .functionDef =>
    .function n.label (if (n.child? .body).isSome then stmts.headD (.block []) else .block stmts)
  | .compoundBlock | .elseClause => .block stmts
  | .ifStmt =>
    .branch n.label (if (n.child? .body).isSome then stmts.headD (.block []) else .block [])
      (if (n.child? .elseBranch).isSome then stmts.getLastD (.block []) else .block [])
  | kind =>
    match kind.loopForm? with
    | some form => .loop form n.label (stmts.headD (.block []))
    | none => .step (actionOf kind) n.label

/-- The program of a node is put together from those of the nodes that are visited from it. -/
theorem program_eq_assemble (n : Ast) : n.program = n.assemble (n.visited.map program) := by
  rcases n.kind_cases with hk | hk | hk | ⟨form, hk⟩ | hk
  · rw [program_step hk]
    cases h : n.kind <;> simp_all [Kind.isStep, assemble, Kind.loopForm?]
  · rw [program_sequence hk, visited_of_sequence hk]
    rcases hk with hk | hk <;> simp only [assemble, hk]
  · rw [program_ifStmt hk, visited_of_ifStmt hk]
    unfold slotProgram
    cases hb : n.child? .body <;> cases he : n.child? .elseBranch <;>
      simp [assemble, hk, hb, he]
  · rw [program_loop hk, bodyProgram_of_loop hk, visited_of_loop hk]
    unfold slotProgram
    cases h : n.kind <;> cases hb : n.child? .body <;> simp_all [assemble, Kind.loopForm?]
  · rw [program_functionDef hk, visited_of_functionDef hk]
    unfold bodyProgram bodyOrChildren
    cases hb : n.child? .body <;> simp [assemble, members, hk, hb]

/-- A node of one of these kinds lacks nothing. -/
theorem noteDefect_eq_pure {n : Ast} (h : n.kind.isStep = true ∨ n.kind = .compoundBlock ∨
    n.kind = .elseClause) : n.noteDefect = pure () := by
  have hdefect : n.defect? = none := by
    cases hk : n.kind <;> simp_all [Kind.isStep, defect?]
  rw [noteDefect, malformed?, hdefect]
  rfl

section Outline

variable {visit : Ast → Report Failure Stmt}

theorem outlineSlot_eq_each (n : Ast) (slot : Slot) : outlineSlot visit n slot = do
    let stmts ← Report.each visit (n.child? slot).toList
    return stmts.headD (.block []) := by
  unfold outlineSlot
  cases n.child? slot with
  | none => rfl
  | some child =>
    show visit child = (visit child >>= fun s => pure [s]) >>= _
    simp only [bind_assoc, pure_bind, List.headD_cons, bind_pure]

theorem outlineLoop_eq_each {n : Ast} {form : LoopForm} (hk : n.kind.loopForm? = some form) :
    outlineLoop visit n form = do
      n.noteDefect
      let stmts ← Report.each visit n.visited
      return n.assemble stmts := by
  have hassemble : ∀ stmts, n.assemble stmts = .loop form n.label (stmts.headD (.block [])) := by
    intro stmts
    cases h : n.kind <;> simp_all [assemble, Kind.loopForm?]
  simp only [outlineLoop, outlineSlot_eq_each, visited_of_loop hk, hassemble, bind_assoc,
    pure_bind]

end Outline

/-- One level of an outline: what the node lacks is recorded, then the nodes that are visited from
    it are read in order, and the statement is put together from theirs. -/
theorem outlineAt_succ (limit : Int) (budget depth : Nat) (n : Ast) :
    n.outlineAt limit (budget + 1) depth = do
      n.noteDefect
      let stmts ← Report.each (outlineAt limit budget (depth + 1)) n.visited
      return n.assemble stmts := by
  cases hk : n.kind <;> simp only [outlineAt, hk]
  case functionDef =>
    unfold outlineBody
    rw [visited_of_functionDef hk, bodyOrChildren]
    cases hb : n.child? .body <;>
      simp [assemble, hk, hb, Report.each_singleton]
  case compoundBlock =>
    rw [noteDefect_eq_pure (by simp [hk]), pure_bind, visited_of_sequence (.inl hk)]
    simp only [assemble, members, hk]
  case elseClause =>
    rw [noteDefect_eq_pure (by simp [hk]), pure_bind, visited_of_sequence (.inr hk)]
    cases hb : n.child? .body <;>
      simp [assemble, members, hk, hb, Report.each_singleton]
  case ifStmt =>
    rw [visited_of_ifStmt hk, outlineSlot_eq_each, outlineSlot_eq_each, Report.each_append]
    cases hb : n.child? .body <;> cases he : n.child? .elseBranch <;>
      simp [assemble, hk, hb, he, Report.each]
  case forLoop => exact outlineLoop_eq_each (by rw [hk]; rfl)
  case whileLoop => exact outlineLoop_eq_each (by rw [hk]; rfl)
  case doWhile => exact outlineLoop_eq_each (by rw [hk]; rfl)
  all_goals
    rw [noteDefect_eq_pure (by simp [hk, Kind.isStep]), pure_bind,
      visited_of_step (by rw [hk]; rfl)]
    simp only [assemble, hk]
    rfl

end Ast

end FlowSketch
