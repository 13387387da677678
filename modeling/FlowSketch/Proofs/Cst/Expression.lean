import FlowSketch.Cst.Parse
import FlowSketch.Proofs.Program.Reading
import Mathlib.Data.List.Forall2

/-!
# Expressions by recursion

The tree of an expression is built with a stack. Here it is built by recursion: first the operands,
from the left to the right, and then the node itself. Whatever else is on the stack, and whatever
is built already, the steps of an expression leave its tree on top of what is built.

* `Cst.exprTree` — the tree of an expression by recursion.

Results:

* `Cst.visitAll_eq_ok_iff`: several nodes succeed exactly when each of them does.
* `Cst.build_begin`: beginning a node leaves its tree on top of the trees built before.
* `Cst.expression_eq_exprTree`: hence the stack gives the tree of the recursion.
* `Cst.isStep_kind_of_expression`: the tree of an expression is drawn as one step.
-/

namespace FlowSketch

/-! ## Failures in sequence -/

theorem bind_eq_ok_iff {ε α β : Type} {x : Except ε α} {f : α → Except ε β} {b : β} :
    (x >>= f) = .ok b ↔ ∃ a, x = .ok a ∧ f a = .ok b := by
  cases x with
  | error e => simp [bind, Except.bind]
  | ok a => simp [bind, Except.bind]

namespace Cst

section

variable {visit : Cst → Except Failure Ast}

/-- Several nodes succeed exactly when each of them does. -/
theorem visitAll_eq_ok_iff {cs : List Cst} {trees : List Ast} :
    visitAll visit cs = .ok trees ↔ List.Forall₂ (fun c tree => visit c = .ok tree) cs trees := by
  induction cs generalizing trees with
  | nil => simp [visitAll, List.forall₂_nil_left_iff, eq_comm]
  | cons c cs ih =>
    rw [visitAll, bind_eq_ok_iff, List.forall₂_cons_left_iff]
    refine exists_congr fun tree => ?_
    simp only [bind_eq_ok_iff, ih, pure, Except.pure, Except.ok.injEq]
    constructor
    · rintro ⟨hc, rest, hrest, rfl⟩
      exact ⟨rest, hc, hrest, rfl⟩
    · rintro ⟨rest, hc, hrest, rfl⟩
      exact ⟨hc, rest, hrest, rfl⟩

theorem visitOption_eq_ok_iff {c? : Option Cst} {tree? : Option Ast} :
    visitOption visit c? = .ok tree? ↔
      List.Forall₂ (fun c tree => visit c = .ok tree) c?.toList tree?.toList := by
  cases c? with
  | none => cases tree? <;> simp [visitOption]
  | some c =>
    rw [visitOption, bind_eq_ok_iff]
    cases tree? <;> simp [pure, Except.pure]

end

/-! ## The recursion -/

section

variable (bytes : List UInt8) (onStatement : Cst → Except Failure Ast)

/-- The tree of an expression, its operands from the left to the right. A statement inside it is
    handed to `onStatement`. -/
def exprTree (n : Cst) : Except Failure Ast :=
  if n.isStatement then onStatement n
  else do
    let operands ← n.operands.attach.mapM (fun c => exprTree c.1)
    return n.expressionNode bytes operands
termination_by n.size
decreasing_by
  have := size_le_sizeAll c.2
  have := sizeAll_operands_lt n
  omega

theorem visitAll_eq_mapM (visit : Cst → Except Failure Ast) (cs : List Cst) :
    visitAll visit cs = cs.mapM visit := by
  induction cs with
  | nil => rfl
  | cons c cs ih => rw [visitAll, List.mapM_cons, ih]

theorem exprTree_of_not_isStatement {n : Cst} (h : n.isStatement = false) :
    n.exprTree bytes onStatement = (do
      let operands ← visitAll (exprTree bytes onStatement) n.operands
      return n.expressionNode bytes operands) := by
  rw [exprTree, if_neg (by simp [h]), visitAll_eq_mapM,
    List.mapM_subtype (g := exprTree bytes onStatement) (fun _ _ => rfl), List.unattach_attach]

/-! ## The stack -/

theorem build_begins {ns : List Cst}
    (hns : ∀ n ∈ ns, ∀ rest built, build bytes onStatement (.begin n :: rest) built =
      (do
        let tree ← n.exprTree bytes onStatement
        build bytes onStatement rest (tree :: built)))
    (rest : List Step) (built : List Ast) :
    build bytes onStatement (ns.map .begin ++ rest) built = (do
      let trees ← visitAll (exprTree bytes onStatement) ns
      build bytes onStatement rest (trees.reverse ++ built)) := by
  induction ns generalizing built with
  | nil => rfl
  | cons n ns ih =>
    rw [List.map_cons, List.cons_append, hns n List.mem_cons_self, visitAll]
    cases n.exprTree bytes onStatement with
    | error failure => rfl
    | ok tree =>
      show build bytes onStatement (ns.map .begin ++ rest) (tree :: built) = _
      rw [ih (fun m hm => hns m (List.mem_cons_of_mem n hm))]
      cases visitAll (exprTree bytes onStatement) ns with
      | error failure => rfl
      | ok trees =>
        show build bytes onStatement rest (trees.reverse ++ tree :: built) =
          build bytes onStatement rest ((tree :: trees).reverse ++ built)
        rw [List.reverse_cons, List.append_assoc, List.singleton_append]

/-- Beginning a node leaves its tree on top of the trees built before, and goes on with the rest of
    the stack. -/
theorem build_begin (n : Cst) (rest : List Step) (built : List Ast) :
    build bytes onStatement (.begin n :: rest) built = (do
      let tree ← n.exprTree bytes onStatement
      build bytes onStatement rest (tree :: built)) := by
  -- Neither the rest of the stack nor what is built is fixed, so that the hypothesis holds for each
  -- operand where its turn comes.
  induction hsize : n.size using Nat.strongRecOn generalizing n rest built with
  | ind size ih =>
    cases hs : n.isStatement with
    | true =>
      rw [build, if_pos hs, exprTree, if_pos hs]
      cases onStatement n <;> rfl
    | false =>
      have hoperands : ∀ m ∈ n.operands, ∀ rest built,
          build bytes onStatement (.begin m :: rest) built = (do
            let tree ← m.exprTree bytes onStatement
            build bytes onStatement rest (tree :: built)) := by
        intro m hm rest built
        have := size_le_sizeAll hm
        have := sizeAll_operands_lt n
        exact ih m.size (by omega) m rest built rfl
      rw [build, if_neg (by simp [hs]), exprTree_of_not_isStatement bytes onStatement hs,
        build_begins bytes onStatement hoperands]
      cases htrees : visitAll (exprTree bytes onStatement) n.operands with
      | error failure => rfl
      | ok trees =>
        -- The finished node takes up the trees of its own operands and no other.
        have hlen : n.operands.length = trees.reverse.length := by
          rw [(visitAll_eq_ok_iff.1 htrees).length_eq, List.length_reverse]
        show build bytes onStatement (.finish n :: rest) (trees.reverse ++ built) =
          build bytes onStatement rest (n.expressionNode bytes trees :: built)
        rw [build]
        simp only [hlen, List.take_left, List.drop_left, List.reverse_reverse]

/-- The stack gives the tree of the recursion. -/
theorem expression_eq_exprTree (n : Cst) :
    n.expression bytes onStatement = n.exprTree bytes onStatement := by
  rw [expression, build_begin]
  cases n.exprTree bytes onStatement with
  | error failure => rfl
  | ok tree =>
    show (do
      let built ← build bytes onStatement [] [tree]
      return built.getLastD (n.expressionNode bytes [])) = Except.ok tree
    rw [build]
    rfl

/-- The tree of an expression is drawn as one step. -/
theorem isStep_kind_of_expression {n : Cst} {tree : Ast} (hs : n.isStatement = false)
    (h : n.expression bytes onStatement = .ok tree) : tree.kind.isStep = true := by
  rw [expression_eq_exprTree, exprTree_of_not_isStatement bytes onStatement hs,
    bind_eq_ok_iff] at h
  obtain ⟨operands, -, hnode⟩ := h
  cases hnode
  unfold expressionNode
  cases n.form <;> rfl

end

end Cst

end FlowSketch
