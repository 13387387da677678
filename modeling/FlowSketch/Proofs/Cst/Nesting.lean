import FlowSketch.Proofs.Chart.Depth
import FlowSketch.Proofs.Cst.Expression

/-!
# How deep a source nests

Reading a source and drawing its tree each have their own guard against deep nesting. The reader
counts the statements of the grammar, the builder counts what it visits, an expression that stands
in the place of a statement included. So a source that is read nests at most one level too deep to
be drawn, and it does so exactly when the last level is such an expression.

* `Cst.flowParts` — the nodes inside a statement that control flows on to.
* `Cst.overhangs` — an expression stands in the place of a statement so many levels below a node.

Results:

* `Cst.statement_parts`: what is visited of the tree of a statement are the trees of its parts.
* `Cst.reaches_of_astAt`: a tree that is read within a budget of levels reaches the level behind it
  exactly where an expression overhangs, and none beyond.
-/

namespace FlowSketch

namespace Ast

/-- The node without its slots, so that no child stands out from the others. -/
def bare (n : Ast) : Ast := { n with slots := {} }

theorem reaches_of_isStep {n : Ast} (h : n.kind.isStep = true) (steps : Nat) :
    n.reaches (steps + 1) = false := by
  rw [reaches, visited_of_step h, List.any_nil]

end Ast

namespace Cst

/-! ## Levels of a source -/

/-- The nodes inside a statement that control flows on to. The statement inside an expression
    statement is no part of it, but lends it its own parts. -/
def flowParts (n : Cst) : List Cst :=
  match n.form with
  | .block => n.content
  | .template => n.content.filter (fun c => c.type != "template_parameter_list")
  | .scope | .function | .forLoop | .rangeLoop | .whileLoop | .doLoop => (n.child? "body").toList
  | .ifStmt => (n.child? "consequence").toList ++ (n.child? "alternative").toList
  | .elseClause => n.content.head?.toList
  | _ => []

/-- An expression stands in the place of a statement that many levels below the node. -/
def overhangs : (levels : Nat) → Cst → Bool
  | 0, n => !n.isStatement
  | levels + 1, n => n.flowParts.any (overhangs levels)

theorem flowParts_of_not_isStatement {n : Cst} (h : n.isStatement = false) : n.flowParts = [] := by
  unfold isStatement at h
  unfold flowParts
  cases hf : n.form <;> simp_all [Form.isStatement]

/-! ## The tree of a statement -/

section

variable {bytes : List UInt8} {visit : Cst → Except Failure Ast}

theorem visited_function (n : Cst) (body : Option Ast) (name : Option String) :
    (n.node bytes .functionDef { body } [] name).visited = body.toList := by
  cases body <;> rfl

theorem visited_elseClause (n : Cst) (ms : List Ast) :
    (n.node bytes .elseClause { body := ms.head? } ms.tail).visited = ms.head?.toList := by
  cases ms <;> rfl

theorem visited_ifStmt (n : Cst) (filled : Slots Ast) :
    (n.node bytes .ifStmt filled []).visited = filled.body.toList ++ filled.elseBranch.toList := by
  simp only [node, Ast.visited, Ast.child?_ofParts]
  rfl

theorem visited_loop (n : Cst) {kind : Kind} (hk : kind.isLoop = true) (filled : Slots Ast)
    (others : List Ast) : (n.node bytes kind filled others).visited = filled.body.toList := by
  cases kind <;> simp only [Kind.isLoop, Bool.false_eq_true] at hk
  all_goals
    simp only [node, Ast.visited, Ast.child?_ofParts]
    rfl

theorem visited_bare_of_isLoop {n : Ast} (h : n.kind.isLoop = true) : n.bare.visited = [] := by
  cases hk : n.kind <;> simp_all [Kind.isLoop, Ast.bare, Ast.visited, Ast.child?, Slots.get]

theorem forall₂_exists {α β : Type} {R : α → β → Prop} {as : List α} {bs : List β}
    (h : List.Forall₂ R as bs) : (∀ a ∈ as, ∃ b ∈ bs, R a b) ∧ ∀ b ∈ bs, ∃ a ∈ as, R a b := by
  induction h with
  | nil => simp
  | cons hab _ ih =>
    simp only [List.forall_mem_cons, List.exists_mem_cons_iff]
    exact ⟨⟨.inl hab, fun a ha => .inr (ih.1 a ha)⟩, .inl hab, fun b hb => .inr (ih.2 b hb)⟩

theorem exists_of_mem_right {α β : Type} {R : α → β → Prop} {as : List α} {bs : List β}
    (h : List.Forall₂ R as bs) : ∀ b ∈ bs, ∃ a, R a b := by
  intro b hb
  obtain ⟨a, -, hab⟩ := (forall₂_exists h).2 b hb
  exact ⟨a, hab⟩

theorem forall₂_head? {α β : Type} {R : α → β → Prop} {as : List α} {bs : List β}
    (h : List.Forall₂ R as bs) : List.Forall₂ R as.head?.toList bs.head?.toList := by
  cases h with
  | nil => exact .nil
  | cons hab _ => exact .cons hab .nil

/-- What is visited of the tree of a statement are the trees of its parts, and without its slots
    nothing is visited but trees of nodes inside it. -/
theorem statement_parts {n : Cst} {tree : Ast} (hs : n.isStatement = true)
    (hf : n.form ≠ .expressionStmt) (h : n.statement bytes visit = .ok tree) :
    List.Forall₂ (fun c m => visit c = .ok m) n.flowParts tree.visited ∧
      ∀ m ∈ tree.bare.visited, ∃ c, visit c = .ok m := by
  unfold statement at h
  unfold isStatement at hs
  unfold flowParts
  cases hform : n.form <;>
    simp only [hform, Form.isStatement, Bool.false_eq_true, ne_eq, not_true_eq_false, conditional,
      statements, expressions, part, bind_eq_ok_iff, pure, Except.pure, Except.ok.injEq]
      at hs hf h ⊢
  case block =>
    obtain ⟨children, hchildren, rfl⟩ := h
    exact ⟨visitAll_eq_ok_iff.1 hchildren, exists_of_mem_right (visitAll_eq_ok_iff.1 hchildren)⟩
  case template =>
    obtain ⟨children, hchildren, rfl⟩ := h
    exact ⟨visitAll_eq_ok_iff.1 hchildren, exists_of_mem_right (visitAll_eq_ok_iff.1 hchildren)⟩
  case scope =>
    obtain ⟨body, hbody, rfl⟩ := h
    exact ⟨visitOption_eq_ok_iff.1 hbody, exists_of_mem_right (visitOption_eq_ok_iff.1 hbody)⟩
  case function =>
    obtain ⟨body, hbody, rfl⟩ := h
    have hbody := visitOption_eq_ok_iff.1 hbody
    rw [visited_function]
    refine ⟨hbody, fun m hm => exists_of_mem_right hbody m ?_⟩
    cases body <;> exact hm
  case elseClause =>
    obtain ⟨children, hchildren, rfl⟩ := h
    have hchildren := visitAll_eq_ok_iff.1 hchildren
    rw [visited_elseClause]
    refine ⟨forall₂_head? hchildren, fun m hm => exists_of_mem_right hchildren m ?_⟩
    cases children <;> exact hm
  case ifStmt =>
    obtain ⟨condition, -, body, hbody, elseBranch, helse, rfl⟩ := h
    rw [visited_ifStmt]
    exact ⟨List.rel_append (visitOption_eq_ok_iff.1 hbody) (visitOption_eq_ok_iff.1 helse),
      fun m hm => absurd hm List.not_mem_nil⟩
  case forLoop =>
    obtain ⟨_, -, _, -, _, -, body, hbody, rfl⟩ := h
    rw [visited_loop n rfl, visited_bare_of_isLoop rfl]
    exact ⟨visitOption_eq_ok_iff.1 hbody, by simp⟩
  case rangeLoop =>
    obtain ⟨_, -, body, hbody, rfl⟩ := h
    rw [visited_loop n rfl, visited_bare_of_isLoop rfl]
    exact ⟨visitOption_eq_ok_iff.1 hbody, by simp⟩
  case whileLoop =>
    obtain ⟨_, -, body, hbody, rfl⟩ := h
    rw [visited_loop n rfl, visited_bare_of_isLoop rfl]
    exact ⟨visitOption_eq_ok_iff.1 hbody, by simp⟩
  case doLoop =>
    obtain ⟨_, -, body, hbody, rfl⟩ := h
    rw [visited_loop n rfl, visited_bare_of_isLoop rfl]
    exact ⟨visitOption_eq_ok_iff.1 hbody, by simp⟩
  case switchStmt =>
    obtain ⟨_, -, _, -, rfl⟩ := h
    exact ⟨.nil, fun m hm => absurd hm List.not_mem_nil⟩
  case returnStmt =>
    obtain ⟨_, -, rfl⟩ := h
    exact ⟨.nil, fun m hm => absurd hm List.not_mem_nil⟩
  case declaration =>
    obtain ⟨_, -, rfl⟩ := h
    exact ⟨.nil, fun m hm => absurd hm List.not_mem_nil⟩

/-- An expression statement is visited like what a single expression lends it, without its slots. -/
theorem visited_expressionStmt {n : Cst} {tree : Ast}
    (h : n.expressionStmt bytes visit = .ok tree) : tree.bare = tree ∧
      (tree.visited = [] ∨ ∃ c m, visit c = .ok m ∧ tree.visited = m.bare.visited) := by
  unfold expressionStmt at h
  split at h
  · next single _ =>
    rw [bind_eq_ok_iff] at h
    obtain ⟨m, hm, htree⟩ := h
    cases htree
    exact ⟨rfl, .inr ⟨single, m, hm, rfl⟩⟩
  · rw [bind_eq_ok_iff] at h
    obtain ⟨children, -, htree⟩ := h
    cases htree
    exact ⟨rfl, .inl rfl⟩

end

/-! ## Whole trees -/

section

variable {bytes : List UInt8} {limit : Int} {budget depth : Nat} {n : Cst} {tree : Ast}

theorem isStep_kind_of_astAt (hs : n.isStatement = false)
    (h : n.astAt bytes limit budget depth = .ok tree) : tree.kind.isStep = true := by
  cases budget <;> rw [astAt, if_neg (by simp [hs])] at h <;>
    exact isStep_kind_of_expression _ _ hs h

theorem isStatement_of_astAt_zero (h : n.astAt bytes limit 0 depth = .ok tree) :
    n.isStatement = false := by
  cases hs : n.isStatement with
  | false => rfl
  | true =>
    rw [astAt, if_pos hs] at h
    exact absurd h (by simp)

theorem any_visited_eq {p : Ast → Bool} {q : Cst → Bool} {visit : Cst → Except Failure Ast}
    (hpq : ∀ c m, visit c = .ok m → p m = q c) {cs : List Cst} {ms : List Ast}
    (h : List.Forall₂ (fun c m => visit c = .ok m) cs ms) : ms.any p = cs.any q := by
  induction h with
  | nil => rfl
  | cons hcm _ ih => rw [List.any_cons, List.any_cons, hpq _ _ hcm, ih]

/-- A tree that is read within a budget of levels reaches the level behind it exactly where an
    expression overhangs, and none beyond; nor would it without the slots of its root. -/
theorem reaches_of_astAt (h : n.astAt bytes limit budget depth = .ok tree) :
    tree.reaches budget = n.overhangs budget ∧ tree.reaches (budget + 1) = false ∧
      tree.bare.reaches (budget + 1) = false := by
  induction budget generalizing depth n tree with
  | zero =>
    have hs := isStatement_of_astAt_zero h
    have hk := isStep_kind_of_astAt hs h
    refine ⟨?_, Ast.reaches_of_isStep hk 0, Ast.reaches_of_isStep (n := tree.bare) hk 0⟩
    rw [Ast.reaches, overhangs, hs]
    rfl
  | succ budget ih =>
    cases hs : n.isStatement with
    | false =>
      have hk := isStep_kind_of_astAt hs h
      refine ⟨?_, Ast.reaches_of_isStep hk _, Ast.reaches_of_isStep (n := tree.bare) hk _⟩
      rw [Ast.reaches_of_isStep hk, overhangs, flowParts_of_not_isStatement hs, List.any_nil]
    | true =>
      rw [astAt, if_pos hs] at h
      by_cases hf : n.form = .expressionStmt
      · -- What the single expression lends stands one level higher than it was read.
        have hoverhangs : n.overhangs (budget + 1) = false := by
          simp [overhangs, flowParts, hf]
        rw [statement, hf] at h
        obtain ⟨hbare, hvisited⟩ := visited_expressionStmt h
        have hreaches : tree.reaches (budget + 1) = false := by
          rw [Ast.reaches]
          rcases hvisited with hnone | ⟨c, m, hm, hlent⟩
          · rw [hnone, List.any_nil]
          · rw [hlent]
            exact (ih hm).2.2
        have hbeyond : tree.reaches (budget + 1 + 1) = false := by
          rw [← Bool.not_eq_true]
          intro hcontra
          exact absurd (Ast.reaches_of_succ hcontra) (by simp [hreaches])
        exact ⟨hreaches.trans hoverhangs.symm, hbeyond, hbare.symm ▸ hbeyond⟩
      · obtain ⟨hparts, hbare⟩ := statement_parts hs hf h
        refine ⟨any_visited_eq (fun c m hm => (ih hm).1) hparts, ?_, ?_⟩
        · rw [Ast.reaches, any_visited_eq (q := fun _ => false) (fun c m hm => (ih hm).2.1) hparts]
          simp
        · rw [Ast.reaches, List.any_eq_false]
          intro m hm
          obtain ⟨c, hc⟩ := hbare m hm
          simp [(ih hc).2.1]

end

end Cst

end FlowSketch
