import FlowSketch.Proofs.Cst.Calls
import FlowSketch.Proofs.Cst.Levels

/-!
# How large trees get

Every node that is read adds nodes of its own to the tree: most add one, the header of a loop over a
range adds another, and an expression statement with a single expression lends its place to that. So
the number of nodes of a tree can be told before it is read.

* `Cst.ownSize`, `Cst.treeSize` — the nodes that a node adds, alone and with its parts.

Results:

* `Cst.length_preorder_astFrom`: the tree of a node has that many nodes.
* `Cst.treeSize_pos`: no tree is without a node.
* `Cst.fits_of_size`: with as many levels as there are nodes, nothing is too deep.
-/

namespace FlowSketch

/-! ## Counting nodes -/

namespace Ast

/-- The number of nodes of some trees. -/
def total (trees : List Ast) : Nat := (trees.map (fun m => m.preorder.length)).sum

theorem length_preorder_eq (n : Ast) : n.preorder.length = 1 + total n.children := by
  rw [preorder_eq, preorderAll_eq_flatMap, List.length_cons, List.length_flatMap, Nat.add_comm]
  rfl

@[simp] theorem total_nil : total [] = 0 := rfl

@[simp] theorem total_append (trees others : List Ast) :
    total (trees ++ others) = total trees + total others := by
  rw [total, List.map_append, List.sum_append]
  rfl

@[simp] theorem total_singleton (n : Ast) : total [n] = n.preorder.length := by
  simp [total]

@[simp] theorem total_toList_empty : total ({} : Slots Ast).toList = 0 := rfl

theorem total_toList (filled : Slots Ast) : total filled.toList =
    total filled.init.toList + total filled.condition.toList + total filled.increment.toList +
      total filled.body.toList + total filled.elseBranch.toList := by
  have hall : filled.toList = filled.init.toList ++ filled.condition.toList ++
      filled.increment.toList ++ filled.body.toList ++ filled.elseBranch.toList := by
    rw [Slots.toList, List.filterMap_eq_flatMap_toList]
    simp [Slot.all, Slots.get]
  rw [hall]
  simp only [total_append]

theorem total_head?_append_tail (trees : List Ast) :
    total trees.head?.toList + total trees.tail = total trees := by
  cases trees with
  | nil => rfl
  | cons n trees => rw [← List.singleton_append, total_append]; rfl

end Ast

namespace Cst

open Ast (total length_preorder_eq)

/-- The number of nodes that a node adds to a tree, besides those of its parts. -/
def ownSize (n : Cst) : Nat :=
  match n.form with
  | .rangeLoop => 2
  | .expressionStmt => if n.content.length = 1 then 0 else 1
  | _ => 1

/-- The number of nodes that a node adds to a tree, with all that is read of it. -/
def treeSize (n : Cst) : Nat := n.ownSize + (n.parts.attach.map (fun c => treeSize c.1)).sum
termination_by n.size
decreasing_by exact size_lt_of_mem_parts c.1 c.2

variable {n c : Cst} {bytes : List UInt8} {visit : Cst → Except Failure Ast}

theorem treeSize_eq (n : Cst) : n.treeSize = n.ownSize + (n.parts.map treeSize).sum := by
  rw [treeSize, List.map_subtype (g := treeSize) (fun _ _ => rfl), List.unattach_attach]

/-! ## Trees of parts -/

/-- The trees of the parts have as many nodes as they should. -/
def SizedParts (visit : Cst → Except Failure Ast) (n : Cst) : Prop :=
  ∀ c ∈ n.parts, ∀ m, visit c = .ok m → m.preorder.length = c.treeSize

theorem total_of_forall₂ {cs : List Cst} {trees : List Ast}
    (hsized : ∀ c ∈ cs, ∀ m, visit c = .ok m → m.preorder.length = c.treeSize)
    (h : List.Forall₂ (fun c tree => visit c = .ok tree) cs trees) :
    total trees = (cs.map treeSize).sum := by
  induction h with
  | nil => rfl
  | @cons c tree cs trees hc _ ih =>
    obtain ⟨hsize, hrest⟩ := List.forall_mem_cons.1 hsized
    rw [List.map_cons, List.sum_cons, ← ih hrest, ← hsize tree hc]
    rfl

theorem total_visitAll {cs : List Cst} {trees : List Ast}
    (hsized : ∀ c ∈ cs, ∀ m, visit c = .ok m → m.preorder.length = c.treeSize)
    (h : visitAll visit cs = .ok trees) : total trees = (cs.map treeSize).sum :=
  total_of_forall₂ hsized (visitAll_eq_ok_iff.1 h)

theorem total_visitOption {c? : Option Cst} {tree? : Option Ast}
    (hsized : ∀ c ∈ c?, ∀ m, visit c = .ok m → m.preorder.length = c.treeSize)
    (h : visitOption visit c? = .ok tree?) :
    total tree?.toList = (c?.toList.map treeSize).sum :=
  total_of_forall₂ (fun c hc => hsized c (Option.mem_toList.1 hc)) (visitOption_eq_ok_iff.1 h)

/-- The number of nodes of a statement's tree. -/
theorem length_preorder_node (n : Cst) (kind : Kind) (filled : Slots Ast) (others : List Ast)
    (name : Option String) : (n.node bytes kind filled others name).preorder.length =
      1 + total filled.toList + total others := by
  rw [length_preorder_eq]
  show 1 + total (filled.toList ++ others) = _
  rw [Ast.total_append, Nat.add_assoc]

/-- The parts of a statement, by the fields that they fill. -/
theorem parts_of_isStatement (hs : n.isStatement = true) : n.parts = n.members ++
    n.form.fields.flatMap (fun f => (n.child? f).toList) ++
      if n.form.unwraps then n.condition?.toList else [] := by
  have hcall : n.form ≠ .call := fun hcall => by
    rw [isStatement, hcall] at hs
    exact absurd hs (by decide)
  rw [parts, if_neg hcall, List.append_nil, List.filterMap_eq_flatMap_toList]

/-- A statement of a single expression takes over all that is below the tree of the expression. -/
theorem length_preorder_expressionStmt {tree : Ast} (hf : n.form = .expressionStmt)
    (hsized : ∀ c ∈ n.members, ∀ m, visit c = .ok m → m.preorder.length = c.treeSize)
    (h : n.expressionStmt bytes visit = .ok tree) :
    tree.preorder.length = n.ownSize + (n.members.map treeSize).sum := by
  rw [members_expressionStmt hf] at hsized ⊢
  simp only [ownSize, hf]
  by_cases hone : n.content.length = 1
  · rw [if_pos hone] at hsized ⊢
    obtain ⟨single, hsingle⟩ := List.length_eq_one_iff.1 hone
    rw [hsingle] at hsized ⊢
    rw [expressionStmt_of_content hsingle] at h
    obtain ⟨m, hm, htree⟩ := bind_eq_ok_iff.1 h
    cases htree
    have hsize := hsized single (List.mem_singleton_self single) m hm
    rw [length_preorder_eq] at hsize
    rw [length_preorder_node]
    simpa using hsize
  · rw [if_neg hone] at hsized ⊢
    rw [expressionStmt_of_length_ne hone] at h
    obtain ⟨children, hchildren, htree⟩ := bind_eq_ok_iff.1 h
    cases htree
    rw [length_preorder_node, total_visitAll hsized hchildren, if_neg hone]
    rfl

/-- A statement adds its own nodes to those of its parts. -/
theorem length_preorder_statement {tree : Ast} (hs : n.isStatement = true)
    (hsized : SizedParts visit n) (h : n.statement bytes visit = .ok tree) :
    tree.preorder.length = n.ownSize + (n.parts.map treeSize).sum := by
  obtain ⟨hmembers, hfields, hcondition, -⟩ := forall_mem_parts_iff.1 hsized
  have hpart : ∀ f ∈ n.form.fields, ∀ tree?, part visit n f = .ok tree? →
      total tree?.toList = ((n.child? f).toList.map treeSize).sum :=
    fun f hf _ => total_visitOption (hfields f hf)
  have hcond : n.form.unwraps = true → ∀ tree?, conditionPart visit n = .ok tree? →
      total tree?.toList = (n.condition?.toList.map treeSize).sum :=
    fun hf _ => total_visitOption (hcondition hf)
  rw [parts_of_isStatement hs]
  by_cases hexpression : n.form = .expressionStmt
  · rw [statement, hexpression] at h
    simpa [hexpression, Form.fields, Form.unwraps] using
      length_preorder_expressionStmt hexpression hmembers h
  unfold members at hmembers ⊢
  unfold statement at h
  unfold isStatement at hs
  unfold ownSize
  cases hf : n.form <;>
    simp only [hf, Form.isStatement, Bool.false_eq_true, Form.fields, Form.unwraps, conditional,
      statements, expressions, bind_eq_ok_iff, pure, Except.pure, Except.ok.injEq,
      List.forall_mem_cons, List.not_mem_nil, false_implies, implies_true, and_true, if_true,
      if_false, true_implies, List.flatMap_cons, List.flatMap_nil, List.append_nil,
      List.nil_append, List.map_append, List.sum_append] at hs hmembers hpart hcond h ⊢
  case block | template | returnStmt | declaration =>
    obtain ⟨children, hchildren, rfl⟩ := h
    rw [length_preorder_node, total_visitAll hmembers hchildren]
    rfl
  case elseClause =>
    obtain ⟨children, hchildren, rfl⟩ := h
    have htotal := total_visitAll hmembers hchildren
    have hsplit := Ast.total_head?_append_tail children
    simp only [length_preorder_node, Ast.total_toList, Option.toList_none, Ast.total_nil]
    omega
  case scope =>
    obtain ⟨body, hbody, rfl⟩ := h
    rw [length_preorder_node, hpart body hbody]
    rfl
  case function =>
    obtain ⟨body, hbody, rfl⟩ := h
    have htotal := hpart body hbody
    simp only [length_preorder_node, Ast.total_toList, Option.toList_none, Ast.total_nil]
    omega
  case ifStmt =>
    obtain ⟨condition, hc, body, hbody, elseBranch, helse, rfl⟩ := h
    have hconditions := hcond condition hc
    have hbodies := hpart.1 body hbody
    have helses := hpart.2 elseBranch helse
    simp only [length_preorder_node, Ast.total_toList, Option.toList_none, Ast.total_nil]
    omega
  case forLoop =>
    obtain ⟨init, hinit, condition, hc, increment, hincrement, body, hbody, rfl⟩ := h
    have hinits := hpart.1 init hinit
    have hconditions := hpart.2.1 condition hc
    have hincrements := hpart.2.2.1 increment hincrement
    have hbodies := hpart.2.2.2 body hbody
    simp only [length_preorder_node, Ast.total_toList, Option.toList_none, Ast.total_nil]
    omega
  case rangeLoop =>
    obtain ⟨right, hright, body, hbody, rfl⟩ := h
    have hrights := hpart.1 right hright
    have hbodies := hpart.2 body hbody
    have hheader : ({ kind := .other, text := n.rangeHeader bytes, line := n.line } :
        Ast).preorder.length = 1 := rfl
    simp only [length_preorder_node, Ast.total_toList, Option.toList_none, Option.toList_some,
      Ast.total_nil, Ast.total_singleton, hheader]
    omega
  case whileLoop | doLoop | switchStmt =>
    obtain ⟨condition, hc, body, hbody, rfl⟩ := h
    have hconditions := hcond condition hc
    have hbodies := hpart body hbody
    simp only [length_preorder_node, Ast.total_toList, Option.toList_none, Ast.total_nil]
    omega
  case expressionStmt => exact absurd hf hexpression

/-! ## Trees of nodes -/

theorem ownSize_of_not_isStatement (hs : n.isStatement = false) : n.ownSize = 1 := by
  unfold isStatement at hs
  unfold ownSize
  cases hf : n.form <;> simp_all [Form.isStatement]

/-- A node that is read adds as many nodes as its own size and that of its parts tell, at any depth
    and under any limit. -/
theorem length_preorder_astFrom {limit : Int} {depth : Nat} {tree : Ast}
    (h : n.astFrom bytes limit depth = .ok tree) : tree.preorder.length = n.treeSize := by
  induction hsize : n.size using Nat.strongRecOn generalizing n depth tree with
  | ind size ih =>
    have hsized : ∀ c ∈ n.parts, ∀ depth m, c.astFrom bytes limit depth = .ok m →
        m.preorder.length = c.treeSize := fun c hc depth m hm =>
      ih c.size (hsize ▸ size_lt_of_mem_parts c hc) hm rfl
    rw [treeSize_eq]
    cases hs : n.isStatement with
    | true =>
      rw [astFrom_of_isStatement bytes limit depth hs] at h
      split_ifs at h
      exact length_preorder_statement hs (fun c hc => hsized c hc (depth + 1)) h
    | false =>
      rw [astFrom_operands hs] at h
      obtain ⟨trees, htrees, hnode⟩ := bind_eq_ok_iff.1 h
      cases hnode
      rw [parts_of_not_isStatement hs] at hsized ⊢
      rw [length_preorder_eq, children_expressionNode, ownSize_of_not_isStatement hs,
        total_visitAll (fun c hc => hsized c hc (n.level depth c)) htrees]

/-- What adds no node of its own has a part that does. -/
theorem exists_part_of_ownSize (h : n.ownSize = 0) : ∃ c, c ∈ n.parts := by
  unfold ownSize at h
  split at h
  · exact absurd h (by decide)
  · next hform =>
    split_ifs at h with hone
    obtain ⟨single, hsingle⟩ := List.length_eq_one_iff.1 hone
    refine ⟨single, mem_parts_iff.2 (.inl ?_)⟩
    simp [members, hform, hsingle]
  · exact absurd h (by decide)

/-- No tree is without a node. -/
theorem treeSize_pos (n : Cst) : 0 < n.treeSize := by
  induction hsize : n.size using Nat.strongRecOn generalizing n with
  | ind size ih =>
    rw [treeSize_eq]
    by_cases hown : n.ownSize = 0
    · obtain ⟨single, hsingle⟩ := exists_part_of_ownSize hown
      have hpos := ih single.size (hsize ▸ size_lt_of_mem_parts single hsingle) single rfl
      have hle := List.single_le_sum (fun _ _ => Nat.zero_le _) _
        (List.mem_map_of_mem (f := treeSize) hsingle)
      omega
    · omega

/-- With as many levels as there are nodes, nothing is too deep. -/
theorem fits_of_size {limit : Int} {depth : Nat} (h : depth + n.size ≤ limit) :
    n.Fits limit depth := by
  induction hsize : n.size using Nat.strongRecOn generalizing n depth with
  | ind size ih =>
    refine fits_iff.2 ⟨fun _ => by omega, fun c hc => ?_⟩
    have hlt := size_lt_of_mem_parts c hc
    refine ih c.size (by omega) ?_ rfl
    rw [level]
    split_ifs <;> push_cast <;> omega

end Cst

end FlowSketch
