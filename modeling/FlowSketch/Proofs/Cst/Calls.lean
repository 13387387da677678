import FlowSketch.Proofs.Cst.Nodes
import FlowSketch.Proofs.Cst.Stack
import Mathlib

/-!
# Calls in expressions

The tree of an expression drops operands without an inner structure, and a call gives up its callee
and its arguments for what is inside them. So a call is kept wherever it stands but in one place:
a call that is itself the callee of a call is given up, and only its own parts are kept.

* `Cst.calls` — the number of calls among the nodes of a concrete tree.
* `Cst.IsWholeCall` — a call with a callee and arguments, and nothing else.
* `Cst.keptCalls` — the number of calls that are kept.
* `Cst.KeepsCalls` — no call is the callee or the arguments of another, or stands in a node that is
  passed over.

Results:

* `Cst.keptCalls_eq_iff`: no call is kept twice, and all are kept exactly if each is in its place.
* `Cst.calls_exprTree`: the tree of an expression holds the calls that are kept.
* `Cst.calls_kept_iff`: so it has as many calls as the expression exactly if each is in its place.
* `Cst.calls_lost_curriedCall`: `f(1)(2)` has two calls, and its tree one.
-/

namespace FlowSketch

namespace Cst

/-! ## Calls -/

/-- A call. -/
def isCall (n : Cst) : Bool := n.form = .call

/-- The number of calls in a tree. -/
def calls (n : Cst) : Nat := n.preorder.countP isCall

/-- The node has a callee and arguments, and no other child that is more than punctuation. -/
def IsWholeCall (n : Cst) : Prop :=
  ∃ callee arguments, n.child? "function" = some callee ∧
    n.child? "arguments" = some arguments ∧ n.namedChildren.Perm [callee, arguments]

/-- The number of calls that are kept: an expression that is begun is kept, and nothing in it but
    its operands. -/
def keptCalls (n : Cst) : Nat :=
  (if n.isCall then 1 else 0) + (n.operands.attach.map (fun c => keptCalls c.1)).sum
termination_by n.size
decreasing_by
  have := size_le_sizeAll c.2
  have := sizeAll_operands_lt n
  omega

/-- The child is passed over with all that is in it: punctuation, and whatever has no part in the
    program unless it is the callee or the arguments of a call. -/
def PassesOver (n c : Cst) : Prop := c.named = false ∨ (n.isCall = false ∧ c.isSkipped = true)

/-- No call is the callee or the arguments of another call, and none stands in a node that is passed
    over. -/
def KeepsCalls (n : Cst) : Prop :=
  ∀ m ∈ n.preorder, (m.isCall = true → ∀ c ∈ m.namedChildren, c.isCall = false) ∧
    ∀ c ∈ m.children, m.PassesOver c → c.calls = 0

variable {n c : Cst}

theorem calls_eq (n : Cst) :
    n.calls = (if n.isCall then 1 else 0) + (n.children.map calls).sum := by
  rw [calls, preorder_eq, List.countP_cons, List.countP_flatMap, Nat.add_comm]
  rfl

theorem keptCalls_eq (n : Cst) :
    n.keptCalls = (if n.isCall then 1 else 0) + (n.operands.map keptCalls).sum := by
  rw [keptCalls, List.map_subtype (g := keptCalls) (fun _ _ => rfl), List.unattach_attach]

/-! ## What is kept -/

/-- Where less is added up of some members of a list than of all, the sums agree exactly when each
    of those members adds as much and no other adds anything. -/
theorem sum_filter_le {α : Type} {p : α → Bool} {f g : α → Nat} {as : List α}
    (h : ∀ a ∈ as, f a ≤ g a) : ((as.filter p).map f).sum ≤ (as.map g).sum ∧
      (((as.filter p).map f).sum = (as.map g).sum ↔
        ∀ a ∈ as, (p a = true → f a = g a) ∧ (p a = false → g a = 0)) := by
  induction as with
  | nil => simp
  | cons a as ih =>
    obtain ⟨hle, hiff⟩ := ih fun b hb => h b (List.mem_cons_of_mem a hb)
    have ha := h a List.mem_cons_self
    rw [List.forall_mem_cons, ← hiff, List.map_cons, List.sum_cons]
    cases hp : p a with
    | true =>
      rw [List.filter_cons_of_pos hp, List.map_cons, List.sum_cons]
      exact ⟨by omega, by simp; omega⟩
    | false =>
      rw [List.filter_cons_of_neg (by simp [hp])]
      exact ⟨by omega, by simp; omega⟩

/-- The children of a node that are kept as operands. -/
def isInner (c : Cst) : Bool := !c.isLeaf && !c.isSkipped && c.named

theorem inner_eq_filter (n : Cst) : n.inner = n.children.filter isInner := by
  rw [inner, content, namedChildren, List.filter_filter, List.filter_filter]
  rfl

theorem isInner_eq_false_iff : c.isInner = false ↔
    c.isLeaf = true ∨ c.isSkipped = true ∨ c.named = false := by
  unfold isInner
  cases c.isLeaf <;> cases c.isSkipped <;> cases c.named <;> decide

theorem keepsCalls_iff : n.KeepsCalls ↔
    ((n.isCall = true → ∀ c ∈ n.namedChildren, c.isCall = false) ∧
      ∀ c ∈ n.children, n.PassesOver c → c.calls = 0) ∧ ∀ c ∈ n.children, c.KeepsCalls :=
  forall_mem_preorder_iff

theorem calls_eq_zero_iff : n.calls = 0 ↔ n.isCall = false ∧ ∀ c ∈ n.children, c.calls = 0 := by
  simp only [calls, List.countP_eq_zero, Bool.not_eq_true]
  exact forall_mem_preorder_iff

/-- Where there are no calls, none is lost. -/
theorem keepsCalls_of_calls_eq_zero (h : n.calls = 0) : n.KeepsCalls := by
  induction n using Cst.induction with
  | node n ih =>
    obtain ⟨hn, hchildren⟩ := calls_eq_zero_iff.1 h
    refine keepsCalls_iff.2 ⟨⟨fun hcall => ?_, fun c hc _ => hchildren c hc⟩,
      fun c hc => ih c hc (hchildren c hc)⟩
    rw [hn] at hcall
    exact absurd hcall (by decide)

/-- The calls that are kept of the operands in a node are no more than those in its children, and as
    many exactly if each operand keeps its own and the other children hold none. -/
theorem sum_inner_le (h : ∀ c ∈ n.children, c.keptCalls ≤ c.calls) :
    (n.inner.map keptCalls).sum ≤ (n.children.map calls).sum ∧
      ((n.inner.map keptCalls).sum = (n.children.map calls).sum ↔
        ∀ c ∈ n.children, (c.isInner = true → c.keptCalls = c.calls) ∧
          (c.isInner = false → c.calls = 0)) := by
  rw [inner_eq_filter]
  exact sum_filter_le h

theorem operands_of_not_isCall (h : n.isCall = false) : n.operands = n.inner := by
  have hform : n.form ≠ .call := by simpa [isCall] using h
  rw [operands, operandHolders, if_neg hform, List.flatMap_singleton]

/-- A call is no leaf, and what is in a leaf is punctuation. -/
theorem calls_eq_zero_of_isLeaf (hn : n.isCall = true → n.IsWholeCall) (hleaf : n.isLeaf = true)
    (hkeeps : n.KeepsCalls) : n.calls = 0 := by
  have hnone : n.namedChildren = [] := List.isEmpty_iff.1 hleaf
  have hnot : n.isCall = false := by
    cases hcall : n.isCall with
    | false => rfl
    | true =>
      obtain ⟨callee, arguments, -, -, hperm⟩ := hn hcall
      rw [hnone] at hperm
      exact absurd hperm.length_eq (by simp)
  refine calls_eq_zero_iff.2 ⟨hnot, fun c hc => ?_⟩
  refine (keepsCalls_iff.1 hkeeps).1.2 c hc (.inl ?_)
  by_contra hnamed
  have : c ∈ n.namedChildren := List.mem_filter.2 ⟨hc, by simpa using hnamed⟩
  rw [hnone] at this
  exact absurd this List.not_mem_nil

/-- The calls in a node that is no call are kept exactly if each is in its place. -/
theorem keptCalls_of_not_isCall (hwhole : ∀ m ∈ n.preorder, m.isCall = true → m.IsWholeCall)
    (hn : n.isCall = false)
    (ih : ∀ c ∈ n.children, c.keptCalls ≤ c.calls ∧ (c.keptCalls = c.calls ↔ c.KeepsCalls)) :
    n.keptCalls ≤ n.calls ∧ (n.keptCalls = n.calls ↔ n.KeepsCalls) := by
  obtain ⟨hle, hiff⟩ := sum_inner_le fun c hc => (ih c hc).1
  rw [keptCalls_eq, calls_eq, operands_of_not_isCall hn, hn, if_neg (by decide), Nat.zero_add,
    Nat.zero_add, hiff, keepsCalls_iff]
  refine ⟨hle, fun h => ⟨⟨fun hcall => ?_, fun c hc hover => ?_⟩, fun c hc => ?_⟩,
    fun ⟨⟨_, hover⟩, hkeeps⟩ c hc => ⟨fun _ => (ih c hc).2.2 (hkeeps c hc), fun hinner => ?_⟩⟩
  · rw [hn] at hcall
    exact absurd hcall (by decide)
  · refine (h c hc).2 (isInner_eq_false_iff.2 ?_)
    rcases hover with hnamed | ⟨-, hskipped⟩
    · exact .inr (.inr hnamed)
    · exact .inr (.inl hskipped)
  · cases hinner : c.isInner with
    | true => exact (ih c hc).2.1 ((h c hc).1 hinner)
    | false => exact keepsCalls_of_calls_eq_zero ((h c hc).2 hinner)
  · rcases isInner_eq_false_iff.1 hinner with hleaf | hskipped | hnamed
    · exact calls_eq_zero_of_isLeaf ((forall_mem_preorder_iff.1 hwhole).2 c hc c
        (mem_preorder_self c)) hleaf (hkeeps c hc)
    · exact hover c hc (.inr ⟨hn, hskipped⟩)
    · exact hover c hc (.inl hnamed)

/-- What the callee or the arguments of a call add to the calls that are kept: a call that stands
    there is lost itself. -/
theorem inner_of_part (h : n.keptCalls ≤ n.calls ∧ (n.keptCalls = n.calls ↔ n.KeepsCalls))
    (ih : ∀ c ∈ n.children, c.keptCalls ≤ c.calls) :
    (n.inner.map keptCalls).sum ≤ n.calls ∧
      ((n.inner.map keptCalls).sum = n.calls ↔ n.isCall = false ∧ n.KeepsCalls) := by
  cases hn : n.isCall with
  | false =>
    have hkept : n.keptCalls = (n.inner.map keptCalls).sum := by
      rw [keptCalls_eq, operands_of_not_isCall hn, hn, if_neg (by decide), Nat.zero_add]
    rw [hkept] at h
    simpa using h
  | true =>
    have hle := (sum_inner_le ih).1
    have hcalls : n.calls = 1 + (n.children.map calls).sum := by rw [calls_eq, hn, if_pos rfl]
    exact ⟨by omega, by simp; omega⟩

theorem operands_of_isCall {callee arguments : Cst} (h : n.isCall = true)
    (hf : n.child? "function" = some callee) (ha : n.child? "arguments" = some arguments) :
    n.operands = callee.inner ++ arguments.inner := by
  have hform : n.form = .call := by simpa [isCall] using h
  rw [operands, operandHolders, if_pos hform, hf, ha]
  simp

/-- The calls in a call are kept exactly if each is in its place. -/
theorem keptCalls_of_isCall (hn : n.isCall = true) (hwhole : n.IsWholeCall)
    (ih : ∀ c ∈ n.children, (c.keptCalls ≤ c.calls ∧ (c.keptCalls = c.calls ↔ c.KeepsCalls)) ∧
      ∀ d ∈ c.children, d.keptCalls ≤ d.calls) :
    n.keptCalls ≤ n.calls ∧ (n.keptCalls = n.calls ↔ n.KeepsCalls) := by
  obtain ⟨callee, arguments, hf, ha, hperm⟩ := hwhole
  obtain ⟨ihf, hfchildren⟩ := ih callee (mem_children_of_child? hf)
  obtain ⟨iha, hachildren⟩ := ih arguments (mem_children_of_child? ha)
  obtain ⟨hfle, hfiff⟩ := inner_of_part ihf hfchildren
  obtain ⟨hale, haiff⟩ := inner_of_part iha hachildren
  -- the calls among the children are those in the callee, in the arguments and in punctuation
  obtain ⟨hnamed, hnamediff⟩ := @sum_filter_le Cst named calls calls n.children
    fun c _ => Nat.le_refl c.calls
  have hparts : (n.namedChildren.map calls).sum = callee.calls + arguments.calls := by
    rw [(hperm.map calls).sum_nat]
    simp
  rw [← namedChildren, hparts] at hnamed hnamediff
  have hmem : ∀ c, c ∈ n.namedChildren ↔ c = callee ∨ c = arguments := by
    intro c
    rw [hperm.mem_iff]
    simp
  rw [keptCalls_eq, calls_eq, operands_of_isCall hn hf ha, List.map_append, List.sum_append, hn,
    if_pos rfl]
  have hsums : 1 + ((callee.inner.map keptCalls).sum + (arguments.inner.map keptCalls).sum) =
      1 + (n.children.map calls).sum ↔
        (callee.isCall = false ∧ callee.KeepsCalls) ∧
          (arguments.isCall = false ∧ arguments.KeepsCalls) ∧
            ∀ c ∈ n.children, c.named = false → c.calls = 0 := by
    have hpunctuation : callee.calls + arguments.calls = (n.children.map calls).sum ↔
        ∀ c ∈ n.children, c.named = false → c.calls = 0 := by
      rw [hnamediff]
      simp
    rw [← hfiff, ← haiff, ← hpunctuation]
    omega
  refine ⟨by omega, hsums.trans ?_⟩
  rw [keepsCalls_iff (n := n)]
  constructor
  · rintro ⟨⟨hfcall, hfkeeps⟩, ⟨hacall, hakeeps⟩, hover⟩
    refine ⟨⟨fun _ c hc => ?_, fun c hc hpasses => ?_⟩, fun c hc => ?_⟩
    · rcases (hmem c).1 hc with rfl | rfl <;> assumption
    · rcases hpasses with hc' | ⟨hcall, -⟩
      · exact hover c hc hc'
      · rw [hn] at hcall
        exact absurd hcall (by decide)
    · cases hc' : c.named with
      | false => exact keepsCalls_of_calls_eq_zero (hover c hc hc')
      | true =>
        rcases (hmem c).1 (List.mem_filter.2 ⟨hc, hc'⟩) with rfl | rfl <;> assumption
  · rintro ⟨⟨hcall, hover⟩, hkeeps⟩
    exact ⟨⟨hcall hn callee ((hmem callee).2 (.inl rfl)), hkeeps _ (mem_children_of_child? hf)⟩,
      ⟨hcall hn arguments ((hmem arguments).2 (.inr rfl)), hkeeps _ (mem_children_of_child? ha)⟩,
      fun c hc hnamed => hover c hc (.inl hnamed)⟩

/-- No call is kept twice, and all are kept exactly if each is in its place. -/
theorem keptCalls_eq_iff (hwhole : ∀ m ∈ n.preorder, m.isCall = true → m.IsWholeCall) :
    n.keptCalls ≤ n.calls ∧ (n.keptCalls = n.calls ↔ n.KeepsCalls) := by
  -- A call is about the children of its children, so all that is below is taken at once.
  induction hsize : n.size using Nat.strongRecOn generalizing n with
  | ind size ih =>
    obtain ⟨hself, hbelow⟩ := forall_mem_preorder_iff.1 hwhole
    have hchildren : ∀ c ∈ n.children,
        c.keptCalls ≤ c.calls ∧ (c.keptCalls = c.calls ↔ c.KeepsCalls) := by
      intro c hc
      have := size_lt_of_mem hc
      exact ih c.size (by omega) (hbelow c hc) rfl
    cases hn : n.isCall with
    | false => exact keptCalls_of_not_isCall hwhole hn hchildren
    | true =>
      refine keptCalls_of_isCall hn (hself hn) fun c hc => ⟨hchildren c hc, fun d hd => ?_⟩
      have := size_lt_of_mem hc
      have := size_lt_of_mem hd
      exact (ih d.size (by omega) ((forall_mem_preorder_iff.1 (hbelow c hc)).2 d hd) rfl).1

/-! ## The tree of an expression -/

end Cst

/-- The number of calls in a tree. -/
def Ast.calls (n : Ast) : Nat := n.preorder.countP (fun m => m.kind = .call)

theorem Ast.calls_eq (n : Ast) :
    n.calls = (if n.kind = .call then 1 else 0) + (n.children.map calls).sum := by
  rw [calls, preorder_eq, preorderAll_eq_flatMap, List.countP_cons, List.countP_flatMap,
    Nat.add_comm]
  simp only [decide_eq_true_eq]
  rfl

namespace Cst

variable {n c : Cst} (bytes : List UInt8) (visit : Cst → Except Failure Ast)

/-- What holds of all nodes of an expression holds of those of its operands. -/
theorem forall_mem_preorder_operand {P : Cst → Prop} (h : ∀ m ∈ n.preorder, P m)
    (hc : c ∈ n.operands) : ∀ m ∈ c.preorder, P m := by
  obtain ⟨holder, hholder, hc⟩ := List.mem_flatMap.1 hc
  have hmem := mem_children_of_mem_content (List.mem_filter.1 hc).1
  unfold operandHolders at hholder
  split_ifs at hholder
  · rw [List.mem_append, Option.mem_toList, Option.mem_toList] at hholder
    have hchild := hholder.elim mem_children_of_child? mem_children_of_child?
    exact (forall_mem_preorder_iff.1 ((forall_mem_preorder_iff.1 h).2 holder hchild)).2 c hmem
  · rw [List.mem_singleton.1 hholder] at hmem
    exact (forall_mem_preorder_iff.1 h).2 c hmem

theorem kind_expressionNode (trees : List Ast) :
    (n.expressionNode bytes trees).kind = .call ↔ n.isCall = true := by
  unfold expressionNode isCall
  cases n.form <;> simp

theorem children_expressionNode (trees : List Ast) :
    (n.expressionNode bytes trees).children = trees := by
  unfold expressionNode
  cases n.form <;> rfl

/-- The tree of an expression without statements holds the calls that are kept. -/
theorem calls_exprTree (h : ∀ m ∈ n.preorder, m.isStatement = false) :
    ∃ tree, n.exprTree bytes visit = .ok tree ∧ tree.calls = n.keptCalls := by
  induction hsize : n.size using Nat.strongRecOn generalizing n with
  | ind size ih =>
    have hoperands : ∀ ns : List Cst, (∀ c ∈ ns, c ∈ n.operands) → ∃ trees,
        visitAll (exprTree bytes visit) ns = .ok trees ∧
          (trees.map Ast.calls).sum = (ns.map keptCalls).sum := by
      intro ns
      induction ns with
      | nil => exact fun _ => ⟨[], rfl, rfl⟩
      | cons c ns ihns =>
        intro hmem
        rw [List.forall_mem_cons] at hmem
        have := size_le_sizeAll hmem.1
        have := sizeAll_operands_lt n
        obtain ⟨tree, htree, hcalls⟩ :=
          ih c.size (by omega) (forall_mem_preorder_operand h hmem.1) rfl
        obtain ⟨trees, htrees, hsum⟩ := ihns hmem.2
        refine ⟨tree :: trees, ?_, ?_⟩
        · rw [visitAll, htree, htrees]
          rfl
        · rw [List.map_cons, List.sum_cons, hcalls, hsum, List.map_cons, List.sum_cons]
    obtain ⟨trees, htrees, hsum⟩ := hoperands n.operands fun _ hc => hc
    refine ⟨n.expressionNode bytes trees, ?_, ?_⟩
    · rw [exprTree_of_not_isStatement _ _ (h n (mem_preorder_self n)), htrees]
      rfl
    · rw [Ast.calls_eq, children_expressionNode, hsum, keptCalls_eq]
      simp only [kind_expressionNode]

end Cst

/-- An expression without statements has a tree, at any depth and under any limit. No call of the
    tree is counted twice, and where every call has a callee and arguments, the tree has as many
    calls as the expression exactly if no call is the callee or the arguments of another, and none
    stands in a node that is passed over. -/
theorem Cst.calls_kept_iff (bytes : List UInt8) (limit : Int) (depth : Nat) {n : Cst}
    (hexpression : ∀ m ∈ n.preorder, m.isStatement = false)
    (hwhole : ∀ m ∈ n.preorder, m.isCall = true → m.IsWholeCall) :
    ∃ tree, n.astFrom bytes limit depth = .ok tree ∧ tree.calls ≤ n.calls ∧
      (tree.calls = n.calls ↔ n.KeepsCalls) := by
  obtain ⟨tree, htree, hcalls⟩ :=
    calls_exprTree bytes (astFrom bytes limit (depth + 1)) hexpression
  obtain ⟨hle, hiff⟩ := keptCalls_eq_iff hwhole
  refine ⟨tree, ?_, by rw [hcalls]; exact hle, by rw [hcalls]; exact hiff⟩
  rw [astFrom_of_not_isStatement _ _ _ (hexpression n (mem_preorder_self n)),
    expression_eq_exprTree, htree]

namespace Cst

/-- The call `f(1)` at a column, known to its parent by a field. -/
def callOfOne (column : Nat) (field : Option String) : Cst where
  type := "call_expression"
  start := column
  stop := column + 4
  row := 0
  column := column
  field := field
  children := [
    { type := "identifier", start := column, stop := column + 1, row := 0, column := column
      field := "function" },
    { type := "argument_list", start := column + 1, stop := column + 4, row := 0
      column := column + 1, field := "arguments"
      children := [
        { type := "number_literal", start := column + 2, stop := column + 3, row := 0
          column := column + 2 }] }]

/-- A call of what is given with the argument `2`, which begins at a column. -/
def callWithTwo (callee : Cst) (column : Nat) : Cst where
  type := "call_expression"
  start := 0
  stop := column + 3
  row := 0
  column := 0
  children := [callee,
    { type := "argument_list", start := column, stop := column + 3, row := 0, column := column
      field := "arguments"
      children := [
        { type := "number_literal", start := column + 1, stop := column + 2, row := 0
          column := column + 1 }] }]

/-- The call `(f(1))(2)`. -/
def parenthesizedCall : Cst :=
  callWithTwo
    { type := "parenthesized_expression", start := 0, stop := 6, row := 0, column := 0
      field := "function", children := [callOfOne 1 none] } 6

/-- The call `f(1)(2)`. -/
def curriedCall : Cst := callWithTwo (callOfOne 0 "function") 4

/-- In parentheses the callee keeps its call. -/
theorem calls_kept_parenthesizedCall :
    (∀ m ∈ parenthesizedCall.preorder, m.isStatement = false) ∧
    (∀ m ∈ parenthesizedCall.preorder, m.isCall = true → m.IsWholeCall) ∧
    ∃ tree, parenthesizedCall.astFrom [] 5 0 = .ok tree ∧ tree.calls = 2 := by
  have hexpression : ∀ m ∈ parenthesizedCall.preorder, m.isStatement = false := by decide
  have hwhole : ∀ m ∈ parenthesizedCall.preorder, m.isCall = true → m.IsWholeCall := by
    intro m hm hcall
    have hmem : m ∈ [parenthesizedCall, callOfOne 1 none] := List.mem_filter.2 ⟨hm, hcall⟩
    rcases List.mem_pair.1 hmem with rfl | rfl <;> exact ⟨_, _, rfl, rfl, .refl _⟩
  have hkeeps : parenthesizedCall.KeepsCalls := by
    unfold KeepsCalls PassesOver
    decide
  obtain ⟨tree, htree, -, hiff⟩ := calls_kept_iff [] 5 0 hexpression hwhole
  refine ⟨hexpression, hwhole, tree, htree, ?_⟩
  rw [hiff.2 hkeeps]
  decide

/-- A callee that is a call itself loses it: `f(1)(2)` holds two calls, and its tree one. -/
theorem calls_lost_curriedCall :
    (∀ m ∈ curriedCall.preorder, m.isStatement = false ∧ m.named = true ∧ m.isSkipped = false) ∧
    (∀ m ∈ curriedCall.preorder, m.isCall = true → m.IsWholeCall) ∧
    curriedCall.calls = 2 ∧
    ∃ tree, curriedCall.astFrom [] 5 0 = .ok tree ∧ tree.calls = 1 := by
  have hplain : ∀ m ∈ curriedCall.preorder,
      m.isStatement = false ∧ m.named = true ∧ m.isSkipped = false := by decide
  refine ⟨hplain, fun m hm hcall => ?_, by decide, ?_⟩
  · have hmem : m ∈ [curriedCall, callOfOne 0 "function"] := List.mem_filter.2 ⟨hm, hcall⟩
    rcases List.mem_pair.1 hmem with rfl | rfl <;> exact ⟨_, _, rfl, rfl, .refl _⟩
  · obtain ⟨tree, htree, hcalls⟩ := calls_exprTree [] (astFrom [] 5 1) fun m hm =>
      (hplain m hm).1
    refine ⟨tree, ?_, ?_⟩
    · rw [astFrom_of_not_isStatement _ _ _ rfl, expression_eq_exprTree, htree]
    · -- all that is kept of the callee are its arguments
      have houter : curriedCall.operands = (callOfOne 0 "function").children.tail := rfl
      have hinner : ∀ c ∈ (callOfOne 0 "function").children.tail, c.keptCalls = 0 := by
        intro c hc
        rw [List.mem_singleton.1 hc, keptCalls_eq]
        rfl
      rw [hcalls, keptCalls_eq, houter, List.map_congr_left hinner]
      rfl

end Cst

end FlowSketch
