import FlowSketch.Proofs.Cst.Failing

/-!
# The stack of an expression

An expression is built with a stack of steps and a list of trees that are not yet taken up. At any
time both are told by the nodes that are begun and not yet finished: of each, the trees of its first
operands are built, above whatever was built when it was begun, and its other operands are still to
be begun. So a node that is finished takes up the trees of its own operands and no other.

* `Cst.astFrom` — the tree of a node at any depth, under any limit.
* `Cst.Reached` — the stacks and trees that the work on an expression goes through.
* `Cst.Awaits` — what the steps of a stack wait for.

Results:

* `Cst.astFrom_of_isStatement`, `Cst.astFrom_of_not_isStatement`: statements are one level deeper
  than what they stand in, expressions are not.
* `Cst.Awaits.next`: an operand that is built brings the node it belongs to one operand further.
* `Cst.Reached.awaits`: every stack that is reached waits for what it should.
* `Cst.expression_by_stack`: the stack gives the tree of the recursion, and every node that is
  finished takes up the trees of its operands.
-/

namespace FlowSketch.Cst

/-! ## Trees at any depth -/

/-- The tree of a node at a depth, statements nested down to the limit. -/
def astFrom (bytes : List UInt8) (limit : Int) (depth : Nat) (n : Cst) : Except Failure Ast :=
  n.astAt bytes limit (limit + 1 - depth).toNat depth

section

variable {bytes : List UInt8} {visit other : Cst → Except Failure Ast}

theorem visitAll_congr {cs : List Cst} (h : ∀ c ∈ cs, visit c = other c) :
    visitAll visit cs = visitAll other cs := by
  induction cs with
  | nil => rfl
  | cons c cs ih =>
    rw [visitAll, visitAll, h c List.mem_cons_self, ih fun d hd => h d (List.mem_cons_of_mem c hd)]

theorem visitAll_singleton (c : Cst) : visitAll visit [c] = (do
    let tree ← visit c
    return [tree]) := by
  rw [visitAll]
  cases visit c <;> rfl

theorem exprTree_of_isStatement {n : Cst} (h : n.isStatement = true) :
    n.exprTree bytes visit = visit n := by
  rw [exprTree, if_pos h]

/-- Only statements are handed over. -/
theorem exprTree_congr (h : ∀ c : Cst, c.isStatement = true → visit c = other c) (n : Cst) :
    n.exprTree bytes visit = n.exprTree bytes other := by
  induction hsize : n.size using Nat.strongRecOn generalizing n with
  | ind size ih =>
    cases hs : n.isStatement with
    | true => rw [exprTree_of_isStatement hs, exprTree_of_isStatement hs, h n hs]
    | false =>
      have hoperands : ∀ c ∈ n.operands, c.exprTree bytes visit = c.exprTree bytes other := by
        intro c hc
        have := size_le_sizeAll hc
        have := sizeAll_operands_lt n
        exact ih c.size (by omega) c rfl
      rw [exprTree_of_not_isStatement _ _ hs, exprTree_of_not_isStatement _ _ hs,
        visitAll_congr hoperands]

end

section

variable (bytes : List UInt8) (limit : Int) (depth : Nat) {n : Cst}

theorem ast_eq_astFrom (root : Cst) : root.ast bytes limit = root.astFrom bytes limit 0 := by
  rw [ast, astFrom, Int.natCast_zero, Int.sub_zero]

/-- One level further down there is one level less to go. -/
theorem budget_succ : (limit + 1 - (depth + 1 : Nat)).toNat = (limit + 1 - depth).toNat - 1 := by
  omega

/-- A statement beyond the limit has no tree, and what is inside any other is one level deeper. -/
theorem astFrom_of_isStatement (hs : n.isStatement = true) : n.astFrom bytes limit depth =
    if limit < depth then .error (.tooDeep depth limit)
    else n.statement bytes (astFrom bytes limit (depth + 1)) := by
  have hrest := budget_succ limit depth
  unfold astFrom
  cases hbudget : (limit + 1 - depth).toNat with
  | zero => rw [astAt, if_pos hs, if_pos (by omega)]
  | succ budget =>
    rw [hbudget, Nat.add_sub_cancel] at hrest
    rw [astAt, if_pos hs, if_neg (by omega), hrest]

/-- An expression is on the level of what it stands in, and the statements inside it are one level
    deeper, however many expressions lie between. -/
theorem astFrom_of_not_isStatement (hs : n.isStatement = false) :
    n.astFrom bytes limit depth = n.expression bytes (astFrom bytes limit (depth + 1)) := by
  have hrest := budget_succ limit depth
  unfold astFrom
  cases hbudget : (limit + 1 - depth).toNat with
  | zero =>
    -- no level is left for the statements either
    rw [hbudget] at hrest
    rw [astAt, if_neg (by simp [hs]), hrest, expression_eq_exprTree, expression_eq_exprTree]
    refine exprTree_congr (fun c hc => ?_) n
    rw [astAt, if_pos hc]
    rfl
  | succ budget =>
    rw [hbudget, Nat.add_sub_cancel] at hrest
    rw [astAt, if_neg (by simp [hs]), hrest]

end

/-! ## The run -/

section

variable {bytes : List UInt8} {onStatement : Cst → Except Failure Ast} {root n c : Cst}
  {steps rest : List Step} {built trees : List Ast} {tree : Ast}

/-- The stacks and trees that the work on an expression goes through. -/
inductive Reached (bytes : List UInt8) (onStatement : Cst → Except Failure Ast) (root : Cst) :
    List Step → List Ast → Prop
  | start : Reached bytes onStatement root [.begin root] []
  /-- A statement is handed over. -/
  | statement {n : Cst} {rest : List Step} {built : List Ast} {tree : Ast} :
    Reached bytes onStatement root (.begin n :: rest) built → n.isStatement = true →
      onStatement n = .ok tree → Reached bytes onStatement root rest (tree :: built)
  /-- An expression is finished behind its operands. -/
  | operands {n : Cst} {rest : List Step} {built : List Ast} :
    Reached bytes onStatement root (.begin n :: rest) built → n.isStatement = false →
      Reached bytes onStatement root (n.operands.map .begin ++ .finish n :: rest) built
  /-- A finished node takes up as many trees as it has operands. -/
  | finish {n : Cst} {rest : List Step} {built : List Ast} :
    Reached bytes onStatement root (.finish n :: rest) built →
      Reached bytes onStatement root rest
        (n.expressionNode bytes (built.take n.operands.length).reverse ::
          built.drop n.operands.length)

/-- From whatever is reached, the work goes on to the same result. -/
theorem Reached.build_eq (h : Reached bytes onStatement root steps built) :
    build bytes onStatement [.begin root] [] = build bytes onStatement steps built := by
  induction h with
  | start => rfl
  | statement _ hs htree ih => rw [ih, build, if_pos hs, htree]
  | operands _ hs ih => rw [ih, build, if_neg (by simp [hs])]
  | finish _ ih => rw [ih, build]

theorem Reached.finished (h : Reached bytes onStatement root steps built)
    (hbuild : build bytes onStatement steps built = .ok trees) :
    Reached bytes onStatement root [] trees := by
  fun_induction build bytes onStatement steps built with
  | case1 built =>
    cases hbuild
    exact h
  | case2 n rest built hs tree htree ih => exact ih (h.statement hs htree) hbuild
  | case3 n rest built hs failure hfailure => cases hbuild
  | case4 n rest built hs ih => exact ih (h.operands (by simpa using hs)) hbuild
  | case5 n rest built count node ih => exact ih h.finish hbuild

/-! ## What the steps wait for -/

variable (bytes onStatement) in
/-- The recursion gives these trees for the nodes, one by one. -/
def Trees (ns : List Cst) (trees : List Ast) : Prop :=
  List.Forall₂ (fun n tree => n.exprTree bytes onStatement = .ok tree) ns trees

/-- What the steps of a stack wait for: at the end for the tree of the whole expression, and while a
    node is not finished for the trees of its last operands, those of the first being built. -/
inductive Awaits (bytes : List UInt8) (onStatement : Cst → Except Failure Ast) (root : Cst) :
    List Step → List Ast → Prop
  | start : Awaits bytes onStatement root [.begin root] []
  | done {tree : Ast} : root.exprTree bytes onStatement = .ok tree →
    Awaits bytes onStatement root [] [tree]
  | inside {n : Cst} {rest : List Step} {below : List Ast} {first last : List Cst}
      {trees : List Ast} :
    Reached bytes onStatement root (.begin n :: rest) below →
      Awaits bytes onStatement root (.begin n :: rest) below → n.isStatement = false →
        n.operands = first ++ last → Trees bytes onStatement first trees →
          Awaits bytes onStatement root (last.map .begin ++ .finish n :: rest)
            (trees.reverse ++ below)

/-- What is built is what a node in front of the rest of the stack was waited for. -/
theorem Awaits.next (h : Awaits bytes onStatement root (.begin n :: rest) built)
    (htree : n.exprTree bytes onStatement = .ok tree) :
    Awaits bytes onStatement root rest (tree :: built) := by
  generalize hsteps : Step.begin n :: rest = steps at h
  cases h with
  | start =>
    cases hsteps
    exact .done htree
  | done _ => cases hsteps
  | @inside m rest' below first last trees hreached hm hs hsplit htrees =>
    cases last with
    | nil => cases hsteps
    | cons c last =>
      obtain ⟨rfl, rfl⟩ : n = c ∧ rest = last.map .begin ++ .finish m :: rest' := by
        simpa using hsteps
      have hmore : Trees bytes onStatement (first ++ [n]) (trees ++ [tree]) :=
        List.rel_append htrees (.cons htree .nil)
      have hnext := Awaits.inside hreached hm hs (by rw [hsplit, List.append_cons]) hmore
      rwa [List.reverse_append, List.reverse_singleton, List.singleton_append,
        List.cons_append] at hnext

/-- A node in front of the rest of the stack is finished when all its operands are built, and these
    are the last trees built. -/
theorem Awaits.finish (h : Awaits bytes onStatement root (.finish n :: rest) built) :
    ∃ trees below, built = trees.reverse ++ below ∧ n.isStatement = false ∧
      Trees bytes onStatement n.operands trees ∧
      Reached bytes onStatement root (.begin n :: rest) below ∧
      Awaits bytes onStatement root (.begin n :: rest) below := by
  generalize hsteps : Step.finish n :: rest = steps at h
  cases h with
  | start => cases hsteps
  | done _ => cases hsteps
  | @inside m rest' below first last trees hreached hm hs hsplit htrees =>
    cases last with
    | nil =>
      obtain ⟨rfl, rfl⟩ : n = m ∧ rest = rest' := by simpa using hsteps
      rw [List.append_nil] at hsplit
      exact ⟨trees, below, rfl, hs, hsplit ▸ htrees, hreached, hm⟩
    | cons c last => cases hsteps

/-- Every stack that is reached waits for what it should. -/
theorem Reached.awaits (h : Reached bytes onStatement root steps built) :
    Awaits bytes onStatement root steps built := by
  induction h with
  | start => exact .start
  | statement _ hs htree ih => exact ih.next ((exprTree_of_isStatement hs).trans htree)
  | operands hreached hs ih => exact .inside hreached ih hs (List.nil_append _).symm .nil
  | @finish n rest built _ ih =>
    obtain ⟨trees, below, rfl, hs, htrees, -, hbegin⟩ := ih.finish
    have hlength : n.operands.length = trees.reverse.length := by
      rw [List.Forall₂.length_eq htrees, List.length_reverse]
    rw [hlength, List.take_left, List.drop_left, List.reverse_reverse]
    refine hbegin.next ?_
    rw [exprTree_of_not_isStatement _ _ hs, visitAll_eq_ok_iff.2 htrees]
    rfl

/-- What is reached when all steps are done is the result. -/
theorem reached_nil_iff : Reached bytes onStatement root [] built ↔
    build bytes onStatement [.begin root] [] = .ok built := by
  constructor
  · intro h
    rw [h.build_eq, build]
  · exact Reached.start.finished

/-- A finished node takes up the trees of its own operands, and leaves what was built when it was
    begun. -/
theorem Reached.slice (h : Reached bytes onStatement root (.finish n :: rest) built) :
    Trees bytes onStatement n.operands (built.take n.operands.length).reverse ∧
      Reached bytes onStatement root (.begin n :: rest) (built.drop n.operands.length) := by
  obtain ⟨trees, below, rfl, -, htrees, hbegun, -⟩ := h.awaits.finish
  have hlength : n.operands.length = trees.reverse.length := by
    rw [List.Forall₂.length_eq htrees, List.length_reverse]
  rw [hlength, List.take_left, List.drop_left, List.reverse_reverse]
  exact ⟨htrees, hbegun⟩

/-- When all steps are done one tree is left, that of the recursion. -/
theorem Reached.single (h : Reached bytes onStatement root [] built) :
    ∃ tree, built = [tree] ∧ root.exprTree bytes onStatement = .ok tree := by
  generalize hsteps : ([] : List Step) = steps at h
  cases h.awaits with
  | start => cases hsteps
  | done htree => exact ⟨_, rfl, htree⟩
  | @inside n rest below first last trees => cases last <;> cases hsteps

end

/-- An expression at any depth, under any limit, has the tree of the recursion or fails as that
    does, of a statement beyond the limit. Every node that is finished takes up the trees of its own
    operands, and in the end one tree is left. -/
theorem expression_by_stack (bytes : List UInt8) (limit : Int) (depth : Nat) {n : Cst}
    (hs : n.isStatement = false) :
    n.astFrom bytes limit depth = n.exprTree bytes (astFrom bytes limit (depth + 1)) ∧
    (∀ failure, n.astFrom bytes limit depth = .error failure →
      ∃ deeper, failure = .tooDeep deeper limit) ∧
    (∀ c rest built, Reached bytes (astFrom bytes limit (depth + 1)) n (.finish c :: rest) built →
      Trees bytes (astFrom bytes limit (depth + 1)) c.operands
          (built.take c.operands.length).reverse ∧
        Reached bytes (astFrom bytes limit (depth + 1)) n (.begin c :: rest)
          (built.drop c.operands.length)) ∧
    ∀ built, build bytes (astFrom bytes limit (depth + 1)) [.begin n] [] = .ok built →
      ∃ tree, built = [tree] ∧ n.astFrom bytes limit depth = .ok tree := by
  have htree : n.astFrom bytes limit depth =
      n.exprTree bytes (astFrom bytes limit (depth + 1)) := by
    rw [astFrom_of_not_isStatement bytes limit depth hs, expression_eq_exprTree]
  refine ⟨htree, fun failure h => ?_, fun c rest built h => h.slice, fun built h => ?_⟩
  · rcases failsOnly_astAt _ _ _ _ _ failure h with rfl | rfl <;> exact ⟨_, rfl⟩
  · rw [htree]
    exact (reached_nil_iff.2 h).single

/-- The block `{return;}`. -/
def returnBlock : Cst where
  type := "compound_statement"
  start := 2
  stop := 11
  row := 0
  column := 2
  children := [{ type := "return_statement", start := 3, stop := 10, row := 0, column := 3 }]

/-- The lambda `[]{return;}`. -/
def returnLambda : Cst where
  type := "lambda_expression"
  start := 0
  stop := 11
  row := 0
  column := 0
  children := [returnBlock]

/-- The sum `[]{return;}+a`. -/
def lambdaSum : Cst where
  type := "binary_expression"
  start := 0
  stop := 13
  row := 0
  column := 0
  children :=
    [returnLambda, { type := "identifier", start := 12, stop := 13, row := 0, column := 12 }]

/-- The block is one level deeper than the sum, though it stands in the lambda; where that is beyond
    the limit, the sum has no tree. -/
theorem expression_by_stack_lambdaSum :
    lambdaSum.isStatement = false ∧
    (∃ tree, lambdaSum.astFrom [] 5 3 = .ok tree ∧
      tree.preorder.map (·.kind) = [.binaryOp, .other, .compoundBlock, .returnStmt]) ∧
    lambdaSum.astFrom [] 3 3 = .error (.tooDeep 4 3) := by
  have hsum : lambdaSum.isStatement = false := rfl
  have hlambda : returnLambda.isStatement = false := rfl
  have hblock : returnBlock.isStatement = true := rfl
  have hoperands : lambdaSum.operands = [returnLambda] ∧ returnLambda.operands = [returnBlock] :=
    ⟨rfl, rfl⟩
  have hexpr : ∀ visit, lambdaSum.exprTree [] visit = (do
      let block ← visit returnBlock
      return lambdaSum.expressionNode [] [returnLambda.expressionNode [] [block]]) := by
    intro visit
    rw [exprTree_of_not_isStatement _ _ hsum, hoperands.1, visitAll_singleton,
      exprTree_of_not_isStatement _ _ hlambda, hoperands.2, visitAll_singleton,
      exprTree_of_isStatement hblock]
    cases visit returnBlock <;> rfl
  refine ⟨hsum, ?_, ?_⟩
  · rw [(expression_by_stack [] 5 3 hsum).1, hexpr]
    exact ⟨_, rfl, rfl⟩
  · rw [(expression_by_stack [] 3 3 hsum).1, hexpr]
    rfl

end FlowSketch.Cst
