import FlowSketch.Proofs.Cst.Expression

/-!
# Why a source is not read

The parts of a tree are read one after the other, and the first failure is the failure of the
whole. So whatever the parts fail of is what the whole fails of, and a source without faults fails
of nothing but its depth.

* `Cst.FailsOnly` — whenever there is a failure, it is one of some failures.

Results:

* `Cst.failsOnly_statement`, `Cst.failsOnly_expression`: a node fails only as the nodes in it do.
* `Cst.failsOnly_astAt`: a tree that nests too deep fails at the first level beyond the limit, or
  one behind it in an expression.
* `Cst.failsOnly_parse`: a source is blank, faulty or nests too deep.
-/

namespace FlowSketch.Cst

/-- Whenever there is a failure, it is one of these. -/
def FailsOnly {α : Type} (P : Failure → Prop) (x : Except Failure α) : Prop :=
  ∀ failure, x = .error failure → P failure

section

variable {α β : Type} {P : Failure → Prop}

theorem FailsOnly.ok (a : α) : FailsOnly P (.ok a) := fun _ h => absurd h (by simp)

theorem FailsOnly.error {failure : Failure} (h : P failure) :
    FailsOnly P (.error failure : Except Failure α) := by
  intro other hother
  cases hother
  exact h

theorem FailsOnly.bind {x : Except Failure α} {f : α → Except Failure β} (hx : FailsOnly P x)
    (hf : ∀ a, FailsOnly P (f a)) : FailsOnly P (x >>= f) := by
  cases x with
  | error failure => exact .error (hx failure rfl)
  | ok a => exact hf a

end

section

variable {P : Failure → Prop} {visit : Cst → Except Failure Ast} {bytes : List UInt8}

theorem failsOnly_visitAll {cs : List Cst} (h : ∀ c ∈ cs, FailsOnly P (visit c)) :
    FailsOnly P (visitAll visit cs) := by
  induction cs with
  | nil => exact .ok _
  | cons c cs ih =>
    exact (h c List.mem_cons_self).bind fun _ =>
      (ih fun d hd => h d (List.mem_cons_of_mem c hd)).bind fun _ => .ok _

variable (hv : ∀ c, FailsOnly P (visit c))
include hv

theorem failsOnly_visitOption (c? : Option Cst) : FailsOnly P (visitOption visit c?) := by
  cases c? with
  | none => exact .ok _
  | some c => exact (hv c).bind fun _ => .ok _

/-- A statement fails only as the nodes in it do. -/
theorem failsOnly_statement (n : Cst) : FailsOnly P (n.statement bytes visit) := by
  have hall : ∀ cs, FailsOnly P (visitAll visit cs) := fun _ => failsOnly_visitAll fun c _ => hv c
  have hoption := failsOnly_visitOption hv
  unfold statement
  cases n.form with
  | block | template | elseClause | returnStmt | declaration => exact (hall _).bind fun _ => .ok _
  | scope | function => exact (hoption _).bind fun _ => .ok _
  | rangeLoop | whileLoop | doLoop | switchStmt =>
    exact (hoption _).bind fun _ => (hoption _).bind fun _ => .ok _
  | ifStmt =>
    exact (hoption _).bind fun _ => (hoption _).bind fun _ => (hoption _).bind fun _ => .ok _
  | forLoop =>
    exact (hoption _).bind fun _ => (hoption _).bind fun _ => (hoption _).bind fun _ =>
      (hoption _).bind fun _ => .ok _
  | expressionStmt | call | operation | other =>
    simp only [expressionStmt]
    split
    · exact (hv _).bind fun _ => .ok _
    · exact (hall _).bind fun _ => .ok _

/-- An expression fails only as the statements in it do. -/
theorem failsOnly_expression (n : Cst) : FailsOnly P (n.expression bytes visit) := by
  rw [expression_eq_exprTree]
  induction hsize : n.size using Nat.strongRecOn generalizing n with
  | ind size ih =>
    cases hs : n.isStatement with
    | true =>
      rw [exprTree, if_pos hs]
      exact hv n
    | false =>
      rw [exprTree_of_not_isStatement bytes visit hs]
      refine FailsOnly.bind (failsOnly_visitAll fun c hc => ?_) fun _ => .ok _
      have := size_le_sizeAll hc
      have := sizeAll_operands_lt n
      exact ih c.size (by omega) c rfl

end

/-- A tree that nests too deep fails at the first level beyond the limit, or one behind it when that
    is where an expression holds a statement. -/
theorem failsOnly_astAt (bytes : List UInt8) (limit : Int) (budget depth : Nat) (n : Cst) :
    FailsOnly (fun failure => failure = .tooDeep (depth + budget : Nat) limit ∨
      failure = .tooDeep (depth + budget + 1 : Nat) limit) (n.astAt bytes limit budget depth) := by
  induction budget generalizing depth n with
  | zero =>
    rw [astAt]
    split_ifs
    · exact .error (.inl rfl)
    · exact failsOnly_expression (fun _ => .error (.inr rfl)) n
  | succ budget ih =>
    have hv : ∀ c, FailsOnly (fun failure => failure = .tooDeep (depth + (budget + 1) : Nat) limit ∨
        failure = .tooDeep (depth + (budget + 1) + 1 : Nat) limit)
        (astAt bytes limit budget (depth + 1) c) := by
      intro c
      have h := ih (depth + 1) c
      rwa [Nat.add_right_comm, Nat.add_assoc depth] at h
    rw [astAt]
    split_ifs
    · exact failsOnly_statement hv n
    · exact failsOnly_expression hv n

/-- A source that is read is not blank, and its tree is that of the concrete tree. -/
theorem ast_of_parse {grammar : String → Cst} {limit : Int} {source : String} {tree : Ast}
    (h : (parse grammar limit source).outcome = .ok tree) :
    Text.blankOnly source = false ∧
      (grammar source).ast (Utf8.encode source) limit = .ok tree := by
  unfold parse at h
  split at h
  · exact absurd h (by simp [Report.fail])
  · next hblank =>
    simp only [] at h
    split at h
    · exact absurd h (by simp [Report.fail])
    · simp only [Report.outcome_bind_eq_ok_iff, Report.outcome_pure, Except.ok.injEq] at h
      obtain ⟨read, hread, _, -, rfl⟩ := h
      exact ⟨by simpa using hblank, hread⟩

/-- A faulty tree means a faulty source and nothing else. -/
theorem exists_faultySource_of_failure? {n : Cst} {failure : Failure}
    (h : n.failure? = some failure) :
    ∃ missing line column, failure = .faultySource missing line column := by
  unfold failure? at h
  split at h
  · split at h <;> cases h <;> exact ⟨_, _, _, rfl⟩
  · exact absurd h (by simp)

/-- A source that is not read is blank, or its tree is faulty or nests too deep. -/
theorem failsOnly_parse (grammar : String → Cst) (limit : Int) (source : String) :
    FailsOnly (fun failure => failure = .noSource ∨
      (∃ missing line column, failure = .faultySource missing line column ∧
        (grammar source).failure? = some failure) ∨
      ∃ depth, failure = .tooDeep depth limit) (parse grammar limit source).outcome := by
  unfold parse
  split_ifs
  · exact .error (.inl rfl)
  · simp only []
    split
    · next failure hfailure =>
      obtain ⟨missing, line, column, rfl⟩ := exists_faultySource_of_failure? hfailure
      exact .error (.inr (.inl ⟨_, _, _, rfl, hfailure⟩))
    · simp only [Report.outcome_bind]
      refine FailsOnly.bind (fun failure h => .inr (.inr ?_)) fun _ => .ok _
      rcases failsOnly_astAt _ _ _ _ _ failure h with rfl | rfl <;> exact ⟨_, rfl⟩

end FlowSketch.Cst
