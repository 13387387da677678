import FlowSketch.Proofs.Cst.Stack

/-!
# Levels of statements

The guard against deep nesting looks at statements alone. A part of a statement is one level deeper
than the statement; a part of an expression is on the level of the expression, unless it is a
statement itself. So whether a tree can be read is a matter of the levels of its statements, and
where it can, a larger limit makes no difference.

* `Cst.parts` — the nodes that reading a node goes on to.
* `Cst.level` — the depth of a part.
* `Cst.Fits` — no statement that is read lies beyond the limit.

Results:

* `Cst.succeeds_statement_iff`, `Cst.statement_congr`: a statement succeeds exactly when its parts
  do, and depends on nothing but these.
* `Cst.succeeds_astFrom_iff`: a node has a tree exactly when it fits.
* `Cst.astFrom_of_le`: and then the same under every larger limit.
-/

namespace FlowSketch

/-! ## Success -/

/-- There is a result. -/
def Succeeds {ε α : Type} (x : Except ε α) : Prop := ∃ a, x = .ok a

section

variable {ε α β : Type} {x : Except ε α} {f : α → Except ε β}

@[simp] theorem succeeds_ok (a : α) : Succeeds (.ok a : Except ε α) := ⟨a, rfl⟩

@[simp] theorem not_succeeds_error (e : ε) : ¬Succeeds (.error e : Except ε α) := by
  rintro ⟨a, h⟩
  cases h

theorem not_succeeds_iff : ¬Succeeds x ↔ ∃ e, x = .error e := by
  cases x <;> simp

/-- What follows may depend on a result, but not whether it succeeds. -/
theorem succeeds_bind_iff {P : Prop} (hf : ∀ a, Succeeds (f a) ↔ P) :
    Succeeds (x >>= f) ↔ Succeeds x ∧ P := by
  cases x with
  | error e => simp [bind, Except.bind]
  | ok a => simpa [bind, Except.bind] using hf a

theorem succeeds_map_iff {g : α → β} :
    Succeeds (x >>= fun a => (return g a : Except ε β)) ↔ Succeeds x := by
  rw [succeeds_bind_iff (P := True) (fun a => by simp [pure, Except.pure]), and_true]

end

namespace Form

/-- The fields of which what fills them is read as it is. -/
def fields : Form → List String
  | scope | function | whileLoop | doLoop | switchStmt => ["body"]
  | ifStmt => ["consequence", "alternative"]
  | forLoop => ["initializer", "condition", "update", "body"]
  | rangeLoop => ["right", "body"]
  | _ => []

/-- The condition is read without its wrappers. -/
def unwraps : Form → Bool
  | ifStmt | whileLoop | doLoop | switchStmt => true
  | _ => false

end Form

namespace Cst

/-! ## Parts -/

/-- The children that are read for what they are, not for the field that they fill. -/
def members (n : Cst) : List Cst :=
  match n.form with
  | .block | .elseClause => n.content
  | .template => n.content.filter (fun c => c.type != "template_parameter_list")
  | .returnStmt | .declaration | .operation | .other => n.inner
  | .expressionStmt =>
    match n.content with
    | [single] => [single]
    | _ => n.inner
  | _ => []

/-- The nodes that reading a node goes on to. -/
def parts (n : Cst) : List Cst :=
  n.members ++ n.form.fields.filterMap n.child? ++
    (if n.form.unwraps then n.condition?.toList else []) ++
    (if n.form = .call then n.operands else [])

theorem mem_parts_iff {n c : Cst} : c ∈ n.parts ↔
    c ∈ n.members ∨ (∃ f ∈ n.form.fields, n.child? f = some c) ∨
    (n.form.unwraps = true ∧ n.condition? = some c) ∨ (n.form = .call ∧ c ∈ n.operands) := by
  simp only [parts, List.mem_append, List.mem_filterMap, or_assoc]
  refine or_congr_right (or_congr_right (or_congr ?_ ?_))
  · split <;> simp_all
  · split <;> simp_all

theorem forall_mem_parts_iff {n : Cst} {P : Cst → Prop} : (∀ c ∈ n.parts, P c) ↔
    (∀ c ∈ n.members, P c) ∧ (∀ f ∈ n.form.fields, ∀ c, n.child? f = some c → P c) ∧
      (n.form.unwraps = true → ∀ c, n.condition? = some c → P c) ∧
      (n.form = .call → ∀ c ∈ n.operands, P c) := by
  simp only [mem_parts_iff]
  grind

theorem parts_of_not_isStatement {n : Cst} (hs : n.isStatement = false) : n.parts = n.operands := by
  unfold isStatement at hs
  unfold parts members operands operandHolders
  cases hf : n.form <;> simp_all [Form.isStatement, Form.fields, Form.unwraps]

/-- A statement of a single expression has that for its member, any other the expressions in it. -/
theorem members_expressionStmt {n : Cst} (hf : n.form = .expressionStmt) :
    n.members = if n.content.length = 1 then n.content else n.inner := by
  unfold members
  simp only [hf]
  split
  · next single hcontent => rw [hcontent, if_pos (List.length_singleton)]
  · next hcontent =>
    rw [if_neg fun hone => (List.length_eq_one_iff.1 hone).elim hcontent]

section

variable {bytes : List UInt8} {visit other : Cst → Except Failure Ast}

theorem expressionStmt_of_content {n single : Cst} (h : n.content = [single]) :
    n.expressionStmt bytes visit = do
      let tree ← visit single
      return n.node bytes tree.kind {} tree.children tree.name := by
  unfold expressionStmt
  rw [h]

theorem expressionStmt_of_length_ne {n : Cst} (h : n.content.length ≠ 1) :
    n.expressionStmt bytes visit = do
      let children ← expressions visit n
      return n.node bytes .other {} children := by
  unfold expressionStmt
  split
  · next single hcontent => exact absurd (hcontent ▸ List.length_singleton) h
  · rfl

theorem expressionStmt_congr {n : Cst} (hf : n.form = .expressionStmt)
    (h : ∀ c ∈ n.members, visit c = other c) :
    n.expressionStmt bytes visit = n.expressionStmt bytes other := by
  rw [members_expressionStmt hf] at h
  by_cases hone : n.content.length = 1
  · rw [if_pos hone] at h
    obtain ⟨single, hsingle⟩ := List.length_eq_one_iff.1 hone
    have hvisit := h single (hsingle ▸ List.mem_singleton_self single)
    rw [expressionStmt_of_content hsingle, expressionStmt_of_content hsingle, hvisit]
  · rw [if_neg hone] at h
    rw [expressionStmt_of_length_ne hone, expressionStmt_of_length_ne hone]
    simp only [expressions, visitAll_congr h]

theorem succeeds_visitAll_iff {cs : List Cst} :
    Succeeds (visitAll visit cs) ↔ ∀ c ∈ cs, Succeeds (visit c) := by
  induction cs with
  | nil => simp [visitAll]
  | cons c cs ih =>
    rw [visitAll, succeeds_bind_iff (fun _ => succeeds_map_iff), ih, List.forall_mem_cons]

theorem succeeds_visitOption_iff {c? : Option Cst} :
    Succeeds (visitOption visit c?) ↔ ∀ c, c? = some c → Succeeds (visit c) := by
  cases c? with
  | none => simp [visitOption]
  | some c => rw [visitOption, succeeds_map_iff]; simp

/-- A statement succeeds exactly when its parts do. -/
theorem succeeds_statement_iff {n : Cst} (hs : n.isStatement = true) :
    Succeeds (n.statement bytes visit) ↔ ∀ c ∈ n.parts, Succeeds (visit c) := by
  rw [forall_mem_parts_iff]
  unfold isStatement at hs
  unfold statement members
  cases hf : n.form
  case block | elseClause | template | returnStmt | declaration =>
    simp only [statements, expressions, Form.fields, Form.unwraps]
    rw [succeeds_map_iff, succeeds_visitAll_iff]
    simp
  case scope | function =>
    simp only [part, Form.fields, Form.unwraps]
    rw [succeeds_map_iff, succeeds_visitOption_iff]
    simp
  case rangeLoop | whileLoop | doLoop | switchStmt =>
    simp only [conditional, conditionPart, part, Form.fields, Form.unwraps]
    rw [succeeds_bind_iff (fun _ => succeeds_map_iff)]
    simp [succeeds_visitOption_iff, and_comm]
  case ifStmt =>
    simp only [conditionPart, part, Form.fields, Form.unwraps]
    rw [succeeds_bind_iff (fun _ => succeeds_bind_iff (fun _ => succeeds_map_iff))]
    simp [succeeds_visitOption_iff, and_comm]
  case forLoop =>
    simp only [part, Form.fields, Form.unwraps]
    rw [succeeds_bind_iff (fun _ => succeeds_bind_iff (fun _ => succeeds_bind_iff
      (fun _ => succeeds_map_iff)))]
    simp [succeeds_visitOption_iff]
  case expressionStmt =>
    simp only [expressionStmt, expressions, Form.fields, Form.unwraps]
    split <;> rw [succeeds_map_iff]
    · simp [*]
    · rw [succeeds_visitAll_iff]
      simp
  case call | operation | other =>
    rw [hf] at hs
    exact absurd hs (by decide)

/-- A statement depends on nothing but its parts. -/
theorem statement_congr {n : Cst} (hs : n.isStatement = true)
    (h : ∀ c ∈ n.parts, visit c = other c) :
    n.statement bytes visit = n.statement bytes other := by
  obtain ⟨hmembers, hfields, hcondition, -⟩ := forall_mem_parts_iff.1 h
  have hpart : ∀ f ∈ n.form.fields, part visit n f = part other n f := by
    intro f hf
    unfold part visitOption
    cases hc : n.child? f with
    | none => rfl
    | some c => simp only [hfields f hf c hc]
  have hcond : n.form.unwraps = true → conditionPart visit n = conditionPart other n := by
    intro hf
    unfold conditionPart visitOption
    cases hc : n.condition? with
    | none => rfl
    | some c => simp only [hcondition hf c hc]
  have hexpression : n.form = .expressionStmt →
      n.expressionStmt bytes visit = n.expressionStmt bytes other :=
    fun hf => expressionStmt_congr hf hmembers
  unfold isStatement at hs
  unfold members at hmembers
  unfold statement
  cases hf : n.form <;>
    simp only [hf, Form.fields, Form.unwraps, List.forall_mem_cons] at hs hmembers hpart hcond ⊢
  case block | elseClause | template | returnStmt | declaration =>
    simp only [statements, expressions, visitAll_congr hmembers]
  case scope | function | forLoop | rangeLoop => simp only [hpart]
  case ifStmt | whileLoop | doLoop | switchStmt => simp only [conditional, hpart, hcond]
  case expressionStmt => exact hexpression hf
  case call | operation | other => exact absurd hs (by decide)

end

/-! ## Sizes -/

section

variable {n c : Cst}

theorem mem_content_of_mem_members (h : c ∈ n.members) : c ∈ n.content := by
  have hinner : c ∈ n.inner → c ∈ n.content := fun h => (List.mem_filter.1 h).1
  unfold members at h
  split at h
  · exact h
  · exact h
  · exact (List.mem_filter.1 h).1
  all_goals first | exact hinner h | skip
  · split at h
    · next hcontent => rwa [hcontent]
    · exact hinner h
  · simp at h

theorem size_unwrap_le (n : Cst) : n.unwrap.size ≤ n.size := by
  fun_induction unwrap n with
  | case1 n _ inside h ih => exact Nat.le_trans ih (Nat.le_of_lt (size_lt_of_wrapped? h))
  | case2 => exact Nat.le_refl _
  | case3 => exact Nat.le_refl _

/-- A part is smaller than what it is a part of. -/
theorem size_lt_of_mem_parts : ∀ c ∈ n.parts, c.size < n.size := by
  refine forall_mem_parts_iff.2 ⟨fun c hc => ?_, fun f _ c hc => ?_, fun _ c hc => ?_,
    fun _ c hc => ?_⟩
  · exact size_lt_of_mem (mem_children_of_mem_content (mem_content_of_mem_members hc))
  · exact size_lt_of_child? hc
  · obtain ⟨wrapped, hwrapped, rfl⟩ := Option.map_eq_some_iff.1 hc
    exact Nat.lt_of_le_of_lt (size_unwrap_le wrapped) (size_lt_of_child? hwrapped)
  · exact Nat.lt_of_le_of_lt (size_le_sizeAll hc) (sizeAll_operands_lt n)

end

/-! ## Levels -/

/-- The depth of a part `c` of a node at a depth. A statement is one level deeper than what it is a
    part of, and so is any part of a statement. -/
def level (depth : Nat) (n c : Cst) : Nat :=
  if n.isStatement || c.isStatement then depth + 1 else depth

/-- No statement that is read lies beyond the limit, the node being at a depth. -/
inductive Fits (limit : Int) : Nat → Cst → Prop
  | node {depth : Nat} {n : Cst} : (n.isStatement = true → depth ≤ limit) →
    (∀ c ∈ n.parts, Fits limit (n.level depth c) c) → Fits limit depth n

section

variable {bytes : List UInt8} {limit larger : Int} {depth : Nat} {n : Cst}

theorem fits_iff : n.Fits limit depth ↔ (n.isStatement = true → depth ≤ limit) ∧
    ∀ c ∈ n.parts, c.Fits limit (n.level depth c) :=
  ⟨fun ⟨hn, hparts⟩ => ⟨hn, hparts⟩, fun ⟨hn, hparts⟩ => .node hn hparts⟩

/-- An operand is read where it is. -/
theorem exprTree_eq_astFrom (c : Cst) : c.exprTree bytes (astFrom bytes limit (depth + 1)) =
    c.astFrom bytes limit (if c.isStatement then depth + 1 else depth) := by
  cases hs : c.isStatement with
  | true => rw [exprTree_of_isStatement hs, if_pos rfl]
  | false =>
    rw [if_neg (by decide), astFrom_of_not_isStatement bytes limit depth hs, expression_eq_exprTree]

theorem astFrom_operands (hs : n.isStatement = false) : n.astFrom bytes limit depth = (do
    let operands ← visitAll (fun c => c.astFrom bytes limit (n.level depth c)) n.operands
    return n.expressionNode bytes operands) := by
  rw [astFrom_of_not_isStatement bytes limit depth hs, expression_eq_exprTree,
    exprTree_of_not_isStatement _ _ hs]
  congr 1
  refine visitAll_congr fun c _ => ?_
  rw [exprTree_eq_astFrom, level, hs, Bool.false_or]

/-- A node has a tree exactly when it fits. -/
theorem succeeds_astFrom_iff : Succeeds (n.astFrom bytes limit depth) ↔ n.Fits limit depth := by
  induction hsize : n.size using Nat.strongRecOn generalizing n depth with
  | ind size ih =>
    have hparts : (∀ c ∈ n.parts, Succeeds (c.astFrom bytes limit (n.level depth c))) ↔
        ∀ c ∈ n.parts, c.Fits limit (n.level depth c) :=
      forall₂_congr fun c hc => ih c.size (hsize ▸ size_lt_of_mem_parts c hc) rfl
    rw [fits_iff, ← hparts]
    cases hs : n.isStatement with
    | true =>
      rw [astFrom_of_isStatement bytes limit depth hs]
      simp only [level, hs, Bool.true_or, if_true, true_imp_iff]
      split_ifs with hlimit
      · simp [Int.not_le.2 hlimit]
      · simp [succeeds_statement_iff hs, Int.not_lt.1 hlimit]
    | false =>
      rw [astFrom_operands hs, succeeds_map_iff, succeeds_visitAll_iff, parts_of_not_isStatement hs]
      simp

/-- A node that has a tree has the same under every larger limit. -/
theorem astFrom_of_le (hle : limit ≤ larger) (h : n.Fits limit depth) :
    n.astFrom bytes larger depth = n.astFrom bytes limit depth := by
  induction h with
  | @node depth n hn _ ih =>
    cases hs : n.isStatement with
    | true =>
      have hdepth := hn hs
      rw [astFrom_of_isStatement bytes _ depth hs, astFrom_of_isStatement bytes _ depth hs,
        if_neg (by omega), if_neg (by omega)]
      refine statement_congr hs fun c hc => ?_
      simpa [level, hs] using ih c hc
    | false =>
      rw [parts_of_not_isStatement hs] at ih
      rw [astFrom_operands hs, astFrom_operands hs, visitAll_congr ih]

end

end Cst

end FlowSketch
