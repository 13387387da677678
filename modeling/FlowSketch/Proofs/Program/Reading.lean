import FlowSketch.Chart.Build

/-!
# Reading a tree as a program

The structured program of a tree, as a plain function of the tree. The outline of a tree, which
watches the depth and records what is malformed, gives the same program whenever it gives one.

* `Ast.program` — the program of a tree.
* `Ast.members`, `Ast.slotProgram`, `Ast.bodyProgram` — the parts that it is made of.

Results:

* `Ast.program_functionDef`, `Ast.program_sequence`, `Ast.program_ifStmt`, `Ast.program_loop`,
  `Ast.program_step`: the program of a node by its kind.
* `Ast.reads_of_program`: the kind of a node by its program.
* `Ast.eq_program_of_outline`: an outline that succeeds is the program of the tree.
* `Flowchart.eq_ofProgram_of_ofAst`: hence a flowchart that is built is the layout of the program.
-/

namespace FlowSketch

/-- The form of the loops of that kind. -/
def Kind.loopForm? : Kind → Option LoopForm
  | forLoop => some .forLoop
  | whileLoop => some .whileLoop
  | doWhile => some .doWhile
  | _ => none

/-- The kinds that are drawn as one step. -/
def Kind.isStep : Kind → Bool
  | returnStmt | declaration | call | binaryOp | switchStmt | other => true
  | _ => false

namespace Ast

/-- The program of a tree. A block stands for its children, an `else` for its body or else its
    children, a slot that is not filled for the empty block. -/
def program (n : Ast) : Stmt :=
  match n.kind with
  | .functionDef =>
    match _h : n.child? .body with
    | some body => .function n.label body.program
    | none => .function n.label (.block (n.children.map fun child => child.program))
  | .compoundBlock => .block (n.children.map fun child => child.program)
  | .elseClause =>
    match _h : n.child? .body with
    | some body => .block [body.program]
    | none => .block (n.children.map fun child => child.program)
  | .ifStmt =>
    .branch n.label
      (match _h : n.child? .body with
        | some yes => yes.program
        | none => .block [])
      (match _h : n.child? .elseBranch with
        | some no => no.program
        | none => .block [])
  | kind =>
    match kind.loopForm? with
    | some form =>
      .loop form n.label
        (match _h : n.child? .body with
          | some body => body.program
          | none => .block [])
    | none => .step (actionOf kind) n.label
termination_by sizeOf n
decreasing_by
  all_goals first | exact sizeOf_child?_lt ‹_› | exact sizeOf_lt_of_mem_children ‹_›

/-- The nodes that a node puts in sequence: the children of a block, the body of an `else` or else
    its children, the children of a function that has no body. -/
def members (n : Ast) : List Ast :=
  match n.kind, n.child? .body with
  | .compoundBlock, _ => n.children
  | .elseClause, some body => [body]
  | .elseClause, none => n.children
  | .functionDef, none => n.children
  | _, _ => []

theorem mem_children_of_mem_members {n m : Ast} (h : m ∈ n.members) : m ∈ n.children := by
  unfold members at h
  split at h
  · exact h
  · rename_i body _ hb
    rw [List.mem_singleton.1 h]
    exact mem_children_of_child? hb
  · exact h
  · exact h
  · simp at h

/-- The program of a slot, the empty block when nothing fills it. -/
def slotProgram (n : Ast) (slot : Slot) : Stmt :=
  match n.child? slot with
  | some child => child.program
  | none => .block []

/-- The program of what a loop or function governs: its body, or all children of a function that
    has no body. -/
def bodyProgram (n : Ast) : Stmt :=
  match n.child? .body with
  | some body => body.program
  | none => .block (n.members.map program)

/-! ## The program of a node by its kind -/

theorem program_functionDef {n : Ast} (h : n.kind = .functionDef) :
    n.program = .function n.label n.bodyProgram := by
  rw [program, h]
  cases hb : n.child? .body <;> simp [bodyProgram, members, h, hb]

theorem program_sequence {n : Ast} (h : n.kind = .compoundBlock ∨ n.kind = .elseClause) :
    n.program = .block (n.members.map program) := by
  rcases h with h | h
  · rw [program, h]
    simp [members, h]
  · rw [program, h]
    cases hb : n.child? .body <;> simp [members, h, hb]

theorem program_ifStmt {n : Ast} (h : n.kind = .ifStmt) :
    n.program = .branch n.label (n.slotProgram .body) (n.slotProgram .elseBranch) := by
  rw [program, h]
  cases hb : n.child? .body <;> cases he : n.child? .elseBranch <;> simp [slotProgram, hb, he]

theorem program_loop {n : Ast} {form : LoopForm} (h : n.kind.loopForm? = some form) :
    n.program = .loop form n.label n.bodyProgram := by
  cases hk : n.kind <;> simp only [Kind.loopForm?, hk, Option.some.injEq, reduceCtorEq] at h
  all_goals
    subst h
    rw [program, hk]
    cases hb : n.child? .body <;> simp [Kind.loopForm?, bodyProgram, members, hk, hb]

theorem program_step {n : Ast} (h : n.kind.isStep = true) :
    n.program = .step (actionOf n.kind) n.label := by
  cases hk : n.kind <;> simp only [Kind.isStep, hk, reduceCtorEq] at h
  all_goals
    rw [program, hk]
    rfl

theorem bodyProgram_of_loop {n : Ast} {form : LoopForm} (h : n.kind.loopForm? = some form) :
    n.bodyProgram = n.slotProgram .body := by
  cases hk : n.kind <;> simp only [Kind.loopForm?, hk, reduceCtorEq] at h
  all_goals cases hb : n.child? .body <;> simp [bodyProgram, slotProgram, members, hk, hb]

/-- The forms that the program of a node can take. -/
theorem kind_cases (n : Ast) : n.kind.isStep = true ∨
    (n.kind = .compoundBlock ∨ n.kind = .elseClause) ∨ n.kind = .ifStmt ∨
    (∃ form, n.kind.loopForm? = some form) ∨ n.kind = .functionDef := by
  cases h : n.kind <;> simp [Kind.isStep, Kind.loopForm?]

/-- Functions are read as functions, and nothing else is. -/
theorem isFunction_program_eq (n : Ast) :
    n.program.isFunction = decide (n.kind = .functionDef) := by
  rcases n.kind_cases with hk | hk | hk | ⟨form, hk⟩ | hk
  · rw [program_step hk]
    cases h : n.kind <;> simp_all [Kind.isStep, Stmt.isFunction]
  · rw [program_sequence hk]
    rcases hk with hk | hk <;> rw [hk] <;> rfl
  · rw [program_ifStmt hk, hk]
    rfl
  · rw [program_loop hk]
    cases h : n.kind <;> simp_all [Kind.loopForm?, Stmt.isFunction]
  · rw [program_functionDef hk, hk]
    rfl

/-- What a node must be to be read as a statement. -/
def Reads (n : Ast) : Stmt → Prop
  | .step action label => n.kind.isStep = true ∧ action = actionOf n.kind ∧ label = n.label
  | .block stmts =>
    (n.kind = .compoundBlock ∨ n.kind = .elseClause) ∧ stmts = n.members.map program
  | .branch label yes no =>
    n.kind = .ifStmt ∧ label = n.label ∧ yes = n.slotProgram .body ∧ no = n.slotProgram .elseBranch
  | .loop form label body =>
    n.kind.loopForm? = some form ∧ label = n.label ∧ body = n.bodyProgram
  | .function label body => n.kind = .functionDef ∧ label = n.label ∧ body = n.bodyProgram

theorem reads_of_program {n : Ast} {s : Stmt} (h : n.program = s) : n.Reads s := by
  subst h
  rcases n.kind_cases with hk | hk | hk | ⟨form, hk⟩ | hk
  · rw [program_step hk]
    exact ⟨hk, rfl, rfl⟩
  · rw [program_sequence hk]
    exact ⟨hk, rfl⟩
  · rw [program_ifStmt hk]
    exact ⟨hk, rfl, rfl, rfl⟩
  · rw [program_loop hk]
    exact ⟨hk, rfl, rfl⟩
  · rw [program_functionDef hk]
    exact ⟨hk, rfl, rfl⟩

/-! ## Outlines -/

section Outline

variable {visit : Ast → Report Failure Stmt}

theorem eq_map_program_of_each (hv : ∀ m s, (visit m).outcome = .ok s → s = m.program)
    {ns : List Ast} {stmts : List Stmt} (h : (Report.each visit ns).outcome = .ok stmts) :
    stmts = ns.map program := by
  induction ns generalizing stmts with
  | nil =>
    simp only [Report.each, Report.outcome_pure, Except.ok.injEq] at h
    rw [← h, List.map_nil]
  | cons n ns ih =>
    simp only [Report.each, Report.outcome_bind_eq_ok_iff, Report.outcome_pure,
      Except.ok.injEq] at h
    obtain ⟨s, hs, rest, hrest, rfl⟩ := h
    rw [hv n s hs, ih hrest, List.map_cons]

theorem eq_slotProgram_of_outlineSlot (hv : ∀ m s, (visit m).outcome = .ok s → s = m.program)
    {n : Ast} {slot : Slot} {s : Stmt} (h : (outlineSlot visit n slot).outcome = .ok s) :
    s = n.slotProgram slot := by
  unfold outlineSlot at h
  unfold slotProgram
  cases hc : n.child? slot with
  | none =>
    rw [hc] at h
    exact (Except.ok.inj h).symm
  | some child =>
    rw [hc] at h
    exact hv child s h

theorem eq_bodyProgram_of_outlineBody (hv : ∀ m s, (visit m).outcome = .ok s → s = m.program)
    {n : Ast} {s : Stmt} (hk : n.kind = .functionDef)
    (h : (outlineBody visit n).outcome = .ok s) : s = n.bodyProgram := by
  unfold outlineBody at h
  unfold bodyProgram
  cases hc : n.child? .body with
  | none =>
    simp only [hc, Report.outcome_bind_eq_ok_iff, Report.outcome_pure, Except.ok.injEq] at h
    obtain ⟨stmts, hstmts, rfl⟩ := h
    simp [eq_map_program_of_each hv hstmts, members, hk, hc]
  | some body =>
    rw [hc] at h
    exact hv body s h

end Outline

theorem eq_loop_of_outlineLoop {visit : Ast → Report Failure Stmt}
    (hv : ∀ m s, (visit m).outcome = .ok s → s = m.program) {n : Ast} {form : LoopForm} {s : Stmt}
    (hk : n.kind.loopForm? = some form) (h : (outlineLoop visit n form).outcome = .ok s) :
    s = n.program := by
  simp only [outlineLoop, Report.outcome_bind_eq_ok_iff, Report.outcome_pure, Except.ok.injEq] at h
  obtain ⟨_, _, body, hbody, rfl⟩ := h
  rw [program_loop hk, eq_slotProgram_of_outlineSlot hv hbody, bodyProgram_of_loop hk]

/-- An outline at any depth gives the program of the tree or nothing. -/
theorem eq_program_of_outlineAt {limit : Int} {budget depth : Nat} {n : Ast} {s : Stmt}
    (h : (n.outlineAt limit budget depth).outcome = .ok s) : s = n.program := by
  induction budget generalizing depth n s with
  | zero => simp [outlineAt, Report.fail] at h
  | succ budget ih =>
    have hv : ∀ m s, (outlineAt limit budget (depth + 1) m).outcome = .ok s → s = m.program :=
      fun m s => ih
    cases hk : n.kind <;> simp only [outlineAt, hk] at h
    case functionDef =>
      simp only [Report.outcome_bind_eq_ok_iff, Report.outcome_pure, Except.ok.injEq] at h
      obtain ⟨_, _, body, hbody, rfl⟩ := h
      rw [program_functionDef hk, eq_bodyProgram_of_outlineBody hv hk hbody]
    case ifStmt =>
      simp only [Report.outcome_bind_eq_ok_iff, Report.outcome_pure, Except.ok.injEq] at h
      obtain ⟨_, _, yes, hyes, no, hno, rfl⟩ := h
      rw [program_ifStmt hk, eq_slotProgram_of_outlineSlot hv hyes,
        eq_slotProgram_of_outlineSlot hv hno]
    case compoundBlock =>
      simp only [Report.outcome_bind_eq_ok_iff, Report.outcome_pure, Except.ok.injEq] at h
      obtain ⟨stmts, hstmts, rfl⟩ := h
      rw [program_sequence (.inl hk), eq_map_program_of_each hv hstmts]
      simp [members, hk]
    case elseClause =>
      rw [program_sequence (.inr hk)]
      cases hb : n.child? .body with
      | some body =>
        simp only [hb, Report.outcome_bind_eq_ok_iff, Report.outcome_pure, Except.ok.injEq] at h
        obtain ⟨s, hs, rfl⟩ := h
        simp [members, hk, hb, hv body s hs]
      | none =>
        simp only [hb, Report.outcome_bind_eq_ok_iff, Report.outcome_pure, Except.ok.injEq] at h
        obtain ⟨stmts, hstmts, rfl⟩ := h
        rw [eq_map_program_of_each hv hstmts]
        simp [members, hk, hb]
    case forLoop => exact eq_loop_of_outlineLoop hv (by rw [hk]; rfl) h
    case whileLoop => exact eq_loop_of_outlineLoop hv (by rw [hk]; rfl) h
    case doWhile => exact eq_loop_of_outlineLoop hv (by rw [hk]; rfl) h
    all_goals
      rw [program_step (by rw [hk]; rfl), hk]
      exact (Except.ok.inj h).symm

/-- An outline that succeeds is the program of the tree. -/
theorem eq_program_of_outline {limit : Int} {root : Ast} {s : Stmt}
    (h : (root.outline limit).outcome = .ok s) : s = root.program :=
  eq_program_of_outlineAt h

end Ast

/-- A flowchart that is built is the layout of the program, whatever the limit was. -/
theorem Flowchart.eq_ofProgram_of_ofAst {limit : Int} {root : Ast} {chart : Flowchart}
    (h : (Flowchart.ofAst limit root).outcome = .ok chart) :
    ∃ malformed, chart = Flowchart.ofProgram root.program malformed := by
  simp only [Flowchart.ofAst, Report.outcome_bind_eq_ok_iff, Report.outcome_pure,
    Except.ok.injEq] at h
  obtain ⟨program, hprogram, _, _, rfl⟩ := h
  rw [Ast.eq_program_of_outline hprogram]
  exact ⟨_, rfl⟩

end FlowSketch
