import FlowSketch.Proofs.Chart.Drawn
import FlowSketch.Proofs.Text.Words

/-!
# Placeholders

The labels of functions, branches, while and do-while loops are made around one part of the node: a
name or a condition. Where that part is not there, or says nothing, a placeholder stands in and the
node is recorded as malformed. There is one exception: a condition of a branch that is there but
blank is replaced without a record.

* `Kind.hasPart`, `Ast.part?` — the part that a label is made around.
* `Ast.lacksPart` — that part is missing; `Ast.lackRecord` is the record of it.
* `Ast.hasBlankCondition` — the exception.

Results:

* `Ast.label_eq_frame`, `Ast.lacksPart_iff`: a placeholder is in a label exactly when the part is
  missing.
* `Ast.malformed?_eq`: what is recorded of a node.
* `Flowchart.malformed_eq_lacking_iff`: the records of a flowchart, and when there is one for each
  placeholder.
-/

namespace FlowSketch

namespace Kind

/-- Functions, branches, while and do-while loops have a label made around a part. -/
def hasPart : Kind → Bool
  | functionDef | ifStmt | whileLoop | doWhile => true
  | _ => false

/-- What stands in a label for the part that is missing. -/
def placeholder : Kind → String
  | functionDef => Ast.anonymousFunction
  | _ => Ast.missingCondition

/-- A label around its part. -/
def frame : Kind → String → String
  | functionDef, part => "Function: " ++ part
  | doWhile, part => "do ... while (" ++ part ++ ")"
  | _, part => part

/-- The defect of a node without its part. -/
def lack : Kind → Defect
  | functionDef => .functionWithoutName
  | ifStmt => .ifWithoutCondition
  | _ => .loopWithoutCondition

end Kind

namespace Ast

variable {n : Ast}

/-- A text that says something. -/
def spoken? (text : String) : Option String := if text.isEmpty then none else some text

/-- The name or the condition that the label of a node is made around. -/
def part? (n : Ast) : Option String :=
  match n.kind with
  | .functionDef => n.name.bind spoken?
  | .ifStmt => (n.child? .condition).bind (fun condition => spoken? (Text.collapse condition.text))
  | .whileLoop | .doWhile =>
    (n.child? .condition).bind (fun condition => spoken? (clauseText condition.text))
  | _ => none

/-- The name of a function is absent or empty, the condition of a branch is absent or blank, or the
    condition of a while or do-while loop is absent or has nothing but semicolons at its end. -/
def lacksPart (n : Ast) : Bool :=
  match n.kind with
  | .functionDef => n.name.all String.isEmpty
  | .ifStmt => (n.child? .condition).all (fun condition => Text.blankOnly condition.text)
  | .whileLoop | .doWhile =>
    (n.child? .condition).all (fun condition => (clauseText condition.text).isEmpty)
  | _ => false

/-- The record of a node without its part. -/
def lackRecord (n : Ast) : Malformed := ⟨n.kind, n.kind.lack, Text.collapse n.text, n.line⟩

/-- A branch whose condition is there but blank. -/
def hasBlankCondition (n : Ast) : Bool :=
  n.kind = .ifStmt && (n.child? .condition).any (fun condition => Text.blankOnly condition.text)

/-! ## Labels -/

theorem spoken?_eq_none_iff {text : String} : spoken? text = none ↔ text.isEmpty = true := by
  rw [spoken?, ite_eq_left_iff]
  simp

theorem orElse_eq_getD (text instead : String) :
    orElse text instead = (spoken? text).getD instead := by
  unfold orElse spoken?
  split_ifs <;> rfl

theorem properName?_eq_bind (n : Ast) : n.properName? = n.name.bind spoken? := by
  rw [properName?]
  cases n.name with
  | none => rfl
  | some name => cases h : name.isEmpty <;> simp [Option.filter, spoken?, h]

theorem isEmpty_collapse (text : String) :
    (Text.collapse text).isEmpty = Text.blankOnly text := by
  rw [Bool.eq_iff_iff, String.isEmpty_iff, Text.collapse_eq_empty_iff]

theorem clause_condition_eq_orElse (n : Ast) :
    orElse (n.clause .condition) missingCondition =
      ((n.child? .condition).bind (fun condition => spoken? (clauseText condition.text))).getD
        missingCondition := by
  rw [orElse_eq_getD, clause]
  cases n.child? .condition with
  | none => simp [spoken?]
  | some condition => rw [Option.bind_some]

/-- A label is made around its part, or around a placeholder for it. -/
theorem label_eq_frame (h : n.kind.hasPart = true) :
    n.label = n.kind.frame (n.part?.getD n.kind.placeholder) := by
  unfold label part?
  cases hk : n.kind <;> simp only [hk, Kind.hasPart, Bool.false_eq_true] at h ⊢
  case functionDef => rw [properName?_eq_bind]; rfl
  case ifStmt =>
    cases n.child? .condition with
    | none => rfl
    | some condition =>
      rw [Option.bind_some]
      exact orElse_eq_getD (Text.collapse condition.text) missingCondition
  case whileLoop => exact n.clause_condition_eq_orElse
  case doWhile => rw [clause_condition_eq_orElse]; rfl

/-- A placeholder is in a label exactly when the part is missing. -/
theorem lacksPart_iff (n : Ast) :
    n.lacksPart = true ↔ n.kind.hasPart = true ∧ n.part? = none := by
  unfold lacksPart part?
  cases hk : n.kind
  case functionDef => cases n.name <;> simp [Kind.hasPart, spoken?_eq_none_iff]
  case ifStmt =>
    cases n.child? .condition <;> simp [Kind.hasPart, spoken?_eq_none_iff, ← isEmpty_collapse]
  case whileLoop => cases n.child? .condition <;> simp [Kind.hasPart, spoken?_eq_none_iff]
  case doWhile => cases n.child? .condition <;> simp [Kind.hasPart, spoken?_eq_none_iff]
  all_goals simp [Kind.hasPart]

/-! ## Records -/

theorem isNone_properName? (n : Ast) : n.properName?.isNone = n.name.all String.isEmpty := by
  rw [properName?_eq_bind]
  cases n.name with
  | none => rfl
  | some name => cases h : name.isEmpty <;> simp [spoken?, h]

theorem isEmpty_clause (n : Ast) (slot : Slot) : (n.clause slot).isEmpty =
    (n.child? slot).all (fun child => (clauseText child.text).isEmpty) := by
  rw [clause]
  cases n.child? slot with
  | none => simp
  | some child => rw [Option.all_some]

/-- A defect is found in every node without its part, but for a branch with a blank condition. -/
theorem defect?_eq (n : Ast) : n.defect? =
    if n.lacksPart && !n.hasBlankCondition then some n.kind.lack else none := by
  unfold defect? lacksPart hasBlankCondition
  cases hk : n.kind
  case functionDef => simp [isNone_properName?, Kind.lack]
  case ifStmt =>
    cases n.child? .condition with
    | none => rfl
    | some condition => simp
  case whileLoop => simp [isEmpty_clause, Kind.lack]
  case doWhile => simp [isEmpty_clause, Kind.lack]
  all_goals simp

theorem malformed?_eq (n : Ast) : n.malformed? =
    if n.lacksPart && !n.hasBlankCondition then some n.lackRecord else none := by
  rw [malformed?, defect?_eq]
  split_ifs <;> rfl

/-- A branch with a blank condition lacks its part. -/
theorem lacksPart_of_hasBlankCondition (h : n.hasBlankCondition = true) : n.lacksPart = true := by
  rw [hasBlankCondition, Bool.and_eq_true, decide_eq_true_eq] at h
  obtain ⟨hk, hblank⟩ := h
  unfold lacksPart
  rw [hk]
  cases hc : n.child? .condition with
  | none => rfl
  | some condition =>
    rw [hc] at hblank
    exact hblank

end Ast

/-- The records of a flowchart are those of the drawn nodes that lack their part, in pre-order and
    one for each, without the branches whose condition is there but blank. So there is one for each
    node whose label has a placeholder exactly when no branch has a blank condition. -/
theorem Flowchart.malformed_eq_lacking_iff {limit : Int} {root : Ast} {chart : Flowchart}
    (h : (Flowchart.ofAst limit root).outcome = .ok chart) :
    chart.malformed =
        (root.drawn.filter (fun n => n.lacksPart && !n.hasBlankCondition)).map Ast.lackRecord ∧
      (chart.malformed = (root.drawn.filter Ast.lacksPart).map Ast.lackRecord ↔
        ∀ n ∈ root.drawn, n.hasBlankCondition = false) ∧
      (∀ n : Ast, n.lacksPart = true ↔ n.kind.hasPart = true ∧ n.part? = none) ∧
      ∀ n : Ast, n.kind.hasPart = true →
        n.label = n.kind.frame (n.part?.getD n.kind.placeholder) := by
  have hrecords : chart.malformed =
      (root.drawn.filter (fun n => n.lacksPart && !n.hasBlankCondition)).map Ast.lackRecord := by
    obtain ⟨-, rfl⟩ := Flowchart.outcome_eq_ok_iff.1 h
    show root.notes.filterMap id = _
    rw [Ast.notes, List.filterMap_map, ← List.filterMap_eq_map, List.filterMap_filter]
    exact List.filterMap_congr fun n _ => n.malformed?_eq
  have hfilter : root.drawn.filter (fun n => n.lacksPart && !n.hasBlankCondition) =
      (root.drawn.filter Ast.lacksPart).filter (fun n => !n.hasBlankCondition) := by
    rw [List.filter_filter]
    exact List.filter_congr fun n _ => Bool.and_comm ..
  refine ⟨hrecords, ⟨?_, ?_⟩, Ast.lacksPart_iff, fun n => Ast.label_eq_frame⟩
  · intro heq n hn
    -- as many nodes are recorded as lack their part, so all of these are
    have hlength := congrArg List.length (hrecords.symm.trans heq)
    rw [List.length_map, List.length_map, hfilter, List.length_filter_eq_length_iff] at hlength
    by_contra hblank
    rw [Bool.not_eq_false] at hblank
    have hshown := hlength n (List.mem_filter.2 ⟨hn, Ast.lacksPart_of_hasBlankCondition hblank⟩)
    rw [hblank] at hshown
    exact absurd hshown (by decide)
  · intro hnone
    rw [hrecords, hfilter, List.filter_eq_self.2]
    intro n hn
    rw [hnone n (List.mem_of_mem_filter hn)]
    rfl

/-- The function `{ if (); else while (;) for (;;); do; while (x); }` without a name. -/
def Ast.bareStatements : Ast where
  kind := .functionDef
  text := "f()\n..."
  name := some ""
  line := 1
  children := [
    { kind := .ifStmt
      text := "if ()\n..."
      line := 2
      slots := { elseBranch := some 0 }
      children := [{ kind := .whileLoop
                     text := "while (;)"
                     line := 3
                     slots := { condition := some 0, body := some 1 }
                     children := [{ kind := .other, text := " ;" }, { kind := .forLoop }] }] },
    { kind := .doWhile
      slots := { condition := some 0 }
      children := [{ kind := .other, text := "x" }] }]

/-- The function, the branch and the while loop are recorded in this order. The for loop may do
    without its clauses, and the do-while loop has its condition. -/
theorem Flowchart.malformed_bareStatements : ∃ chart,
    (Flowchart.ofAst 9 Ast.bareStatements).outcome = .ok chart ∧
      chart.nodes.map (·.label) = ["Function: <anonymous>", "<missing condition>",
        "<missing condition>", "for (;;)", "do ... while (x)"] ∧
      chart.malformed = (Ast.bareStatements.drawn.filter Ast.lacksPart).map Ast.lackRecord ∧
      chart.malformed = [
        ⟨.functionDef, .functionWithoutName, "f() ...", 1⟩,
        ⟨.ifStmt, .ifWithoutCondition, "if () ...", 2⟩,
        ⟨.whileLoop, .loopWithoutCondition, "while (;)", 3⟩] := by
  have h : (Flowchart.ofAst 9 Ast.bareStatements).outcome = .ok _ := rfl
  have hdrawn : Ast.bareStatements.drawn.all (fun n => !n.hasBlankCondition) = true := by cbv
  have hshown : ∀ n ∈ Ast.bareStatements.drawn, n.hasBlankCondition = false := by
    simpa using hdrawn
  obtain ⟨-, hrecords, -⟩ := Flowchart.malformed_eq_lacking_iff h
  refine ⟨_, h, ?_, hrecords.2 hshown, ?_⟩
  · rfl
  · rfl

/-- The branch `if (/* c */) {}`, whose condition is a comment and reads as blank. -/
def Ast.blankBranch : Ast where
  kind := .ifStmt
  text := "if (/* c */) \x7b\x7d"
  line := 1
  slots := { condition := some 0 }
  children := [{ kind := .other, text := "  ", line := 1 }]

/-- A placeholder stands in the label of the branch, and nothing is recorded of it. -/
theorem Flowchart.malformed_blankBranch : ∃ chart,
    (Flowchart.ofAst 10 Ast.blankBranch).outcome = .ok chart ∧
      chart.nodes.map (·.label) = [Ast.missingCondition] ∧ chart.malformed = [] ∧
      (Ast.blankBranch.drawn.filter Ast.lacksPart).map Ast.lackRecord =
        [⟨.ifStmt, .ifWithoutCondition, "if (/* c */) \x7b\x7d", 1⟩] :=
  ⟨_, rfl, rfl, rfl, by cbv⟩

end FlowSketch
