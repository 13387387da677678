import FlowSketch.Proofs.Chart.Builder
import FlowSketch.Proofs.Service.Replies

/-!
# One level between two guards

What has been read is visited by a builder, and both count levels, each in a tree of its own. The
nodes inside a statement that control flows on to become the visited nodes of its tree, one for one,
so both go down in step, except at an expression statement: what it lends its single expression is
read two levels further down and visited one step further down. Hence the last level that a visit
can meet is the first one beyond the limit of the reader, and there it meets expressions only.

* `Cst.standing` — the nodes that stand in the place of a statement so many levels below a node.

Results:

* `Cst.parts_of_astAt`: one level down, in both trees.
* `Cst.lies_iff_standing`: on the level where reading ends, the visited nodes are the trees of the
  expressions that stand there.
* `Cst.le_of_lies`: no visited node lies beyond that level.
* `Service.parse_build`: by how much the two guards differ.
-/

namespace FlowSketch

namespace Cst

/-! ## Levels of a concrete tree -/

/-- The nodes that stand in the place of a statement that many levels below a node. -/
def standing : (levels : Nat) → Cst → List Cst
  | 0, n => [n]
  | levels + 1, n => n.flowParts.flatMap (standing levels)

theorem mem_standing_succ {levels : Nat} {n c : Cst} :
    c ∈ n.standing (levels + 1) ↔ ∃ p ∈ n.flowParts, c ∈ p.standing levels := by
  rw [standing, List.mem_flatMap]

/-- An expression overhangs where it stands in the place of a statement. -/
theorem overhangs_iff_standing {levels : Nat} {n : Cst} :
    n.overhangs levels = true ↔ ∃ c ∈ n.standing levels, c.isStatement = false := by
  induction levels generalizing n with
  | zero => simp [overhangs, standing]
  | succ levels ih =>
    simp only [overhangs, List.any_eq_true, ih, mem_standing_succ]
    constructor
    · rintro ⟨p, hp, c, hc, hs⟩
      exact ⟨c, ⟨p, hp, hc⟩, hs⟩
    · rintro ⟨c, ⟨p, hp, hc⟩, hs⟩
      exact ⟨p, hp, c, hc, hs⟩

/-! ## One level -/

section

variable {bytes : List UInt8} {limit : Int} {budget depth : Nat} {n : Cst} {tree m : Ast}

/-- The parts of a node become the visited nodes of its tree, unless it has no parts: then the visit
    ends before the level where reading ends, as what an expression statement lends to its tree has
    been read one level further down. -/
theorem parts_of_astAt (h : n.astAt bytes limit (budget + 1) depth = .ok tree) :
    (n.flowParts = [] ∧ tree.reaches (budget + 1) = false) ∨
      List.Forall₂ (fun c m => c.astAt bytes limit budget (depth + 1) = .ok m)
        n.flowParts tree.visited := by
  by_cases hparts : n.flowParts = []
  · refine .inl ⟨hparts, ?_⟩
    rw [(reaches_of_astAt h).1, overhangs, hparts, List.any_nil]
  · right
    have hs : n.isStatement = true := by
      by_contra hs
      exact hparts (flowParts_of_not_isStatement (Bool.eq_false_iff.2 hs))
    have hf : n.form ≠ .expressionStmt := by
      intro hf
      exact hparts (by simp [flowParts, hf])
    rw [astAt, if_pos hs] at h
    exact (statement_parts hs hf h).1

/-! ## Whole trees -/

/-- On the level where reading ends, the visited nodes are the trees of the nodes that stand there,
    and these are expressions. -/
theorem lies_iff_standing (h : n.astAt bytes limit budget depth = .ok tree) :
    tree.Lies budget m ↔ ∃ c ∈ n.standing budget, c.isStatement = false ∧
      c.astAt bytes limit 0 (depth + budget) = .ok m := by
  induction budget generalizing depth n tree with
  | zero =>
    constructor
    · rintro ⟨⟩
      exact ⟨n, List.mem_singleton_self n, isStatement_of_astAt_zero h, h⟩
    · rintro ⟨c, hc, -, hm⟩
      obtain rfl := List.mem_singleton.1 hc
      obtain rfl : tree = m := Except.ok.inj (h.symm.trans hm)
      exact .root
  | succ budget ih =>
    have hlevel : depth + 1 + budget = depth + (budget + 1) := by omega
    simp only [Ast.lies_succ_iff, mem_standing_succ]
    rcases parts_of_astAt h with ⟨hnone, hreaches⟩ | hparts
    · constructor
      · intro hlies
        rw [Ast.reaches_iff_lies.2 ⟨m, Ast.lies_succ_iff.2 hlies⟩] at hreaches
        contradiction
      · rintro ⟨c, ⟨p, hp, -⟩, -⟩
        rw [hnone] at hp
        exact absurd hp List.not_mem_nil
    · obtain ⟨hread, hvisited⟩ := forall₂_exists hparts
      constructor
      · rintro ⟨t, ht, hlies⟩
        obtain ⟨p, hp, hpt⟩ := hvisited t ht
        obtain ⟨c, hc, hs, hm⟩ := (ih hpt).1 hlies
        exact ⟨c, ⟨p, hp, hc⟩, hs, hlevel ▸ hm⟩
      · rintro ⟨c, ⟨p, hp, hc⟩, hs, hm⟩
        obtain ⟨t, ht, hpt⟩ := hread p hp
        exact ⟨t, ht, (ih hpt).2 ⟨c, hc, hs, hlevel.symm ▸ hm⟩⟩

/-- No visited node lies beyond the level where reading ends. -/
theorem le_of_lies (h : n.astAt bytes limit budget depth = .ok tree) {steps : Nat}
    (hlies : tree.Lies steps m) : steps ≤ budget := by
  by_contra hle
  have hbeyond : tree.reaches steps = false :=
    Ast.reaches_eq_false_of_le (by omega) (reaches_of_astAt h).2.1
  rw [Ast.reaches_iff_lies.2 ⟨m, hlies⟩] at hbeyond
  contradiction

end

end Cst

namespace Service

/-- What has been read within a limit is visited at most one step beyond it, and the nodes visited
    there are the trees of the expressions that stand there in the place of statements. So a builder
    that is allowed one level more draws it, whatever it has drawn before, and a builder with the
    same limit gives up exactly when there is such an expression. -/
theorem parse_build (grammar : String → Cst) (limit : Nat) (source : String) {tree : Ast}
    (h : (Cst.parse grammar limit source).outcome = .ok tree) :
    (∀ steps m, tree.Lies steps m → steps ≤ limit + 1) ∧
    (∀ m, tree.Lies (limit + 1) m ↔
      ∃ c ∈ (grammar source).standing (limit + 1), c.isStatement = false ∧
        c.astAt (Utf8.encode source) limit 0 (limit + 1) = .ok m) ∧
    (∀ b : Builder, b.limit = limit + 1 → ∃ chart, (b.build (some tree)).1.outcome = .ok chart) ∧
    ∀ b : Builder, b.limit = limit →
      ((b.build (some tree)).1.outcome = .error (.tooDeep (limit + 1) limit) ↔
        ∃ c ∈ (grammar source).standing (limit + 1), c.isStatement = false) ∧
      ((∃ chart, (b.build (some tree)).1.outcome = .ok chart) ↔
        ¬∃ c ∈ (grammar source).standing (limit + 1), c.isStatement = false) := by
  have hast : (grammar source).astAt (Utf8.encode source) limit (limit + 1) 0 = .ok tree :=
    (Cst.ast_of_parse h).2
  refine ⟨fun steps m => Cst.le_of_lies hast, fun m => ?_, fun b hb => ?_, fun b hb => ?_⟩
  · rw [Cst.lies_iff_standing hast, Nat.zero_add]
  · have hbeyond : tree.reaches (b.limit + 1).toNat = false :=
      Ast.reaches_eq_false_of_le (by omega) (Cst.reaches_of_astAt hast).2.1
    rw [Builder.outcome_build, hbeyond]
    exact ⟨_, rfl⟩
  · have hlimit : (b.limit + 1).toNat = limit + 1 := by omega
    rw [← Cst.overhangs_iff_standing, ← (Cst.reaches_of_astAt hast).1, Builder.outcome_build,
      hlimit, hb]
    cases tree.reaches (limit + 1) <;> simp

/-- A `break;` in one pair of braces, read within one level: the visit meets it two steps below the
    root. A builder with one level more draws it, and one with the same limit does not. -/
theorem parse_build_bracedBreak : ∃ tree,
    (Cst.parse (fun _ => bracedUnit 1) 1 (bracedText 1)).outcome = .ok tree ∧
    (∃ m, tree.Lies 2 m) ∧
    (∃ chart, (({ limit := 2 } : Builder).build (some tree)).1.outcome = .ok chart) ∧
    (({ limit := 1 } : Builder).build (some tree)).1.outcome = .error (.tooDeep 2 1) := by
  obtain ⟨tree, h⟩ := exists_parse_bracedUnit (Nat.le_refl 1)
  obtain ⟨-, -, hmore, hsame⟩ := parse_build (fun _ => bracedUnit 1) 1 (bracedText 1) h
  have hover : (bracedUnit 1).overhangs 2 = true := overhangs_bracedUnit 1
  exact ⟨tree, h, Ast.reaches_iff_lies.1 ((reaches_of_parse h).trans hover), hmore _ rfl,
    (hsame _ rfl).1.2 (Cst.overhangs_iff_standing.1 hover)⟩

end Service

end FlowSketch
