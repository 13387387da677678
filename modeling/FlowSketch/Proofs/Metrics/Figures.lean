import FlowSketch.Metrics
import FlowSketch.Proofs.Metrics.Score
import FlowSketch.Proofs.Metrics.Survey
import FlowSketch.Proofs.Text.Lines
import FlowSketch.Proofs.Text.Words
import Mathlib

/-!
# How the figures of a program fit together

The figures of a program are taken from its text, from the survey of its tree and from the scoring
table, and still they never contradict one another. A way down from the root passes each node once,
so no nest of loops is deeper than there are loops; and a call only ever means a function around it,
so no function is recursive that is not in the tree.

* `Complexity.ofDepth` — the class that the depth of loops and the number of recursive functions
  lead to.
* `Metrics.Consistent` — what holds of the figures of a tree.

Results:

* `Complexity.label_injective`: the labels tell the classes apart.
* `Ast.Leads.sublist_preorder`: the nodes of a way down stand in the tree in this order.
* `Metrics.deepest_le_loops`, `Metrics.deepest_pos_iff`: how deep loops nest, and how many there
  are.
* `Metrics.functionName_of_mem_recursive`: a recursive function is one of the tree.
* `Metrics.analyze_consistent`: all figures fit together.
* `Metrics.countLines_additive`: lines are counted one text at a time, and a text is refused exactly
  when it has none.
-/

namespace FlowSketch

/-! ## Complexity classes -/

namespace Complexity

/-- The labels tell the classes apart. -/
theorem label_injective : Function.Injective label := by
  intro c d h
  cases c <;> cases d <;> simp only [label, ← String.toList_inj] at h
  case polynomial.polynomial degree other =>
    split_ifs at h with hdegree hother hother
    · rw [hdegree, hother]
    · simp at h
    · simp at h
    · have hrepr : degree.repr = other.repr := by simpa [← String.toList_inj] using h
      rw [Int.repr_inj.1 hrepr]
  all_goals first | rfl | (split_ifs at h <;> simp at h) | simp at h

/-- The class of a program whose loops nest so deep and that has so many recursive functions. -/
def ofDepth (deepest recursion : Nat) : Complexity :=
  match deepest with
  | 0 => if recursion = 0 then constant else exponential
  | 1 => linear
  | 2 => quadratic
  | deepest + 3 => polynomial (deepest + 3 : Nat)

theorem classify_eq_ofDepth {loops deepest : Nat} (h : 0 < deepest ↔ 0 < loops) (recursion : Nat) :
    classify loops (deepest - 1 : Nat) recursion = ofDepth deepest recursion := by
  unfold classify ofDepth
  match deepest with
  | 0 =>
    have hloops : ¬0 < loops := fun hloops => absurd (h.2 hloops) (by decide)
    by_cases hrecursion : recursion = 0 <;> simp [hloops, hrecursion, Nat.pos_iff_ne_zero]
  | 1 =>
    have hloops : 0 < loops := h.1 (by decide)
    simp [hloops]
  | 2 => simp
  | deepest + 3 =>
    have hnested : (2 : Int) ≤ ((deepest + 3 - 1 : Nat) : Int) := by omega
    have hdegree : ((deepest + 3 - 1 : Nat) : Int) + 1 = (deepest + 3 : Nat) := by omega
    rw [if_pos hnested, hdegree]

/-- The labels of the classes that depths lead to. -/
theorem label_ofDepth (deepest recursion : Nat) :
    ((ofDepth deepest recursion).label = "constant" ↔ deepest = 0 ∧ recursion = 0) ∧
      ((ofDepth deepest recursion).label = "exponential(2)" ↔ deepest = 0 ∧ 0 < recursion) ∧
      ((ofDepth deepest recursion).label = "linear" ↔ deepest = 1) ∧
      ((ofDepth deepest recursion).label = "quadratic" ↔ deepest = 2) ∧
      ((ofDepth deepest recursion).label = "cubic" ↔ deepest = 3) := by
  have hcubic : "cubic" = (polynomial 3).label := rfl
  rw [show "constant" = constant.label from rfl, show "linear" = linear.label from rfl,
    show "exponential(2)" = exponential.label from rfl,
    show "quadratic" = quadratic.label from rfl, hcubic]
  simp only [label_injective.eq_iff]
  match deepest with
  | 0 => by_cases hrecursion : recursion = 0 <;> simp [ofDepth, hrecursion, Nat.pos_iff_ne_zero]
  | 1 => simp [ofDepth]
  | 2 => simp [ofDepth]
  | deepest + 3 => simp [ofDepth]

/-- From four loops within one another on, the class is told by its degree. -/
theorem label_ofDepth_eq_polynomial_iff (deepest recursion : Nat) :
    (ofDepth deepest recursion).label = "polynomial(" ++ toString deepest ++ ")" ↔
      4 ≤ deepest := by
  constructor
  · intro h
    by_contra hlt
    have hcases : deepest = 0 ∨ deepest = 1 ∨ deepest = 2 ∨ deepest = 3 := by omega
    rcases hcases with rfl | rfl | rfl | rfl <;> simp only [ofDepth] at h
    · split_ifs at h <;> exact absurd h (by decide)
    all_goals exact absurd h (by decide)
  · intro h
    obtain ⟨k, rfl⟩ := Nat.exists_eq_add_of_le' h
    have hdegree : ((k + 4 : Nat) : Int) ≠ 3 := by omega
    show (polynomial (k + 4 : Nat)).label = _
    rw [label, if_neg hdegree]
    rfl

theorem growth_ofDepth {deepest : Nat} (h : 4 ≤ deepest) (recursion : Nat) :
    (ofDepth deepest recursion).growth = "O(n^" ++ toString deepest ++ ")" := by
  obtain ⟨k, rfl⟩ := Nat.exists_eq_add_of_le' h
  rfl

end Complexity

/-! ## Ways down a tree -/

namespace Ast

variable {root n : Ast} {above : List Ast}

/-- The nodes of a tree list those of the tree at the end of a way down in one piece, behind the
    nodes of the way. -/
theorem Leads.exists_preorder_eq (h : root.Leads above n) :
    ∃ front back, root.preorder = front ++ n.preorder ++ back ∧ above.Sublist front := by
  induction h with
  | root => exact ⟨[], [], by simp, .slnil⟩
  | @child above n m _ hm ih =>
    obtain ⟨front, back, hroot, habove⟩ := ih
    obtain ⟨before, after, hchildren⟩ := List.append_of_mem hm
    refine ⟨front ++ n :: preorderAll before, preorderAll after ++ back, ?_, ?_⟩
    · rw [hroot, preorder_eq n, hchildren, preorderAll_eq_flatMap, preorderAll_eq_flatMap,
        preorderAll_eq_flatMap, List.flatMap_append, List.flatMap_cons]
      simp only [List.append_assoc, List.cons_append]
    · exact habove.append (List.singleton_sublist.2 List.mem_cons_self)

/-- The nodes of a way down stand in the tree in this order. -/
theorem Leads.sublist_preorder (h : root.Leads above n) :
    (above ++ [n]).Sublist root.preorder := by
  obtain ⟨front, back, hroot, habove⟩ := h.exists_preorder_eq
  have hn : [n].Sublist (n.preorder ++ back) := by
    rw [preorder_eq, List.cons_append]
    exact List.singleton_sublist.2 List.mem_cons_self
  rw [hroot, List.append_assoc]
  exact habove.append hn

/-- There is a way down to every node of a tree. -/
theorem exists_leads (h : n ∈ root.preorder) : ∃ above, root.Leads above n := by
  rw [← map_node_places root []] at h
  obtain ⟨⟨above, m⟩, hp, rfl⟩ := List.mem_map.1 h
  exact ⟨above, mem_places_iff.1 hp⟩

end Ast

namespace Metrics

open Ast

/-! ## Loops -/

variable {root n : Ast} {above : List Ast} {deepest : Nat}

theorem loopsOn_le (h : root.Leads above n) : loopsOn (above ++ [n]) ≤ (survey root).loops := by
  rw [loops_survey]
  exact h.sublist_preorder.countP_le

/-- No nest of loops is deeper than there are loops. -/
theorem deepest_le_loops
    (h : IsGreatest {k | ∃ above n, root.Leads above n ∧ loopsOn (above ++ [n]) = k} deepest) :
    deepest ≤ (survey root).loops := by
  obtain ⟨above, n, hleads, rfl⟩ := h.1
  exact loopsOn_le hleads

/-- A tree with a loop has a way down to it. -/
theorem deepest_pos_iff
    (h : IsGreatest {k | ∃ above n, root.Leads above n ∧ loopsOn (above ++ [n]) = k} deepest) :
    0 < deepest ↔ 0 < (survey root).loops := by
  constructor
  · intro hpos
    exact hpos.trans_le (deepest_le_loops h)
  · intro hpos
    rw [loops_survey, List.countP_pos_iff] at hpos
    obtain ⟨n, hn, hloop⟩ := hpos
    obtain ⟨above, hleads⟩ := exists_leads hn
    have hone : 1 ≤ loopsOn (above ++ [n]) := by simp [loopsOn_concat, hloop]
    exact hone.trans (h.2 ⟨above, n, hleads, rfl⟩)

/-! ## Recursive functions -/

theorem nodup_addName {names : List String} (h : names.Nodup) (name : String) :
    (addName names name).Nodup := by
  unfold addName
  split_ifs with hmem
  · exact h
  · rw [List.contains_iff_mem] at hmem
    rw [← List.concat_eq_append]
    exact h.concat hmem

theorem nodup_eraseDups (names : List String) : names.eraseDups.Nodup := by
  induction names using List.reverseRecOn with
  | nil => exact List.nodup_nil
  | append_singleton names name ih =>
    rw [eraseDups_concat]
    exact nodup_addName ih name

theorem recursive_survey (root : Ast) :
    (survey root).recursive = ((root.places []).filterMap Place.recursion?).eraseDups := by
  rw [survey_eq_seen]
  rfl

/-- A call means a function around it, so a recursive function is one of the tree. -/
theorem functionName_of_mem_recursive {name : String} (h : name ∈ (survey root).recursive) :
    ∃ n ∈ root.preorder, n.functionName? = some name := by
  rw [recursive_survey, List.mem_eraseDups, List.mem_filterMap] at h
  obtain ⟨p, hp, hrecursion⟩ := h
  obtain ⟨call, -, htarget⟩ := Option.bind_eq_some_iff.1 hrecursion
  have haround : name ∈ p.around := List.mem_reverse.1 (List.mem_of_find?_eq_some htarget)
  obtain ⟨n, hn, hname⟩ := List.mem_filterMap.1 haround
  have hpath := (mem_places_iff.1 hp).sublist_preorder
  exact ⟨n, hpath.subset (List.mem_append_left _ hn), hname⟩

/-- As each is listed once, there are no more of them than functions. -/
theorem length_recursive_le (root : Ast) :
    (survey root).recursive.length ≤ (survey root).functions := by
  have hnodup : (survey root).recursive.Nodup := by
    rw [recursive_survey]
    exact nodup_eraseDups _
  have hsubset : (survey root).recursive ⊆ root.preorder.filterMap functionName? :=
    fun name hname => List.mem_filterMap.2 (functionName_of_mem_recursive hname)
  have hnamed : ∀ n : Ast, n.functionName?.isSome → n.kind = .functionDef := by
    intro n hn
    by_contra hk
    simp [functionName?, hk] at hn
  calc (survey root).recursive.length
      ≤ (root.preorder.filterMap functionName?).length := hnodup.length_le_of_subset hsubset
    _ = root.preorder.countP (fun n => n.functionName?.isSome) := List.length_filterMap_eq_countP
    _ ≤ (survey root).functions := by
      rw [functions_survey]
      exact List.countP_mono_left (fun n _ hn => by simpa using hnamed n hn)

/-! ## All figures -/

/-- What holds of the figures of a tree in which the deepest nest of loops is that deep. -/
structure Consistent (root : Ast) (deepest : Nat) (m : Metrics) : Prop where
  lines_pos : 1 ≤ m.lines
  /-- One loop is not nested, and neither is none. -/
  nested_eq : (m.nested : Int) = max 0 ((deepest : Int) - 1)
  nested_lt : 0 < m.loops → m.nested + 1 ≤ m.loops
  recursive_nodup : m.recursive.Nodup
  recursive_declared : ∀ name ∈ m.recursive, ∃ n ∈ root.preorder, n.functionName? = some name
  recursion_eq : m.recursion = m.recursive.length
  recursion_le : m.recursion ≤ m.functions
  score_nonneg : 0 ≤ m.score
  score_le : m.score ≤ 100
  /-- Only a program without remarks has the full score. -/
  score_full : m.score = 100 ↔ m.insights = []
  constant : m.complexity.label = "constant" ↔ deepest = 0 ∧ m.recursion = 0
  exponential : m.complexity.label = "exponential(2)" ↔ deepest = 0 ∧ 0 < m.recursion
  linear : m.complexity.label = "linear" ↔ deepest = 1
  quadratic : m.complexity.label = "quadratic" ↔ deepest = 2
  cubic : m.complexity.label = "cubic" ↔ deepest = 3
  polynomial : m.complexity.label = "polynomial(" ++ toString deepest ++ ")" ↔ 4 ≤ deepest
  growth : 4 ≤ deepest → m.complexity.growth = "O(n^" ++ toString deepest ++ ")"

theorem ofTally_eq_ok {lines : Nat} {t : Tally} {m : Metrics} (h : ofTally lines t = .ok m) :
    ∃ score insights,
      Measures.score ⟨lines, t.functions, t.loops, (t.deepest - 1 : Nat), t.recursive.length⟩ =
        .ok (score, insights) ∧
      m = { lines, functions := t.functions, loops := t.loops, nested := t.deepest - 1,
            recursion := t.recursive.length, conditionals := t.conditionals,
            complexity := .classify t.loops (t.deepest - 1 : Nat) t.recursive.length,
            score, insights, recursive := t.recursive } := by
  simp only [ofTally] at h
  cases hscore : Measures.score
      ⟨lines, t.functions, t.loops, (t.deepest - 1 : Nat), t.recursive.length⟩ with
  | error failure =>
    rw [hscore] at h
    cases h
  | ok scored =>
    rw [hscore] at h
    cases h
    exact ⟨scored.1, scored.2, rfl, rfl⟩

/-- There are figures only for a text that is not blank, and then they are those of the survey. -/
theorem analyze_eq_ok {source : String} {m : Metrics}
    (h : (analyze (some root) source).outcome = .ok m) :
    Text.blankOnly source = false ∧ ofTally (Text.countLines source) (survey root) = .ok m := by
  unfold analyze at h
  split_ifs at h with hblank
  · cases h
  · obtain ⟨m', hm, hnoted⟩ := Report.outcome_bind_eq_ok_iff.1 h
    obtain ⟨_, -, hm'⟩ := Report.outcome_bind_eq_ok_iff.1 hnoted
    cases hm'
    exact ⟨by simpa using hblank, hm⟩

/-- A tree and a text that is not blank have figures, unless the average is out of range. -/
theorem eq_averageOutOfRange_of_analyze {source : String} {failure : Failure}
    (hblank : Text.blankOnly source = false)
    (h : (analyze (some root) source).outcome = .error failure) :
    failure = .averageOutOfRange := by
  simp only [analyze, hblank, Bool.false_eq_true, if_false, ofTally, Measures.score,
    Measures.largeOnAverage] at h
  split at h
  · exact absurd h (by simp [Report.ofExcept, Report.note, bind, Except.bind, pure, Except.pure])
  · cases h
    rfl

/-- All figures of a program fit together. -/
theorem analyze_consistent {source : String} {m : Metrics}
    (h : (analyze (some root) source).outcome = .ok m) :
    ∃ deepest,
      IsGreatest {k | ∃ above n, root.Leads above n ∧ loopsOn (above ++ [n]) = k} deepest ∧
        m.Consistent root deepest := by
  obtain ⟨hblank, hm⟩ := analyze_eq_ok h
  obtain ⟨score, insights, hscore, rfl⟩ := ofTally_eq_ok hm
  have hdeepest : IsGreatest {k | ∃ above n, root.Leads above n ∧ loopsOn (above ++ [n]) = k}
      (survey root).deepest := by
    rw [survey_eq_seen]
    exact isGreatest_deepest root
  have hle := deepest_le_loops hdeepest
  have hclass := Complexity.classify_eq_ofDepth (deepest_pos_iff hdeepest)
    (survey root).recursive.length
  obtain ⟨hconstant, hexponential, hlinear, hquadratic, hcubic⟩ :=
    Complexity.label_ofDepth (survey root).deepest (survey root).recursive.length
  obtain ⟨hnonneg, hle100, hfull⟩ := Measures.score_bounds hscore
  refine ⟨_, hdeepest, ?_⟩
  constructor
  case lines_pos =>
    rw [Nat.one_le_iff_ne_zero]
    intro hzero
    rw [Text.countLines_eq_zero_iff.1 hzero] at hblank
    exact Bool.noConfusion hblank
  case nested_eq => simp only; omega
  case nested_lt => simp only; omega
  case recursive_nodup =>
    rw [recursive_survey]
    exact nodup_eraseDups _
  case recursive_declared => exact fun name hname => functionName_of_mem_recursive hname
  case recursion_eq => rfl
  case recursion_le => exact length_recursive_le root
  case score_nonneg => exact hnonneg
  case score_le => exact hle100
  case score_full => exact hfull
  all_goals simp only [hclass]
  case constant => exact hconstant
  case exponential => exact hexponential
  case linear => exact hlinear
  case quadratic => exact hquadratic
  case cubic => exact hcubic
  case polynomial => exact Complexity.label_ofDepth_eq_polynomial_iff _ _
  case growth => exact fun hfour => Complexity.growth_ofDepth hfour _

/-- Four loops in one another in a function that the innermost calls, in four lines of text. -/
def gridSearch : Ast :=
  { kind := .functionDef
    name := some "grid::search"
    children :=
      [{ kind := .forLoop
         children :=
          [{ kind := .forLoop
             children :=
              [{ kind := .whileLoop
                 children :=
                  [{ kind := .doWhile
                     children := [{ kind := .call, name := some "search<T>" }] }] }] }] }] }

theorem analyze_consistent_gridSearch : ∃ m,
    (analyze (some gridSearch) "void grid::search() \x7b\n\n  // ...\n\x7d").outcome = .ok m ∧
      m.lines = 3 ∧ m.complexity.label = "polynomial(4)" ∧ m.score = 45 ∧
      IsGreatest {k | ∃ above n, gridSearch.Leads above n ∧ loopsOn (above ++ [n]) = k} 4 ∧
      m.Consistent gridSearch 4 := by
  have h : (analyze (some gridSearch) "void grid::search() \x7b\n\n  // ...\n\x7d").outcome =
      .ok { lines := 3, functions := 1, loops := 4, nested := 3, recursion := 1
            conditionals := 0, complexity := .polynomial 4, score := 45
            insights := [.nestedLoops 3, .recursion 1, .deepLoops]
            recursive := ["grid::search"] } := by
    simp only [analyze, survey_eq_seen]
    decide +kernel
  obtain ⟨deepest, hdeepest, hm⟩ := analyze_consistent h
  have hfour : deepest = 4 := by
    have hnested := hm.nested_eq
    simp only at hnested
    omega
  subst hfour
  exact ⟨_, h, rfl, rfl, rfl, hdeepest, hm⟩

/-! ## Lines -/

/-- A text is refused exactly when it has no line to count. -/
theorem analyze_eq_noSource_iff {source : String} :
    (analyze (some root) source).outcome = .error .noSource ↔ Text.countLines source = 0 := by
  rw [Text.countLines_eq_zero_iff]
  constructor
  · intro h
    by_contra hblank
    rw [Bool.not_eq_true] at hblank
    exact absurd (eq_averageOutOfRange_of_analyze hblank h) (by decide)
  · intro hblank
    rw [analyze, if_pos hblank]
    rfl

/-- Lines are counted one text at a time: a line feed between two texts adds their lines. Nothing
    else starts a line, so a text without a line feed is a single line at most, and any other
    separator may as well be missing. Counting agrees with trimming on what is blank, so a text is
    refused exactly when it has no line to count, and every text that has figures has a line. -/
theorem countLines_additive :
    (∀ a b : String, Text.countLines (a ++ "\n" ++ b) = Text.countLines a + Text.countLines b) ∧
    (∀ s : String, Text.countLines s = 0 ↔ Text.strip s = "") ∧
    (∀ s : String, '\n' ∉ s.toList → Text.countLines s ≤ 1) ∧
    (∀ (a b : String) (separator : Char), Text.isBlank separator = true → separator ≠ '\n' →
      Text.countLines (a ++ String.singleton separator ++ b) = Text.countLines (a ++ b)) ∧
    ∀ (root : Ast) (source : String),
      ((analyze (some root) source).outcome = .error .noSource ↔ Text.countLines source = 0) ∧
      ∀ m, (analyze (some root) source).outcome = .ok m →
        m.lines = Text.countLines source ∧ 1 ≤ m.lines := by
  refine ⟨Text.countLines_append, fun s => ?_, fun s => Text.countLines_le_one,
    fun a b _ hblank hne => Text.countLines_insert_blank hblank hne a b,
    fun root source => ⟨analyze_eq_noSource_iff, fun m h => ?_⟩⟩
  · rw [Text.countLines_eq_zero_iff, Text.strip_eq_empty_iff]
  · have hlines : m.lines = Text.countLines source := by
      obtain ⟨-, -, -, rfl⟩ := ofTally_eq_ok (analyze_eq_ok h).2
      rfl
    refine ⟨hlines, Nat.one_le_iff_ne_zero.2 fun hzero => ?_⟩
    rw [analyze_eq_noSource_iff.2 (hlines ▸ hzero)] at h
    cases h

/-- Neither a carriage return nor a line separator ends a line, and a line of nothing else is not
    counted. -/
theorem countLines_additive_mixedSeparators :
    '\n' ∉ "a;\r\u2028b;".toList ∧ Text.countLines "a;\r\u2028b;" = 1 ∧
      Text.isBlank '\r' = true ∧ Text.countLines "a;\u2028b;" = 1 ∧
      Text.countLines "a;\r\u2028b;\n\x0b\u2028" = 1 ∧
      ∃ m, (analyze (some { kind := .other }) "a;\r\u2028b;\n\x0b\u2028").outcome = .ok m ∧
        m.lines = 1 := by
  obtain ⟨hadd, hzero, hone, hother, hfigures⟩ := countLines_additive
  have hfeed : '\n' ∉ "a;\r\u2028b;".toList := by decide
  have hfirst : Text.countLines "a;\r\u2028b;" = 1 := by
    refine Nat.le_antisymm (hone _ hfeed) (Nat.one_le_iff_ne_zero.2 fun h => ?_)
    exact absurd ((hzero _).1 h) (by decide)
  have hshorter : Text.countLines "a;\u2028b;" = 1 :=
    (hother "a;" "\u2028b;" '\r' (by decide) (by decide)).symm.trans hfirst
  have hsecond : Text.countLines "\x0b\u2028" = 0 := (hzero _).2 (by decide)
  have hboth : Text.countLines "a;\r\u2028b;\n\x0b\u2028" = 1 := by
    have h := hadd "a;\r\u2028b;" "\x0b\u2028"
    rwa [hfirst, hsecond] at h
  have h : (analyze (some { kind := .other }) "a;\r\u2028b;\n\x0b\u2028").outcome =
      .ok { lines := 1, functions := 0, loops := 0, nested := 0, recursion := 0
            conditionals := 0, complexity := .constant, score := 100, insights := []
            recursive := [] } := by
    simp only [analyze, survey_eq_seen]
    decide +kernel
  exact ⟨hfeed, hfirst, by decide, hshorter, hboth, _, h, ((hfigures _ _).2 _ h).1.trans hboth⟩

end Metrics

end FlowSketch
