import FlowSketch.Metrics.Complexity
import FlowSketch.Metrics.Score
import FlowSketch.Metrics.Survey
import FlowSketch.Report

/-!
# Metrics of a program

The counts of a tree and its source text, with the complexity class and the score they lead to.

* `Metrics` — the figures of a program.
* `Metrics.analyze` — the figures of a tree and the text it was read from.
* `Metrics.toJson` — their record.
-/

namespace FlowSketch

/-- The figures of a program. Model of `Metrics`. -/
structure Metrics where
  lines : Nat
  functions : Nat
  loops : Nat
  nested : Nat
  recursion : Nat
  conditionals : Nat
  complexity : Complexity
  score : Int
  insights : List Insight
  recursive : List String
  deriving DecidableEq, Repr

namespace Metrics

/-- The figures that follow from the number of lines and the counts of a tree. The middle of
    `MetricsAnalyzer.analyze`. -/
def ofTally (lines : Nat) (t : Tally) : Except Failure Metrics := do
  let nested := t.deepest - 1
  let recursion := t.recursive.length
  let (score, insights) ← Measures.score ⟨lines, t.functions, t.loops, nested, recursion⟩
  return {
    lines
    functions := t.functions
    loops := t.loops
    nested
    recursion
    conditionals := t.conditionals
    complexity := Complexity.classify t.loops nested recursion
    score
    insights
    recursive := t.recursive }

/-- The figures of a tree and the text it was read from. There are none without a tree, or for a
    blank text. Model of `MetricsAnalyzer.analyze`. -/
def analyze (root : Option Ast) (source : String) : Report Failure Metrics :=
  match root with
  | none => Report.fail .noTree
  | some root =>
    if Text.blankOnly source then Report.fail .noSource
    else do
      let tally := survey root
      let m ← Report.ofExcept (ofTally (Text.countLines source) tally)
      Report.note (.sourceAnalyzed m.lines m.functions tally.declared m.loops m.complexity.growth
        m.score)
      return m

/-- The record of the figures, without the remarks. Model of `Metrics.to_dict`. -/
def toJson (m : Metrics) : Json :=
  .object [
    ("totalLines", .integer m.lines),
    ("functionCount", .integer m.functions),
    ("loopCount", .integer m.loops),
    ("nestedLoopCount", .integer m.nested),
    ("recursionCount", .integer m.recursion),
    ("conditionalCount", .integer m.conditionals),
    ("complexity", .string m.complexity.label),
    ("complexityNotation", .string m.complexity.growth),
    ("score", .integer m.score)]

end Metrics

end FlowSketch
