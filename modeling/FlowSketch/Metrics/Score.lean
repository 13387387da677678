import FlowSketch.Failure
import FlowSketch.Json
import FlowSketch.Number.Double

/-!
# Scoring

A program starts with a full score and loses points for what makes it hard to read or slow. Every
deduction comes with a remark.

* `Insight` — the remarks, with their `severity` and `message`.
* `Measures` — the counts that the score depends on.
* `Measures.deductions` — the remarks that apply, each with the points it costs.
* `Measures.score` — what is left, between 0 and 100.
-/

namespace FlowSketch

/-! ## Remarks -/

inductive Severity where
  | warning
  | info
  | suggestion
  deriving DecidableEq, Repr

/-- The name of a severity in records. -/
def Severity.name : Severity → String
  | warning => "warning"
  | info => "info"
  | suggestion => "suggestion"

/-- A remark on a program. Model of `Insight`. -/
inductive Insight where
  | nestedLoops (levels : Int)
  | recursion (functions : Int)
  | manyFunctions
  | manyLines
  | manyLoops
  | deepLoops
  | largeFunctions
  deriving DecidableEq, Repr

namespace Insight

/-- How grave a remark is. -/
def severity : Insight → Severity
  | nestedLoops _ | manyLoops | deepLoops | largeFunctions => .warning
  | recursion _ => .info
  | manyFunctions | manyLines => .suggestion

/-- The wording of a remark. -/
def message : Insight → String
  | nestedLoops levels =>
    "Found " ++ toString levels ++
      " levels of nested loops. Consider optimizing to reduce time complexity."
  | recursion functions =>
    "Detected " ++ toString functions ++
      " recursive function(s). Ensure proper base cases and stack usage."
  | manyFunctions =>
    "High number of functions. Consider consolidating related functionality."
  | manyLines => "Large code size. Consider breaking down into smaller modules."
  | manyLoops => "High number of loops. Review for potential optimizations."
  | deepLoops => "Loops are nested more than three levels deep."
  | largeFunctions => "Functions are too large on average. Consider breaking them down."

/-- The record of a remark. Model of `Insight.to_dict`. -/
def toJson (i : Insight) : Json :=
  .object [("severity", .string i.severity.name), ("message", .string i.message)]

end Insight

/-! ## Deductions -/

/-- The counts that a score depends on. `nested` counts the levels of loops within loops, and
    `recursion` the functions that call themselves. -/
structure Measures where
  lines : Int
  functions : Int
  loops : Int
  nested : Int
  recursion : Int
  deriving DecidableEq, Repr

/-- The score of a program without remarks. Model of `BASE_SCORE`. -/
def fullScore : Int := 100

/-- The most lines that a function may have on average without a remark. -/
def averageBound : Nat := 50

namespace Measures

/-- The average number of lines of a function, rounded to a double, is above the bound. A program
    without functions counts as one. -/
def largeOnAverage (m : Measures) : Except Failure Bool :=
  match Magnitude.nearest? m.lines.natAbs (max 1 m.functions).toNat with
  | some average => .ok (0 < m.lines && average.exceeds averageBound)
  | none => .error .averageOutOfRange

/-- The remark and its cost, if the condition holds. -/
def onlyIf (applies : Bool) (insight : Insight) (cost : Int) : List (Insight × Int) :=
  if applies then [(insight, cost)] else []

/-- The remarks that apply, in a fixed order, each with the points it costs. -/
def deductions (m : Measures) (large : Bool) : List (Insight × Int) :=
  onlyIf (1 < m.nested) (.nestedLoops m.nested) (15 * (m.nested - 1)) ++
  onlyIf (0 < m.recursion) (.recursion m.recursion) 5 ++
  onlyIf (10 < m.functions) .manyFunctions 5 ++
  onlyIf (200 < m.lines) .manyLines 10 ++
  onlyIf (5 < m.loops) .manyLoops 5 ++
  onlyIf (2 < m.nested) .deepLoops 20 ++
  onlyIf large .largeFunctions 10

/-- The score and the remarks. The score is kept between zero and full. Model of `score_metrics`. -/
def score (m : Measures) : Except Failure (Int × List Insight) := do
  let large ← m.largeOnAverage
  let deductions := m.deductions large
  let left := deductions.foldl (fun left deduction => left - deduction.2) fullScore
  return (max 0 (min fullScore left), deductions.map Prod.fst)

end Measures

end FlowSketch
