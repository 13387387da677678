/-!
# Complexity classes

How the running time may grow, judged by loops and recursion alone; no bound is proved by it.

* `Complexity` — the classes, with their `label` and `growth`.
* `Complexity.classify` — nested loops count before single ones, and loops before recursion.
-/

namespace FlowSketch

/-- How the running time may grow with the input. -/
inductive Complexity where
  | constant
  | linear
  | quadratic
  | polynomial (degree : Int)
  | exponential
  deriving DecidableEq, Repr

namespace Complexity

/-- The name of a class. -/
def label : Complexity → String
  | constant => "constant"
  | linear => "linear"
  | quadratic => "quadratic"
  | polynomial degree =>
    if degree = 3 then "cubic" else "polynomial(" ++ toString degree ++ ")"
  | exponential => "exponential(2)"

/-- The growth of a class, as an order of a function of `n`. -/
def growth : Complexity → String
  | constant => "O(1)"
  | linear => "O(n)"
  | quadratic => "O(n²)"
  | polynomial degree => "O(n^" ++ toString degree ++ ")"
  | exponential => "O(2^n)"

/-- The class of a program with so many loops, so many levels of loops within loops, and so many
    recursive functions. Model of `classify_complexity`. -/
def classify (loops nested recursion : Int) : Complexity :=
  if 2 ≤ nested then .polynomial (nested + 1)
  else if nested = 1 then .quadratic
  else if 0 < loops then .linear
  else if 0 < recursion then .exponential
  else .constant

end Complexity

end FlowSketch
