import FlowSketch.Text.Blank

/-!
# Names in calls

Which function a call means, judged by its name alone.

* `callee` — the name a call is looked up by: without `this->` in front of it and without template
  arguments behind it.
* `refersTo` — a looked-up name means a function of that name, qualified or not.
* `target?` — the innermost function around a call that the call means.
-/

namespace FlowSketch.Metrics

/-- The name without `this->` in front of it. -/
def dropThis (name : List Char) : List Char :=
  if "this->".toList.isPrefixOf name then Text.trim (name.drop 6) else name

/-- The name without template arguments, which end in `>`. -/
def dropTemplate (name : List Char) : List Char :=
  if name.getLast? = some '>' ∧ '<' ∈ name then Text.trim (name.takeWhile (· ≠ '<')) else name

/-- The name that a call is looked up by. Model of `_callee_name`. -/
def callee (call : String) : String :=
  String.ofList (dropTemplate (dropThis (Text.trim call.toList)))

/-- A looked-up name means the function, whose own name may be qualified. -/
def refersTo (name function : String) : Bool :=
  name == function || ("::" ++ name).toList.isSuffixOf function.toList

/-- The innermost of the functions around a call that the call means. The functions are listed from
    the innermost outward. Model of `_calls_open_function`. -/
def target? (call : String) (around : List String) : Option String :=
  around.find? (refersTo (callee call))

end FlowSketch.Metrics
