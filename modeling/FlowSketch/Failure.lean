import FlowSketch.Ast

/-!
# Failures and malformed nodes

Two kinds of trouble. A failure means that there is no result; a malformed node is recorded on the
result, with a placeholder in its stead.

* `Failure`, `Failure.message` — why there is no result, and its wording.
* `Malformed`, `Malformed.message` — what a node lacks, and its wording.
-/

namespace FlowSketch

/-- Why there is no result. Model of `CppFlowError` and the classes below it. -/
inductive Failure where
  /-- No tree was given. -/
  | noTree
  /-- No source text was given, or a blank one. -/
  | noSource
  /-- The source has a fault at a line and column, both from 1: a token of the named type is
      missing, or something is there that does not belong. Line 0 means that the place is not
      known. -/
  | faultySource (missing : Option String) (line column : Nat)
  /-- The tree nests deeper than the limit. -/
  | tooDeep (depth limit : Int)
  /-- The average number of lines of a function is beyond the range of doubles. -/
  | averageOutOfRange
  deriving DecidableEq, Repr

namespace Failure

/-- The name of the kind of failure in records. -/
def typeName : Failure → String
  | noTree | noSource => "EmptyInputError"
  | faultySource .. => "SourceSyntaxError"
  | tooDeep .. => "AstTooDeepError"
  | averageOutOfRange => "AverageRangeError"

/-- The wording of a failure. -/
def message : Failure → String
  | noTree => "No AST root supplied"
  | noSource => "No code provided"
  | faultySource missing line column =>
    let what := match missing with
      | some type => "missing '" ++ type ++ "'"
      | none => "unexpected input"
    let place := if line = 0 then "" else
      " (line " ++ toString line ++ ", column " ++ toString column ++ ")"
    "Syntax error: " ++ what ++ place
  | tooDeep depth limit =>
    "AST depth " ++ toString depth ++ " exceeds the configured limit of " ++ toString limit
  | averageOutOfRange => "The average number of lines is out of range"

end Failure

/-- What a node lacks. -/
inductive Defect where
  | functionWithoutName
  | ifWithoutCondition
  | loopWithoutCondition
  deriving DecidableEq, Repr

/-- A node that lacks a part which its kind should have. Model of `MalformedNode`. -/
structure Malformed where
  kind : Kind
  defect : Defect
  text : String
  line : Int
  deriving DecidableEq, Repr

/-- The wording of what a node lacks. -/
def Malformed.message (m : Malformed) : String :=
  match m.defect with
  | .functionWithoutName => "function definition without a resolvable name"
  | .ifWithoutCondition => "if statement without a condition"
  | .loopWithoutCondition => m.kind.name ++ " loop without a condition"

end FlowSketch
