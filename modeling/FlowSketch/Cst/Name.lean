import FlowSketch.Cst.Form
import FlowSketch.Text.Blank

/-!
# Names of functions

A function definition has a declarator, and that one may hold another, through pointers, arrays and
parentheses, down to the name.

* `Cst.declaredName?` — the name at the end of a chain of declarators.
* `Cst.functionName?` — the name of a function definition.
-/

namespace FlowSketch.Cst

/-- The text of a node without blanks at the ends. -/
def strippedText (bytes : List UInt8) (n : Cst) : String := Text.strip (n.text bytes)

/-- The name that a declarator declares: its own text if it is a name, else what the declarator
    inside it declares, and without one the first name among its children. The loop of
    `_function_name`. -/
def declaredName? (bytes : List UInt8) (declarator : Cst) : Option String :=
  if declarator.isIdentifier then some (declarator.strippedText bytes)
  else
    match _h : declarator.child? "declarator" with
    | some inside => declaredName? bytes inside
    | none => (declarator.namedChildren.find? isIdentifier).map (strippedText bytes)
termination_by declarator.size
decreasing_by exact size_lt_of_child? _h

/-- The name of a function definition. Model of `_function_name`. -/
def functionName? (bytes : List UInt8) (n : Cst) : Option String :=
  (n.child? "declarator").bind (declaredName? bytes)

end FlowSketch.Cst
