import FlowSketch.Chart
import FlowSketch.Text.Blank

/-!
# Mermaid text of a flowchart

One line for the direction, one for every node and one for every edge, in the order of the
flowchart, each ended by a line feed. The form of a node tells its kind; its label is cut to a
limit and freed of the characters that the notation itself uses.

* `Shape` — the brackets around a label.
* `Mermaid.escape`, `Mermaid.truncate` — what becomes of a label.
* `Flowchart.mermaid` — the text of a flowchart.

Results:

* `escapeChar_ne`: no escaped label holds a quotation mark, a square or curly bracket or a bar.
-/

namespace FlowSketch

/-- The forms in which a node is drawn. Model of `SHAPES`. -/
inductive Shape where
  | rectangle
  | rounded
  | stadium
  | diamond
  deriving DecidableEq, Repr

namespace Shape

/-- What stands before the label. -/
def opening : Shape → String
  | rectangle => "["
  | rounded => "("
  | stadium => "(["
  | diamond => "\x7b"

/-- What stands behind the label. -/
def closing : Shape → String
  | rectangle => "]"
  | rounded => ")"
  | stadium => "])"
  | diamond => "\x7d"

end Shape

/-- The form of a node of that kind: branches and loops are decisions. Model of `KIND_SHAPES`. -/
def FlowKind.shape : FlowKind → Shape
  | .function => .stadium
  | .branch | .forLoop | .whileLoop => .diamond
  | .returns => .rounded
  | .declaration | .call | .operation | .other => .rectangle

namespace Mermaid

/-! ## Labels -/

/-- A character that cannot be taken for part of the notation. -/
def escapeChar (c : Char) : Char :=
  if c = '"' then '\''
  else if c = '[' ∨ c = '\x7b' then '('
  else if c = ']' ∨ c = '\x7d' then ')'
  else if c = '|' then '/'
  else c

theorem escapeChar_ne (c : Char) :
    escapeChar c ≠ '"' ∧ escapeChar c ≠ '[' ∧ escapeChar c ≠ ']' ∧ escapeChar c ≠ '\x7b' ∧
      escapeChar c ≠ '\x7d' ∧ escapeChar c ≠ '|' := by
  unfold escapeChar
  repeat' split
  all_goals simp_all

/-- A label without characters of the notation. Model of `_escape_label`. -/
def escape (label : List Char) : List Char := label.map escapeChar

/-- A label cut to a limit, an ellipsis in place of the rest. A limit that is not positive is none,
    and at least one character is kept. Model of `_truncate`. -/
def truncate (limit : Int) (label : List Char) : List Char :=
  if limit ≤ 0 ∨ label.length ≤ limit then label
  else Text.trimEnd (label.take (max 1 (limit - 3)).toNat) ++ ['.', '.', '.']

/-- A label as it is written. -/
def labelText (limit : Int) (label : String) : String :=
  String.ofList (escape (truncate limit label.toList))

/-! ## Lines -/

/-- The name of a node. Model of `_mermaid_node_id`. -/
def nodeName (id : Int) : String := "n" ++ toString id

/-- The line of a node. -/
def nodeLine (limit : Int) (n : FlowNode) : String :=
  "    " ++ nodeName n.id ++ n.kind.shape.opening ++ "\"" ++ labelText limit n.label ++ "\"" ++
    n.kind.shape.closing

/-- The line of an edge. -/
def edgeLine (e : FlowEdge) : String :=
  "    " ++ nodeName e.source ++ " -->|" ++ e.label.name ++ "| " ++ nodeName e.target

/-- The lines of a flowchart. -/
def lines (direction : String) (limit : Int) (chart : Flowchart) : List String :=
  ("flowchart " ++ direction) :: chart.nodes.map (nodeLine limit) ++ chart.edges.map edgeLine

end Mermaid

/-- The Mermaid text of a flowchart, labels cut to `limit` characters. Model of
    `flowchart_to_mermaid`. -/
def Flowchart.mermaid (chart : Flowchart) (direction : String) (limit : Int) : String :=
  "\n".intercalate (Mermaid.lines direction limit chart) ++ "\n"

end FlowSketch
