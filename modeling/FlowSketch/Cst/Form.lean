import FlowSketch.Cst

/-!
# Forms of grammar nodes

What the types of the C++ grammar mean for control flow. Everything that is not a statement is
taken for an expression; expressions may still hold statements, as the body of a lambda does.

* `Form`, `Cst.form` — the statements, each with its own treatment, and the expressions.
* `Cst.isStatement` — nodes that count as a level of nesting.
* `Cst.isSkipped`, `Cst.content` — comments and access labels, and the named children without
  them.
* `Cst.isIdentifier` — nodes that name something.
-/

namespace FlowSketch

/-- The treatment of a node. -/
inductive Form where
  /-- Statements in a row: a source file, a block, the members of a class or namespace. -/
  | block
  /-- A named scope around a block. -/
  | scope
  | template
  | function
  | ifStmt
  | elseClause
  | forLoop
  | rangeLoop
  | whileLoop
  | doLoop
  | switchStmt
  | returnStmt
  | declaration
  | expressionStmt
  | call
  | operation
  /-- Any other expression, and any statement that is not told apart. -/
  | other
  deriving DecidableEq, Repr

namespace Form

/-- The form of a grammar type. Model of `BLOCK_TYPES`, `SCOPE_TYPES` and `OPERATION_TYPES`, and of
    the cases of `CppParser._convert`. -/
def ofType (type : String) : Form :=
  match type with
  | "translation_unit" | "compound_statement" | "declaration_list" | "field_declaration_list" =>
    .block
  | "namespace_definition" | "class_specifier" | "struct_specifier" | "union_specifier"
  | "linkage_specification" => .scope
  | "template_declaration" => .template
  | "function_definition" => .function
  | "if_statement" => .ifStmt
  | "else_clause" => .elseClause
  | "for_statement" => .forLoop
  | "for_range_loop" => .rangeLoop
  | "while_statement" => .whileLoop
  | "do_statement" => .doLoop
  | "switch_statement" => .switchStmt
  | "return_statement" => .returnStmt
  | "declaration" => .declaration
  | "expression_statement" => .expressionStmt
  | "call_expression" => .call
  | "assignment_expression" | "binary_expression" | "update_expression" | "unary_expression"
  | "compound_assignment_expression" => .operation
  | _ => .other

/-- The forms that count as a level of nesting. Model of `STATEMENT_TYPES`. -/
def isStatement : Form → Bool
  | call | operation | other => false
  | _ => true

end Form

namespace Cst

/-- The form of a node. -/
def form (n : Cst) : Form := Form.ofType n.type

/-- A node that counts as a level of nesting. -/
def isStatement (n : Cst) : Bool := n.form.isStatement

/-- A node without a part in the program. Model of `SKIPPED_TYPES`. -/
def isSkipped (n : Cst) : Bool := n.type == "comment" || n.type == "access_specifier"

/-- The children with a part in the program. -/
def content (n : Cst) : List Cst := n.namedChildren.filter (fun c => !c.isSkipped)

/-- The children with a part in the program that have named children themselves. -/
def inner (n : Cst) : List Cst := n.content.filter (fun c => !c.isLeaf)

/-- A node that names something. Model of `IDENTIFIER_TYPES`. -/
def isIdentifier (n : Cst) : Bool :=
  n.type == "identifier" || n.type == "field_identifier" || n.type == "qualified_identifier" ||
    n.type == "destructor_name" || n.type == "operator_name"

theorem mem_children_of_mem_content {n c : Cst} (h : c ∈ n.content) : c ∈ n.children :=
  (List.mem_filter.1 (List.mem_filter.1 h).1).1

theorem sizeAll_inner_le (n : Cst) : sizeAll n.inner ≤ sizeAll n.children :=
  Nat.le_trans (sizeAll_filter_le _ _)
    (Nat.le_trans (sizeAll_filter_le _ _) (sizeAll_filter_le _ _))

end Cst

end FlowSketch
