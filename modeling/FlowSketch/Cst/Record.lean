import FlowSketch.Cst
import FlowSketch.Json

/-!
# Concrete trees as JSON records

A node is an object with these members, all others being ignored.

| key | meaning | where it is missing |
|-----|---------|---------------------|
| `t` | the grammar type | empty |
| `b` | the two byte offsets | zero |
| `p` | the row and column | zero |
| `f` | the field name | no field |
| `a` | `true` for mere punctuation | named |
| `m` | `true` for a node that the source lacks | not missing |
| `e` | `true` where there is a fault here or below | no fault |
| `c` | the children | none |

* `Cst.ofJson` — the tree of a record.
-/

namespace FlowSketch.Cst

/-- The truth value of a member; false where it is missing. -/
def flag (members : List (String × Json)) (key : String) : Bool :=
  match members.lookup key with
  | some (.bool b) => b
  | _ => false

/-- The text of a member. -/
def textMember? (members : List (String × Json)) (key : String) : Option String :=
  match members.lookup key with
  | some (.string s) => some s
  | _ => none

/-- The two numbers of a member; zero where they are missing. -/
def pair (members : List (String × Json)) (key : String) : Nat × Nat :=
  match members.lookup key with
  | some (.array [.integer a, .integer b]) => (a.toNat, b.toNat)
  | _ => (0, 0)

/-- The node of a record, given its children. -/
def ofMembers (members : List (String × Json)) (children : List Cst) : Cst where
  type := (textMember? members "t").getD ""
  start := (pair members "b").1
  stop := (pair members "b").2
  row := (pair members "p").1
  column := (pair members "p").2
  field := textMember? members "f"
  named := !flag members "a"
  missing := flag members "m"
  faulty := flag members "e"
  children

mutual

/-- The tree of a record. -/
def ofJson : Json → Cst
  | .object members => ofMembers members (childrenOf members)
  | _ => ofMembers [] []

/-- The trees of the member `c` of a record. -/
def childrenOf : List (String × Json) → List Cst
  | [] => []
  | (key, value) :: rest => if key = "c" then ofItems value else childrenOf rest

/-- The trees of an array of records. -/
def ofItems : Json → List Cst
  | .array items => ofJsonAll items
  | _ => []

/-- The trees of several records. -/
def ofJsonAll : List Json → List Cst
  | [] => []
  | item :: rest => ofJson item :: ofJsonAll rest

end

end FlowSketch.Cst
