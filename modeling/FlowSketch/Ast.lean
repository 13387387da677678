/-!
# Syntax trees

The trees that flowcharts and metrics are made from: a node has a kind from a fixed set, the text
it stands for, and children, some of which fill a named slot (the condition of a loop, the body of
a function).

A slot holds the position of a child, so what fills it is always a child; a position beyond the
children fills nothing.

* `Kind`, `Slot`, `Slots` — the vocabulary.
* `Ast`, `Ast.child?` — trees, and the child in a slot.
* `Ast.ofParts` — a node made from the trees that fill its slots.
* `Ast.preorder` — all nodes, every node before its children.

Results:

* `Kind.ofName_name`, `Slot.ofName?_eq_some_iff`: kinds and slots are found by their names.
* `Ast.mem_children_of_child?`: what fills a slot is a child.
* `Ast.sizeOf_child?_lt`: hence smaller than the node.
* `Ast.child?_ofParts`: a node made from parts holds them in its slots.
-/

namespace FlowSketch

/-! ## Kinds -/

/-- The kinds of statements and expressions. Model of `NodeKind`. -/
inductive Kind where
  | functionDef
  | ifStmt
  | forLoop
  | whileLoop
  | doWhile
  | returnStmt
  | declaration
  | call
  | binaryOp
  | compoundBlock
  | elseClause
  | switchStmt
  | other
  deriving DecidableEq, Repr

namespace Kind

/-- The name of a kind in records and messages. -/
def name : Kind → String
  | functionDef => "FunctionDef"
  | ifStmt => "If"
  | forLoop => "For"
  | whileLoop => "While"
  | doWhile => "DoWhile"
  | returnStmt => "Return"
  | declaration => "Declaration"
  | call => "Call"
  | binaryOp => "BinaryOp"
  | compoundBlock => "CompoundBlock"
  | elseClause => "Else"
  | switchStmt => "Switch"
  | other => "Other"

/-- Every kind. -/
def all : List Kind :=
  [functionDef, ifStmt, forLoop, whileLoop, doWhile, returnStmt, declaration, call, binaryOp,
    compoundBlock, elseClause, switchStmt, other]

/-- The kind of that name; a name that no kind has means `other`. Model of `NodeKind.parse`. -/
def ofName (s : String) : Kind := (all.find? (fun kind => kind.name == s)).getD other

theorem ofName_name (kind : Kind) : ofName kind.name = kind := by
  cases kind <;> decide

/-- For, while and do-while loops. Model of `LOOP_KINDS`. -/
def isLoop : Kind → Bool
  | forLoop | whileLoop | doWhile => true
  | _ => false

/-- If and switch statements. Model of `CONDITIONAL_KINDS`. -/
def isConditional : Kind → Bool
  | ifStmt | switchStmt => true
  | _ => false

end Kind

/-! ## Slots -/

/-- The named places of a node. -/
inductive Slot where
  | init
  | condition
  | increment
  | body
  | elseBranch
  deriving DecidableEq, Repr

namespace Slot

/-- The name of a slot in records and messages. -/
def name : Slot → String
  | init => "init"
  | condition => "condition"
  | increment => "increment"
  | body => "body"
  | elseBranch => "else_branch"

/-- Every slot, in the order in which slot nodes are laid out among the children. -/
def all : List Slot := [init, condition, increment, body, elseBranch]

/-- The slot of that name. -/
def ofName? (s : String) : Option Slot := all.find? (fun slot => slot.name == s)

theorem mem_all (slot : Slot) : slot ∈ all := by
  cases slot <;> decide

theorem ofName?_name (slot : Slot) : ofName? slot.name = some slot := by
  cases slot <;> decide

theorem ofName?_eq_some_iff {s : String} {slot : Slot} : ofName? s = some slot ↔ s = slot.name := by
  constructor
  · intro h
    have hfound := List.find?_some h
    exact (beq_iff_eq.1 hfound).symm
  · rintro rfl
    exact ofName?_name slot

theorem name_injective {slot other : Slot} (h : slot.name = other.name) : slot = other := by
  have hfound := congrArg ofName? h
  rwa [ofName?_name, ofName?_name, Option.some.injEq] at hfound

end Slot

/-- What fills each slot of a node, if anything. -/
structure Slots (α : Type) where
  init : Option α := none
  condition : Option α := none
  increment : Option α := none
  body : Option α := none
  elseBranch : Option α := none
  deriving DecidableEq, Repr

namespace Slots

variable {α β : Type}

/-- What fills a slot. -/
def get (slots : Slots α) : Slot → Option α
  | .init => slots.init
  | .condition => slots.condition
  | .increment => slots.increment
  | .body => slots.body
  | .elseBranch => slots.elseBranch

/-- The slots with one of them filled. -/
def set (slots : Slots α) (slot : Slot) (a : α) : Slots α :=
  match slot with
  | .init => { slots with init := some a }
  | .condition => { slots with condition := some a }
  | .increment => { slots with increment := some a }
  | .body => { slots with body := some a }
  | .elseBranch => { slots with elseBranch := some a }

/-- The slots with their contents replaced; a content without a replacement leaves the slot
    empty. -/
def bind (slots : Slots α) (f : α → Option β) : Slots β where
  init := slots.init.bind f
  condition := slots.condition.bind f
  increment := slots.increment.bind f
  body := slots.body.bind f
  elseBranch := slots.elseBranch.bind f

/-- The contents of the filled slots, in the order of `Slot.all`. -/
def toList (slots : Slots α) : List α := Slot.all.filterMap slots.get

/-- The place of each filled slot in `toList`. -/
def positions (slots : Slots α) : Slots Nat :=
  let place (slot : Slot) : Option Nat :=
    (slots.get slot).map (fun _ => ((Slot.all.takeWhile (· ≠ slot)).filterMap slots.get).length)
  { init := place .init
    condition := place .condition
    increment := place .increment
    body := place .body
    elseBranch := place .elseBranch }

@[simp] theorem get_bind (slots : Slots α) (f : α → Option β) (slot : Slot) :
    (slots.bind f).get slot = (slots.get slot).bind f := by
  cases slot <;> rfl

theorem get_empty (slot : Slot) : ({} : Slots α).get slot = none := by
  cases slot <;> rfl

theorem get_set (slots : Slots α) (slot other : Slot) (a : α) :
    (slots.set slot a).get other = if other = slot then some a else slots.get other := by
  cases slot <;> cases other <;> rfl

theorem eq_of_get {slots others : Slots α} (h : ∀ slot, slots.get slot = others.get slot) :
    slots = others := by
  obtain ⟨a, b, c, d, e⟩ := slots
  obtain rfl : a = _ := h .init
  obtain rfl : b = _ := h .condition
  obtain rfl : c = _ := h .increment
  obtain rfl : d = _ := h .body
  obtain rfl : e = _ := h .elseBranch
  rfl

theorem getElem?_toList_positions (slots : Slots α) (slot : Slot) :
    (slots.positions.get slot).bind (slots.toList[·]?) = slots.get slot := by
  obtain ⟨a, b, c, d, e⟩ := slots
  cases slot <;> cases a <;> cases b <;> cases c <;> cases d <;> cases e <;> rfl

theorem lt_length_of_positions {slots : Slots α} {slot : Slot} {i : Nat}
    (h : slots.positions.get slot = some i) : i < slots.toList.length := by
  have hbind := getElem?_toList_positions slots slot
  obtain ⟨a, ha⟩ : ∃ a, slots.get slot = some a := by
    cases hs : slots.get slot with
    | some a => exact ⟨a, rfl⟩
    | none =>
      obtain ⟨a, b, c, d, e⟩ := slots
      cases slot <;> simp_all [positions, get]
  rw [h, ha] at hbind
  exact (List.getElem?_eq_some_iff.1 hbind).1

theorem mem_toList {slots : Slots α} {a : α} :
    a ∈ slots.toList ↔ ∃ slot, slots.get slot = some a := by
  simp only [toList, List.mem_filterMap]
  exact ⟨fun ⟨slot, _, h⟩ => ⟨slot, h⟩, fun ⟨slot, h⟩ => ⟨slot, slot.mem_all, h⟩⟩

end Slots

/-! ## Trees -/

/-- A node with everything below it. Model of `AstNode`. -/
structure Ast where
  kind : Kind
  text : String := ""
  name : Option String := none
  line : Int := 0
  slots : Slots Nat := {}
  children : List Ast := []
  deriving Repr

namespace Ast

/-- The child in a slot. Model of `AstNode.slot`. -/
def child? (n : Ast) (slot : Slot) : Option Ast := (n.slots.get slot).bind (n.children[·]?)

/-- The name, when there is one that is not empty. -/
def properName? (n : Ast) : Option String := n.name.filter (fun name => !name.isEmpty)

theorem mem_children_of_child? {n child : Ast} {slot : Slot} (h : n.child? slot = some child) :
    child ∈ n.children := by
  obtain ⟨i, _, hi⟩ := Option.bind_eq_some_iff.1 h
  exact List.mem_of_getElem? hi

theorem sizeOf_lt_of_mem_children {n child : Ast} (h : child ∈ n.children) :
    sizeOf child < sizeOf n := by
  have := List.sizeOf_lt_of_mem h
  cases n
  simp only [mk.sizeOf_spec] at *
  omega

theorem sizeOf_child?_lt {n child : Ast} {slot : Slot} (h : n.child? slot = some child) :
    sizeOf child < sizeOf n :=
  sizeOf_lt_of_mem_children (mem_children_of_child? h)

/-- A node whose slots are filled by given trees. These come first among the children, in the order
    of the slots, and the others follow. Model of `make_node` where none of the others fills a
    slot. -/
def ofParts (kind : Kind) (text : String) (line : Int) (name : Option String) (filled : Slots Ast)
    (others : List Ast) : Ast :=
  { kind, text, name, line, slots := filled.positions, children := filled.toList ++ others }

theorem child?_ofParts (kind : Kind) (text : String) (line : Int) (name : Option String)
    (filled : Slots Ast) (others : List Ast) (slot : Slot) :
    (ofParts kind text line name filled others).child? slot = filled.get slot := by
  rw [← Slots.getElem?_toList_positions filled slot]
  simp only [child?, ofParts]
  cases h : filled.positions.get slot with
  | none => rfl
  | some i => simp [List.getElem?_append_left (Slots.lt_length_of_positions h)]

mutual

/-- All nodes, every node before its children and these in order. Model of `AstNode.walk`. -/
def preorder : Ast → List Ast
  | ⟨kind, text, name, line, slots, children⟩ =>
    ⟨kind, text, name, line, slots, children⟩ :: preorderAll children

/-- The nodes of several trees, one tree after the other. -/
def preorderAll : List Ast → List Ast
  | [] => []
  | n :: rest => n.preorder ++ preorderAll rest

end

theorem preorder_eq (n : Ast) : n.preorder = n :: preorderAll n.children := by
  cases n
  simp only [preorder]

theorem preorderAll_eq_flatMap (ns : List Ast) : preorderAll ns = ns.flatMap preorder := by
  induction ns with
  | nil => rfl
  | cons n rest ih => simp [preorderAll, ih]

end Ast

end FlowSketch
