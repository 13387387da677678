import FlowSketch.Text.Utf8

/-!
# Concrete syntax trees

The trees of a C++ grammar: every node has a grammar type, the range of source bytes it covers and
the place where it starts, and may be known to its parent by a field name.

* `Cst` — trees; `Cst.child?` finds the child of a field, and `Cst.namedChildren` are the children
  that are not mere punctuation.
* `Cst.text` — the source text of a node.
* `Cst.size` — the number of nodes.

Results:

* `Cst.size_lt_of_mem`: a child is smaller than its parent.
* `Cst.size_two_children_le`: so are the children of two fields together.
-/

namespace FlowSketch

/-- A node of a concrete syntax tree with everything below it. -/
structure Cst where
  /-- The grammar type. -/
  type : String
  /-- The offsets of the first byte and of the byte behind the last. -/
  start : Nat
  stop : Nat
  /-- The place of the first byte, both numbers from zero, the column in bytes. -/
  row : Nat
  column : Nat
  /-- The field by which the parent knows the node. -/
  field : Option String := none
  /-- Whether the node is more than punctuation. -/
  named : Bool := true
  /-- Whether the grammar put the node where the source lacks it. -/
  missing : Bool := false
  /-- Whether the grammar met a fault here or below. -/
  faulty : Bool := false
  children : List Cst := []
  deriving Repr

namespace Cst

/-! ## Parts -/

/-- The first child that is known by the field name. -/
def child? (n : Cst) (field : String) : Option Cst :=
  n.children.find? (fun c => c.field == some field)

/-- The children that are more than punctuation. -/
def namedChildren (n : Cst) : List Cst := n.children.filter (·.named)

/-- No child is more than punctuation. -/
def isLeaf (n : Cst) : Bool := n.namedChildren.isEmpty

/-- The source text that a node covers, from the bytes of the whole source. Model of
    `_node_text`. -/
def text (bytes : List UInt8) (n : Cst) : String :=
  Utf8.decode (Utf8.slice bytes n.start n.stop)

/-- The line on which a node starts, from one. -/
def line (n : Cst) : Int := n.row + 1

/-! ## Size -/

mutual

/-- The number of nodes of a tree. -/
def size : Cst → Nat
  | ⟨_, _, _, _, _, _, _, _, _, children⟩ => 1 + sizeAll children

/-- The number of nodes of several trees. -/
def sizeAll : List Cst → Nat
  | [] => 0
  | c :: rest => c.size + sizeAll rest

end

theorem size_eq (n : Cst) : n.size = 1 + sizeAll n.children := by
  cases n
  simp only [size]

theorem size_le_sizeAll {c : Cst} {cs : List Cst} (h : c ∈ cs) : c.size ≤ sizeAll cs := by
  induction cs with
  | nil => simp at h
  | cons d rest ih =>
    rcases List.mem_cons.1 h with rfl | h
    · simp only [sizeAll]; omega
    · have := ih h
      simp only [sizeAll]; omega

theorem size_lt_of_mem {n c : Cst} (h : c ∈ n.children) : c.size < n.size := by
  have := size_le_sizeAll h
  have := size_eq n
  omega

theorem mem_children_of_child? {n c : Cst} {field : String} (h : n.child? field = some c) :
    c ∈ n.children :=
  List.mem_of_find?_eq_some h

theorem size_lt_of_child? {n c : Cst} {field : String} (h : n.child? field = some c) :
    c.size < n.size :=
  size_lt_of_mem (mem_children_of_child? h)

theorem sizeAll_filter_le (p : Cst → Bool) (cs : List Cst) :
    sizeAll (cs.filter p) ≤ sizeAll cs := by
  induction cs with
  | nil => simp
  | cons c rest ih =>
    rw [List.filter_cons]
    split <;> simp only [sizeAll] <;> omega

theorem sizeAll_append (cs ds : List Cst) : sizeAll (cs ++ ds) = sizeAll cs + sizeAll ds := by
  induction cs with
  | nil => simp only [List.nil_append, sizeAll, Nat.zero_add]
  | cons c cs ih => simp only [List.cons_append, sizeAll, ih, Nat.add_assoc]

theorem size_two_children_le {n c d : Cst} {f g : String} (hfg : f ≠ g)
    (hc : n.child? f = some c) (hd : n.child? g = some d) :
    c.size + d.size ≤ sizeAll n.children := by
  simp only [child?] at hc hd
  generalize n.children = cs at hc hd
  induction cs with
  | nil => simp at hc
  | cons e rest ih =>
    rw [List.find?_cons] at hc hd
    simp only [sizeAll]
    split at hc <;> split at hd
    · next h₁ _ h₂ => simp_all
    · cases hc
      have := size_le_sizeAll (List.mem_of_find?_eq_some hd)
      omega
    · cases hd
      have := size_le_sizeAll (List.mem_of_find?_eq_some hc)
      omega
    · have := ih hc hd
      omega

end Cst

end FlowSketch
