import FlowSketch.Ast

/-!
# Trees made from shared nodes

Trees built bottom up, where a node may be used in several places. A node made earlier is known by
its handle, the number of nodes made before it, and two uses of one handle are uses of the same
node.

* `Recipe` — what is asked for in one node.
* `PoolNode.ofRecipe` — the node made: its slot nodes come first among its children, in the order
  of the slots, and after them the children asked for that fill no slot.
* `Pool.trees` — the tree that each node stands for. A slot holds the first position among the
  children of the node that fills it.

Results:

* `PoolNode.mem_children_of_slot`: what fills a slot is among the children.
* `PoolNode.slotIndex?_eq_some`: hence every filled slot has a position.
-/

namespace FlowSketch

/-- What is asked for in a node, other nodes being given by their handles. These are the arguments
    of `make_node`. -/
structure Recipe where
  kind : Kind
  text : String := ""
  name : Option String := none
  line : Int := 0
  slots : Slots Nat := {}
  children : List Nat := []
  deriving Repr

/-- A node whose slots and children are handles. -/
structure PoolNode where
  kind : Kind
  text : String
  name : Option String
  line : Int
  slots : Slots Nat
  children : List Nat
  deriving Repr

namespace PoolNode

/-- The node asked for. Slot nodes come first; of the other children asked for, those that also fill
    a slot are left out. Model of `make_node`. -/
def ofRecipe (r : Recipe) : PoolNode where
  kind := r.kind
  text := r.text
  name := r.name
  line := r.line
  slots := r.slots
  children := r.slots.toList ++ r.children.filter (fun child => !r.slots.toList.contains child)

/-- The first position among the children of the node that fills a slot. -/
def slotIndex? (n : PoolNode) (slot : Slot) : Option Nat :=
  (n.slots.get slot).bind (fun handle => n.children.idxOf? handle)

theorem mem_children_of_slot {r : Recipe} {slot : Slot} {handle : Nat}
    (h : r.slots.get slot = some handle) : handle ∈ (ofRecipe r).children := by
  simp only [ofRecipe, List.mem_append]
  exact .inl (Slots.mem_toList.2 ⟨slot, h⟩)

theorem slotIndex?_eq_some {r : Recipe} {slot : Slot} {handle : Nat}
    (h : r.slots.get slot = some handle) :
    ∃ i, (ofRecipe r).slotIndex? slot = some i ∧ (ofRecipe r).children[i]? = some handle := by
  have hmem := mem_children_of_slot h
  have hslot : (ofRecipe r).slots.get slot = some handle := h
  cases hi : (ofRecipe r).children.idxOf? handle with
  | none => exact absurd hmem (List.idxOf?_eq_none_iff.1 hi)
  | some i =>
    refine ⟨i, by simp [slotIndex?, hslot, hi], ?_⟩
    simp only [List.idxOf?, List.findIdx?_eq_some_iff_getElem] at hi
    obtain ⟨hlt, heq, _⟩ := hi
    rw [List.getElem?_eq_getElem hlt]
    simpa using heq

/-- The tree of a node, given the trees of the nodes made before it. -/
def tree (before : List Ast) (n : PoolNode) : Ast where
  kind := n.kind
  text := n.text
  name := n.name
  line := n.line
  slots := n.slots.bind (fun handle => n.children.idxOf? handle)
  children := n.children.filterMap (before[·]?)

end PoolNode

/-- Nodes in the order in which they were made. -/
abbrev Pool := List PoolNode

namespace Pool

/-- The nodes asked for, one after the other. -/
def ofRecipes (recipes : List Recipe) : Pool := recipes.map PoolNode.ofRecipe

/-- The trees that the nodes stand for, in the same order. -/
def trees (pool : Pool) : List Ast :=
  pool.foldl (fun before n => before ++ [n.tree before]) []

end Pool

end FlowSketch
