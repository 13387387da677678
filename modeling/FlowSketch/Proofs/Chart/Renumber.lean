import FlowSketch.Chart.Layout
import Mathlib.Data.Int.Init
import Mathlib.Tactic.ByContra
import Mathlib.Tactic.SplitIfs

/-!
# Renumbering

When some nodes of a flowchart are gone the others move up: an id is as much smaller as there are
ids gone below it, and so the ids that are left keep their order and count up from zero again.

* `renumber` — the number of an id among those that are left.
* `keep` — what is left of a list that is numbered from an id.
* `keptNodes`, `keptEdges` — the nodes and edges that are left.

Results:

* `renumber_lt`: the ids that are left keep their order.
* `renumber_add_of_gone`: ids that are gone take no room.
-/

namespace FlowSketch

section Renumber

variable {gone : Int → Bool} {i id : Int}

/-! ## Ids -/

/-- The number of an id when those that are gone are left out. -/
def renumber (gone : Int → Bool) (id : Int) : Int :=
  id - ((List.range id.toNat).countP (fun k : Nat => gone k) : Nat)

/-- Ids that are gone are ids of nodes, which count up from zero. -/
def Nonneg (gone : Int → Bool) : Prop := ∀ id, gone id = true → 0 ≤ id

theorem renumber_zero (gone : Int → Bool) : renumber gone 0 = 0 := by
  simp [renumber]

theorem renumber_succ (hg : Nonneg gone) (id : Int) :
    renumber gone (id + 1) = if gone id then renumber gone id else renumber gone id + 1 := by
  unfold renumber
  by_cases h : 0 ≤ id
  · have htoNat : (id + 1).toNat = id.toNat + 1 := by omega
    have hid : (id.toNat : Int) = id := Int.toNat_of_nonneg h
    rw [htoNat, List.range_succ, List.countP_append, List.countP_singleton, hid]
    by_cases hgone : gone id
    · rw [if_pos hgone, if_pos hgone]
      push_cast
      omega
    · rw [if_neg hgone, if_neg hgone]
      push_cast
      omega
  · have hgone : gone id = false := by
      by_contra hgone
      exact h (hg id (by simpa using hgone))
    have htoNat : (id + 1).toNat = id.toNat := by omega
    rw [hgone, htoNat]
    simp only [Bool.false_eq_true, if_false]
    omega

theorem renumber_succ_of_kept (hg : Nonneg gone) (h : gone id = false) :
    renumber gone (id + 1) = renumber gone id + 1 := by
  rw [renumber_succ hg, h]
  rfl

theorem renumber_le (hg : Nonneg gone) {j : Int} (h : i ≤ j) :
    renumber gone i ≤ renumber gone j := by
  induction j, h using Int.leInduction with
  | base => exact Int.le_refl _
  | succ j _ ih =>
    have := renumber_succ hg j
    split_ifs at this <;> omega

/-- The ids that are left keep their order. -/
theorem renumber_lt (hg : Nonneg gone) {j : Int} (hi : gone i = false) (h : i < j) :
    renumber gone i < renumber gone j := by
  have hle : renumber gone (i + 1) ≤ renumber gone j := renumber_le hg h
  rw [renumber_succ_of_kept hg hi] at hle
  omega

theorem renumber_inj (hg : Nonneg gone) {j : Int} (hi : gone i = false) (hj : gone j = false) :
    renumber gone i = renumber gone j ↔ i = j := by
  constructor
  · intro h
    rcases Int.lt_trichotomy i j with hlt | heq | hlt
    · have := renumber_lt hg hi hlt
      omega
    · exact heq
    · have := renumber_lt hg hj hlt
      omega
  · intro h
    rw [h]

/-- Ids that are gone take no room. -/
theorem renumber_add_of_gone (hg : Nonneg gone) {n : Nat}
    (h : ∀ id, i ≤ id → id < i + n → gone id = true) :
    renumber gone (i + n) = renumber gone i := by
  induction n with
  | zero => simp
  | succ n ih =>
    have hn : gone (i + n) = true := h _ (by omega) (by omega)
    have hcast : i + ((n + 1 : Nat) : Int) = i + n + 1 := by omega
    rw [hcast, renumber_succ hg, hn, if_pos rfl]
    exact ih (fun id hle hlt => h id hle (by omega))

/-! ## Lists -/

variable {α : Type}

/-- What is left of a list that is numbered from `i`. -/
def keep (gone : Int → Bool) : (i : Int) → List α → List α
  | _, [] => []
  | i, a :: as => if gone i then keep gone (i + 1) as else a :: keep gone (i + 1) as

theorem keep_append (i : Int) (as bs : List α) :
    keep gone i (as ++ bs) = keep gone i as ++ keep gone (i + as.length) bs := by
  induction as generalizing i with
  | nil => simp [keep]
  | cons a as ih =>
    have hcast : i + 1 + (as.length : Int) = i + ((a :: as).length : Nat) := by
      rw [List.length_cons]
      omega
    rw [List.cons_append, keep, keep, ih, hcast]
    split_ifs
    · rfl
    · rw [List.cons_append]

theorem keep_eq_self {as : List α} (h : ∀ id, i ≤ id → id < i + as.length → gone id = false) :
    keep gone i as = as := by
  induction as generalizing i with
  | nil => rfl
  | cons a as ih =>
    rw [List.length_cons] at h
    rw [keep, h i (by omega) (by omega), ih (fun id hle hlt => h id (by omega) (by omega))]
    rfl

theorem keep_eq_nil {as : List α} (h : ∀ id, i ≤ id → id < i + as.length → gone id = true) :
    keep gone i as = [] := by
  induction as generalizing i with
  | nil => rfl
  | cons a as ih =>
    rw [List.length_cons] at h
    rw [keep, h i (by omega) (by omega), if_pos rfl]
    exact ih (fun id hle hlt => h id (by omega) (by omega))

end Renumber

/-! ## Nodes, edges and exits -/

/-- The node with its id among those that are left. -/
def FlowNode.renumber (gone : Int → Bool) (node : FlowNode) : FlowNode :=
  { node with id := FlowSketch.renumber gone node.id }

/-- The edge with the ids of its ends among those that are left. -/
def FlowEdge.renumber (gone : Int → Bool) (e : FlowEdge) : FlowEdge :=
  { e with source := FlowSketch.renumber gone e.source,
           target := FlowSketch.renumber gone e.target }

/-- The exit with the id of its source among those that are left. -/
def Exit.renumber (gone : Int → Bool) (x : Exit) : Exit :=
  { x with source := FlowSketch.renumber gone x.source }

/-- The nodes that are left, renumbered. -/
def keptNodes (gone : Int → Bool) (nodes : List FlowNode) : List FlowNode :=
  (nodes.filter (fun node => !gone node.id)).map (·.renumber gone)

/-- The edges that are left, renumbered: those that start at a node that is left. -/
def keptEdges (gone : Int → Bool) (edges : List FlowEdge) : List FlowEdge :=
  (edges.filter (fun e => !gone e.source)).map (·.renumber gone)

section Kept

variable {gone : Int → Bool}

theorem keptNodes_append (nodes others : List FlowNode) :
    keptNodes gone (nodes ++ others) = keptNodes gone nodes ++ keptNodes gone others := by
  simp [keptNodes]

theorem keptEdges_append (edges others : List FlowEdge) :
    keptEdges gone (edges ++ others) = keptEdges gone edges ++ keptEdges gone others := by
  simp [keptEdges]

theorem keptNodes_cons {node : FlowNode} (h : gone node.id = false) (nodes : List FlowNode) :
    keptNodes gone (node :: nodes) = node.renumber gone :: keptNodes gone nodes := by
  simp [keptNodes, h]

/-- Edges from nodes that are left are left. -/
theorem keptEdges_eq_map {edges : List FlowEdge} (h : ∀ e ∈ edges, gone e.source = false) :
    keptEdges gone edges = edges.map (·.renumber gone) := by
  rw [keptEdges, List.filter_eq_self.2]
  intro e he
  rw [h e he]
  rfl

theorem keptNodes_eq_nil {nodes : List FlowNode} (h : ∀ node ∈ nodes, gone node.id = true) :
    keptNodes gone nodes = [] := by
  rw [keptNodes, List.map_eq_nil_iff, List.filter_eq_nil_iff]
  intro node hnode
  rw [h node hnode]
  decide

theorem keptEdges_eq_nil {edges : List FlowEdge} (h : ∀ e ∈ edges, gone e.source = true) :
    keptEdges gone edges = [] := by
  rw [keptEdges, List.map_eq_nil_iff, List.filter_eq_nil_iff]
  intro e he
  rw [h e he]
  decide

end Kept

end FlowSketch
