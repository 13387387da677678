import FlowSketch.Mermaid
import Mathlib

/-!
# What a Mermaid text tells

A label stands between two quotation marks and holds none itself, so it ends at the next one
whatever is written in it, line feeds and lookalikes of lines included. So the text of a flowchart
can be taken apart line by line: the name of a node ends where its numeral ends, the character
behind it tells the line of a node from the line of an edge, and a line ends where its form says.

* `Mermaid.DrawnNode` — what the line of a node shows.
* `Mermaid.Item`, `Mermaid.items` — what has a line of its own, in the order of the lines.

Results:

* `itemLine_append_inj`: a line tells what it shows and where it ends, whatever follows.
* `Flowchart.mermaid_eq_iff`: flowcharts have the same text exactly when they show the same.
-/

namespace FlowSketch

namespace Mermaid

/-! ## What a line shows -/

/-- What the text shows of a node. -/
structure DrawnNode where
  id : Int
  shape : Shape
  label : String
  deriving DecidableEq, Repr

/-- A node as it is shown, its label cut to a limit. -/
def drawnNode (limit : Int) (n : FlowNode) : DrawnNode where
  id := n.id
  shape := n.kind.shape
  label := labelText limit n.label

/-- What has a line of its own. -/
inductive Item where
  | node (n : FlowNode)
  | edge (e : FlowEdge)

/-- The nodes and edges of a flowchart in the order of their lines. -/
def items (chart : Flowchart) : List Item := chart.nodes.map .node ++ chart.edges.map .edge

/-- What the line of an item shows. -/
def shown (limit : Int) : Item → DrawnNode ⊕ FlowEdge
  | .node n => .inl (drawnNode limit n)
  | .edge e => .inr e

/-- The line of an item, with the line feed that ends it. -/
def itemLine (limit : Int) : Item → List Char
  | .node n => (nodeLine limit n).toList ++ ['\n']
  | .edge e => (edgeLine e).toList ++ ['\n']

theorem itemLine_ne_nil (limit : Int) (item : Item) : itemLine limit item ≠ [] := by
  cases item <;> simp [itemLine]

/-! ## Runs of characters -/

/-- A run of characters of one sort ends where another sort begins. -/
theorem append_inj_of_run {p : Char → Bool} {run run' rest rest' : List Char}
    (hrun : ∀ c ∈ run, p c = true) (hrun' : ∀ c ∈ run', p c = true)
    (hrest : ∀ c ∈ rest.head?, p c = false) (hrest' : ∀ c ∈ rest'.head?, p c = false)
    (h : run ++ rest = run' ++ rest') : run = run' ∧ rest = rest' := by
  induction run generalizing run' with
  | nil =>
    cases run' with
    | nil => exact ⟨rfl, h⟩
    | cons c cs =>
      have hc : rest.head? = some c := by rw [← List.nil_append rest, h]; rfl
      have hp := hrun' c List.mem_cons_self
      rw [hrest c hc] at hp
      exact absurd hp (by decide)
  | cons c cs ih =>
    cases run' with
    | nil =>
      have hc : rest'.head? = some c := by rw [← List.nil_append rest', ← h]; rfl
      have hp := hrun c List.mem_cons_self
      rw [hrest' c hc] at hp
      exact absurd hp (by decide)
    | cons d ds =>
      obtain ⟨rfl, htails⟩ := List.cons.inj h
      obtain ⟨rfl, hrests⟩ := ih (fun d hd => hrun d (List.mem_cons_of_mem c hd))
        (fun d hd => hrun' d (List.mem_cons_of_mem c hd)) htails
      exact ⟨rfl, hrests⟩

/-- A run without a mark ends at the mark. -/
theorem append_inj_of_mark {mark : Char} {run run' rest rest' : List Char}
    (hrun : ∀ c ∈ run, c ≠ mark) (hrun' : ∀ c ∈ run', c ≠ mark)
    (h : run ++ mark :: rest = run' ++ mark :: rest') : run = run' ∧ rest = rest' := by
  have hmark : ∀ more : List Char, ∀ c ∈ (mark :: more).head?, (c != mark) = false := by
    intro more c hc
    obtain rfl : mark = c := by simpa using hc
    exact bne_self_eq_false mark
  obtain ⟨hruns, hrests⟩ := append_inj_of_run (p := fun c => c != mark)
    (fun c hc => bne_iff_ne.2 (hrun c hc)) (fun c hc => bne_iff_ne.2 (hrun' c hc))
    (hmark rest) (hmark rest') h
  exact ⟨hruns, (List.cons.inj hrests).2⟩

/-! ## Names -/

/-- A character of a decimal numeral. -/
def isNumeral (c : Char) : Bool := c.isDigit || c == '-'

theorem isNumeral_of_mem_repr {i : Int} {c : Char} (h : c ∈ i.repr.toList) :
    isNumeral c = true := by
  have hdigits : ∀ n : Nat, c ∈ n.repr.toList → isNumeral c = true := by
    intro n hn
    rw [Nat.toList_repr] at hn
    have hdigit := Nat.isDigit_of_mem_toDigits (by decide) (by decide) hn
    rw [isNumeral, hdigit, Bool.true_or]
  cases i with
  | ofNat n => exact hdigits n h
  | negSucc n =>
    rw [Int.repr, String.toList_append, List.mem_append] at h
    rcases h with h | h
    · obtain rfl : c = '-' := List.mem_singleton.1 h
      rfl
    · exact hdigits (n + 1) h

theorem toList_nodeName (id : Int) : (nodeName id).toList = 'n' :: id.repr.toList := by
  rw [nodeName, String.toList_append]
  rfl

/-- The name of a node ends where its numeral ends. -/
theorem nodeName_append_inj {i j : Int} {rest rest' : List Char}
    (hrest : ∀ c ∈ rest.head?, isNumeral c = false)
    (hrest' : ∀ c ∈ rest'.head?, isNumeral c = false)
    (h : (nodeName i).toList ++ rest = (nodeName j).toList ++ rest') : i = j ∧ rest = rest' := by
  rw [toList_nodeName, toList_nodeName, List.cons_append, List.cons_append] at h
  obtain ⟨hrepr, hrests⟩ := append_inj_of_run (fun _ => isNumeral_of_mem_repr)
    (fun _ => isNumeral_of_mem_repr) hrest hrest' (List.cons.inj h).2
  exact ⟨Int.repr_inj.1 (String.toList_inj.1 hrepr), hrests⟩

/-! ## What stands behind a name -/

theorem ne_quote_of_mem_labelText {limit : Int} {label : String} {c : Char}
    (h : c ∈ (labelText limit label).toList) : c ≠ '"' := by
  rw [labelText, String.toList_ofList, escape, List.mem_map] at h
  obtain ⟨d, -, rfl⟩ := h
  exact (escapeChar_ne d).1

theorem ne_bar_of_mem_name {label : EdgeLabel} {c : Char} (h : c ∈ label.name.toList) :
    c ≠ '|' := by
  have hnames : ∀ label : EdgeLabel, '|' ∉ label.name.toList := by
    intro label
    cases label <;> decide
  rintro rfl
  exact hnames label h

theorem name_injective {label label' : EdgeLabel} (h : label.name = label'.name) :
    label = label' := by
  revert h
  cases label <;> cases label' <;> decide

/-- A bracket ends at the quotation mark behind it. -/
theorem opening_append_inj {s t : Shape} {rest rest' : List Char}
    (h : s.opening.toList ++ '"' :: rest = t.opening.toList ++ '"' :: rest') :
    s = t ∧ rest = rest' := by
  cases s <;> cases t <;> simp_all [Shape.opening]

/-- What stands behind the name in the line of an item. -/
def behindName (limit : Int) : Item → List Char
  | .node n => n.kind.shape.opening.toList ++
      '"' :: ((labelText limit n.label).toList ++ '"' :: (n.kind.shape.closing.toList ++ ['\n']))
  | .edge e => " -->|".toList ++
      (e.label.name.toList ++ '|' :: ' ' :: ((nodeName e.target).toList ++ ['\n']))

/-- The node whose name stands first in the line of an item. -/
def Item.first : Item → Int
  | .node n => n.id
  | .edge e => e.source

theorem itemLine_eq (limit : Int) (item : Item) : itemLine limit item =
    "    ".toList ++ ((nodeName item.first).toList ++ behindName limit item) := by
  cases item with
  | node n => simp [itemLine, nodeLine, behindName, Item.first]
  | edge e => simp [itemLine, edgeLine, behindName, Item.first]

/-- No numeral goes on behind the name. -/
theorem isNumeral_behindName (limit : Int) (item : Item) (rest : List Char) :
    ∀ c ∈ (behindName limit item ++ rest).head?, isNumeral c = false := by
  cases item with
  | node n =>
    rw [behindName]
    cases n.kind.shape <;> simp [Shape.opening, isNumeral]
  | edge e => simp [behindName, isNumeral]

theorem behindName_node_append_inj {limit : Int} {n m : FlowNode} {rest rest' : List Char}
    (h : behindName limit (.node n) ++ rest = behindName limit (.node m) ++ rest') :
    n.kind.shape = m.kind.shape ∧ labelText limit n.label = labelText limit m.label ∧
      rest = rest' := by
  simp only [behindName, List.append_assoc, List.cons_append] at h
  obtain ⟨hshape, h⟩ := opening_append_inj h
  obtain ⟨hlabel, h⟩ := append_inj_of_mark (fun _ => ne_quote_of_mem_labelText)
    (fun _ => ne_quote_of_mem_labelText) h
  rw [hshape, List.append_cancel_left_eq] at h
  exact ⟨hshape, String.toList_inj.1 hlabel, (List.cons.inj h).2⟩

theorem behindName_edge_append_inj {limit : Int} {e f : FlowEdge} {rest rest' : List Char}
    (h : behindName limit (.edge e) ++ rest = behindName limit (.edge f) ++ rest') :
    e.label = f.label ∧ e.target = f.target ∧ rest = rest' := by
  simp only [behindName, List.append_assoc, List.cons_append, List.append_cancel_left_eq] at h
  obtain ⟨hname, h⟩ := append_inj_of_mark (fun _ => ne_bar_of_mem_name)
    (fun _ => ne_bar_of_mem_name) h
  have hfeed : ∀ more : List Char, ∀ c ∈ ('\n' :: more).head?, isNumeral c = false := by
    simp [isNumeral]
  obtain ⟨htarget, h⟩ := nodeName_append_inj (hfeed _) (hfeed _) (List.cons.inj h).2
  exact ⟨name_injective (String.toList_inj.1 hname), htarget, (List.cons.inj h).2⟩

theorem behindName_node_ne_edge {limit : Int} {n : FlowNode} {e : FlowEdge}
    {rest rest' : List Char} :
    behindName limit (.node n) ++ rest ≠ behindName limit (.edge e) ++ rest' := by
  rw [behindName, behindName]
  cases n.kind.shape <;> simp [Shape.opening]

/-! ## Lines -/

/-- A line tells what it shows and where it ends, whatever follows. -/
theorem itemLine_append_inj {limit : Int} {item other : Item} {rest rest' : List Char}
    (h : itemLine limit item ++ rest = itemLine limit other ++ rest') :
    shown limit item = shown limit other ∧ rest = rest' := by
  simp only [itemLine_eq, List.append_assoc, List.append_cancel_left_eq] at h
  obtain ⟨hfirst, h⟩ := nodeName_append_inj (isNumeral_behindName limit item rest)
    (isNumeral_behindName limit other rest') h
  cases item with
  | node n =>
    cases other with
    | node m =>
      obtain ⟨hshape, hlabel, hrests⟩ := behindName_node_append_inj h
      refine ⟨congrArg Sum.inl ?_, hrests⟩
      rw [drawnNode, drawnNode, hshape, hlabel, show n.id = m.id from hfirst]
    | edge e => exact absurd h behindName_node_ne_edge
  | edge e =>
    cases other with
    | node m => exact absurd h.symm behindName_node_ne_edge
    | edge f =>
      obtain ⟨hlabel, htarget, hrests⟩ := behindName_edge_append_inj h
      refine ⟨congrArg Sum.inr ?_, hrests⟩
      obtain ⟨source, target, label⟩ := e
      rw [show source = f.source from hfirst, show target = f.target from htarget,
        show label = f.label from hlabel]

/-- What a line shows is all that is written in it. -/
theorem itemLine_congr {limit : Int} {item other : Item}
    (h : shown limit item = shown limit other) : itemLine limit item = itemLine limit other := by
  cases item with
  | node n =>
    cases other with
    | node m =>
      have hdrawn : drawnNode limit n = drawnNode limit m := Sum.inl.inj h
      simp only [drawnNode, DrawnNode.mk.injEq] at hdrawn
      obtain ⟨hid, hshape, hlabel⟩ := hdrawn
      rw [itemLine, itemLine, nodeLine, nodeLine, hid, hshape, hlabel]
    | edge e => exact absurd h Sum.inl_ne_inr
  | edge e =>
    cases other with
    | node m => exact absurd h Sum.inr_ne_inl
    | edge f => rw [show e = f from Sum.inr.inj h]

/-- Lines one after the other tell what each of them shows. -/
theorem flatMap_itemLine_eq_iff {limit : Int} {left right : List Item} :
    left.flatMap (itemLine limit) = right.flatMap (itemLine limit) ↔
      left.map (shown limit) = right.map (shown limit) := by
  induction left generalizing right with
  | nil =>
    cases right with
    | nil => simp
    | cons other right => simp [itemLine_ne_nil]
  | cons item left ih =>
    cases right with
    | nil => simp [itemLine_ne_nil]
    | cons other right =>
      rw [List.flatMap_cons, List.flatMap_cons, List.map_cons, List.map_cons, List.cons.injEq, ← ih]
      constructor
      · exact itemLine_append_inj
      · rintro ⟨hshown, hrests⟩
        rw [itemLine_congr hshown, hrests]

/-! ## The text -/

/-- Each line is ended by a line feed. -/
theorem toList_intercalate_append (first : String) (lines : List String) :
    ("\n".intercalate (first :: lines) ++ "\n").toList =
      first.toList ++ '\n' :: lines.flatMap (fun line => line.toList ++ ['\n']) := by
  induction lines generalizing first with
  | nil => simp
  | cons line lines ih =>
    rw [String.intercalate_cons_cons, String.append_assoc, String.toList_append, ih]
    simp

theorem toList_mermaid (chart : Flowchart) (direction : String) (limit : Int) :
    (chart.mermaid direction limit).toList =
      ("flowchart " ++ direction).toList ++ '\n' :: (items chart).flatMap (itemLine limit) := by
  rw [Flowchart.mermaid, lines, List.cons_append, toList_intercalate_append, items]
  simp only [List.flatMap_append, List.flatMap_map]
  rfl

theorem map_shown_items (limit : Int) (chart : Flowchart) : (items chart).map (shown limit) =
    (chart.nodes.map (drawnNode limit)).map .inl ++ chart.edges.map .inr := by
  simp only [items, List.map_append, List.map_map]
  rfl

end Mermaid

open Mermaid

/-- Two flowcharts have the same text exactly when they show the same nodes one by one, each with
    its id, its form and its written label, and the same edges. -/
theorem Flowchart.mermaid_eq_iff (chart other : Flowchart) (direction : String) (limit : Int) :
    chart.mermaid direction limit = other.mermaid direction limit ↔
      chart.nodes.map (drawnNode limit) = other.nodes.map (drawnNode limit) ∧
        chart.edges = other.edges := by
  rw [← String.toList_inj, toList_mermaid, toList_mermaid, List.append_cancel_left_eq,
    List.cons.injEq, flatMap_itemLine_eq_iff, map_shown_items, map_shown_items]
  constructor
  · rintro ⟨-, h⟩
    have hnodes := congrArg (List.filterMap Sum.getLeft?) h
    have hedges := congrArg (List.filterMap Sum.getRight?) h
    exact ⟨by simpa [Function.comp_def] using hnodes, by simpa [Function.comp_def] using hedges⟩
  · rintro ⟨hnodes, hedges⟩
    exact ⟨rfl, by rw [hnodes, hedges]⟩

end FlowSketch
