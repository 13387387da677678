import FlowSketch.Mermaid
import FlowSketch.Proofs.Text.Words
import Mathlib

/-!
# Labels within a limit

A label within the limit is shown whole. Of a longer one the first characters are shown, without
the blanks at their end, and an ellipsis in place of the rest. Together they keep to the limit as
long as it leaves room for the ellipsis and one character in front of it, which is never cut off:
under a limit below four the label that is shown may have four characters.

* `Mermaid.ShownWithin` — how a label is shown under a limit.
* `Flowchart.withLabels` — the text of a flowchart with other texts for its labels.

Results:

* `Mermaid.truncate_of_lt`: a label that is too long is cut in front of an ellipsis.
* `Mermaid.shownWithin_labelText`: how a label is written.
* `Flowchart.labels_limited`: so it is in the text of every flowchart.
* `Flowchart.label_overruns`: a label that is longer than a limit of three.
-/

namespace FlowSketch

namespace Mermaid

open Text (isBlank)

/-! ## Cutting -/

/-- How a label is shown under a limit. -/
structure ShownWithin (limit : Int) (label shown : List Char) : Prop where
  /-- Within the limit, the escaped label itself. -/
  whole : (escape label).length ≤ limit → shown = escape label
  /-- Otherwise an ellipsis behind the first characters, without the blanks at their end. As many
      are taken as fit in front of the ellipsis, and at least one. -/
  cut : limit < (escape label).length → ∃ front blanks,
    front ++ blanks <+: label ∧ ((front ++ blanks).length : Int) = max 1 (limit - 3) ∧
      (∀ c ∈ blanks, isBlank c = true) ∧ (∀ c ∈ front.getLast?, isBlank c = false) ∧
      shown = escape front ++ ['.', '.', '.']
  /-- A limit of four or more is kept, and below it four characters are not exceeded. -/
  length_le : shown.length ≤ max limit 4

theorem length_escape (label : List Char) : (escape label).length = label.length :=
  List.length_map _

/-- A label that is too long is cut in front of an ellipsis. -/
theorem truncate_of_lt {limit : Int} {label : List Char} (h : 1 ≤ limit)
    (hlong : limit < label.length) : ∃ front blanks,
      front ++ blanks <+: label ∧ ((front ++ blanks).length : Int) = max 1 (limit - 3) ∧
        (∀ c ∈ blanks, isBlank c = true) ∧ (∀ c ∈ front.getLast?, isBlank c = false) ∧
        truncate limit label = front ++ ['.', '.', '.'] := by
  obtain ⟨blanks, hcut, hblanks, hfront⟩ := Text.trimEnd_spec (label.take (max 1 (limit - 3)).toNat)
  refine ⟨_, blanks, ?_, ?_, hblanks, hfront, ?_⟩
  · rw [hcut]
    exact List.take_prefix _ _
  · rw [hcut, List.length_take]
    omega
  · rw [truncate, if_neg (by omega)]

/-- How a label is written. -/
theorem shownWithin_labelText {limit : Int} (h : 1 ≤ limit) (label : String) :
    ShownWithin limit label.toList (labelText limit label).toList := by
  rw [labelText, String.toList_ofList]
  generalize label.toList = cs
  by_cases hlong : limit < cs.length
  · obtain ⟨front, blanks, hprefix, hlength, hblanks, hfront, htruncate⟩ := truncate_of_lt h hlong
    have hshown : escape (truncate limit cs) = escape front ++ ['.', '.', '.'] := by
      rw [htruncate, escape, List.map_append]
      rfl
    refine ⟨fun hwhole => ?_, fun _ => ?_, ?_⟩
    · rw [length_escape] at hwhole
      omega
    · exact ⟨front, blanks, hprefix, hlength, hblanks, hfront, hshown⟩
    · rw [hshown, List.length_append, length_escape]
      rw [List.length_append] at hlength
      simp only [List.length_cons, List.length_nil]
      omega
  · have htruncate : truncate limit cs = cs := if_pos (.inr (by omega))
    rw [htruncate]
    refine ⟨fun _ => rfl, fun hcut => ?_, ?_⟩
    · rw [length_escape] at hcut
      exact absurd hcut hlong
    · rw [length_escape]
      omega

/-- The line of a node with a text in the place of its label. -/
def framedLine (n : FlowNode) (shown : String) : String :=
  "    " ++ nodeName n.id ++ n.kind.shape.opening ++ "\"" ++ shown ++ "\"" ++ n.kind.shape.closing

end Mermaid

open Mermaid

/-! ## Flowcharts -/

/-- The text of a flowchart with texts in the places of its labels, node by node. -/
def Flowchart.withLabels (chart : Flowchart) (direction : String) (shown : List String) : String :=
  "\n".intercalate (("flowchart " ++ direction) :: List.zipWith framedLine chart.nodes shown ++
    chart.edges.map edgeLine) ++ "\n"

theorem Flowchart.mermaid_eq_withLabels (chart : Flowchart) (direction : String) (limit : Int) :
    chart.mermaid direction limit =
      chart.withLabels direction (chart.nodes.map (fun n => labelText limit n.label)) := by
  have hlines : List.zipWith framedLine chart.nodes
      (chart.nodes.map (fun n => labelText limit n.label)) = chart.nodes.map (nodeLine limit) := by
    rw [List.zipWith_map_right, List.zipWith_self]
    rfl
  rw [mermaid, Mermaid.lines, withLabels, hlines]

/-- In the text of a flowchart every label keeps to the limit, or to four characters if the limit
    is lower; it is the escaped label where that keeps to the limit, and otherwise the escaped
    beginning of the label, without a blank at its end, and an ellipsis. -/
theorem Flowchart.labels_limited (chart : Flowchart) (direction : String) {limit : Int}
    (h : 1 ≤ limit) : ∃ shown : List String,
      chart.mermaid direction limit = chart.withLabels direction shown ∧
        List.Forall₂ (fun n text => ShownWithin limit n.label.toList text.toList)
          chart.nodes shown := by
  refine ⟨_, chart.mermaid_eq_withLabels direction limit, ?_⟩
  rw [List.forall₂_map_right_iff, List.forall₂_same]
  exact fun n _ => shownWithin_labelText h n.label

/-- A flowchart of one step. -/
def Flowchart.oneStep (label : String) : Flowchart :=
  { nodes := [⟨0, .other, label⟩], edges := [], entry := some 0 }

/-- A label that is cut behind a blank, which is cut off too. -/
theorem Flowchart.labels_limited_cutBlank :
    (oneStep "x [i] = 10").mermaid "LR" 5 = "flowchart LR\n    n0[\"x...\"]\n" ∧
    ∃ shown : List String,
      (oneStep "x [i] = 10").mermaid "LR" 5 = (oneStep "x [i] = 10").withLabels "LR" shown ∧
        List.Forall₂ (fun n text => ShownWithin 5 n.label.toList text.toList)
          (oneStep "x [i] = 10").nodes shown :=
  ⟨by rfl, labels_limited (oneStep "x [i] = 10") "LR" (by decide)⟩

/-- Under a limit of three a label of four characters is cut and still has four. -/
theorem Flowchart.label_overruns :
    (oneStep "abcd").mermaid "TD" 3 = "flowchart TD\n    n0[\"a...\"]\n" ∧
    labelText 3 "abcd" = "a..." ∧ ¬(labelText 3 "abcd").length ≤ 3 :=
  ⟨by rfl, by rfl, by decide⟩

end FlowSketch
