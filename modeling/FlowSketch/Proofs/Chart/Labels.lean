import FlowSketch.Proofs.Chart.Drawn
import FlowSketch.Proofs.Mermaid
import FlowSketch.Proofs.Metrics.Survey
import FlowSketch.Proofs.Text.Words

/-!
# Labels of one line

A label is put together from collapsed texts, from placeholders, and from the name of a function,
which alone is taken as it is. So the labels of a flowchart are normal texts exactly when the names
of its functions are, and a line feed in the Mermaid text that does not end a line comes from a
name.

* `Ast.IsLine` — a normal text with something to read.
* `Ast.drawnNames` — the names of the functions that are drawn.

Results:

* `Ast.isLine_orElse`, `Ast.isNormal_clauseText`, `Ast.isLine_forLabel`: the parts of labels.
* `Ast.label_ne_empty`, `Ast.isNormal_label_iff`: no label is empty, and a label is normal unless it
  has the name of a function that is not.
* `Mermaid.count_mermaid`: where blanks other than spaces stand in the text of a flowchart.
* `Flowchart.labels_collapsed_iff`: when all labels are normal, and when each has a line to itself.
-/

namespace FlowSketch

open Text (IsNormal isBlank)

namespace Ast

variable {n : Ast}

/-- A text of one line: there is something to read, and it is normal. -/
structure IsLine (s : String) : Prop where
  ne_empty : s ≠ ""
  isNormal : IsNormal s.toList

/-! ## Parts of labels -/

theorem isLine_of_collapse {s : String} (hne : s ≠ "") (h : Text.collapse s = s) : IsLine s :=
  ⟨hne, Text.collapse_eq_self_iff.1 h⟩

theorem IsLine.toList_ne_nil {s : String} (h : IsLine s) : s.toList ≠ [] := by
  rw [← String.toList_empty]
  exact fun heq => h.ne_empty (String.toList_inj.1 heq)

theorem IsLine.append {s t : String} (hs : IsLine s) (ht : IsLine t) : IsLine (s ++ t) where
  ne_empty h := hs.ne_empty (String.append_eq_empty_iff.1 h).1
  isNormal := by
    rw [String.toList_append]
    exact hs.isNormal.append ht.isNormal

theorem IsLine.append_space {s t : String} (hs : IsLine s) (ht : IsLine t) :
    IsLine (s ++ " " ++ t) where
  ne_empty h := ht.ne_empty (String.append_eq_empty_iff.1 h).2
  isNormal := by
    have hsplit : (s ++ " " ++ t).toList = s.toList ++ ' ' :: t.toList := by simp
    rw [hsplit]
    exact hs.isNormal.append_space ht.isNormal hs.toList_ne_nil ht.toList_ne_nil

theorem isLine_missingCondition : IsLine missingCondition :=
  isLine_of_collapse (by decide) (by decide)

/-- Cutting the semicolons off a collapsed text may leave a space at its end, which goes as
    well. -/
theorem isNormal_clauseText (text : String) : IsNormal (clauseText text).toList := by
  rw [clauseText, String.toList_ofList]
  exact (Text.isNormal_collapse text).trim_front (List.rdropWhile_prefix _ _)

theorem isNormal_clause (n : Ast) (slot : Slot) : IsNormal (n.clause slot).toList := by
  unfold clause
  cases n.child? slot with
  | some child => exact isNormal_clauseText child.text
  | none => exact Text.isNormal_nil

theorem isLine_orElse {text instead : String} (h : IsNormal text.toList)
    (hinstead : IsLine instead) : IsLine (orElse text instead) := by
  unfold orElse
  by_cases hempty : text.isEmpty = true
  · rwa [if_pos hempty]
  · rw [if_neg hempty]
    exact ⟨by simpa using hempty, h⟩

/-- A clause with the semicolon behind it. -/
theorem isLine_append_semicolon {s : String} (h : IsNormal s.toList) : IsLine (s ++ ";") where
  ne_empty heq := absurd (String.append_eq_empty_iff.1 heq).2 (by decide)
  isNormal := by
    rw [String.toList_append]
    exact h.append (Text.collapse_eq_self_iff.1 (by decide))

/-- Three clauses are told apart by semicolons. Without the last clause the text ends in a space,
    which is taken off. -/
theorem isLine_strip_clauses {init condition increment : String} (hinit : IsNormal init.toList)
    (hcondition : IsNormal condition.toList) (hincrement : IsNormal increment.toList) :
    IsLine (Text.strip (init ++ ";" ++ " " ++ (condition ++ ";") ++ " " ++ increment)) := by
  have hfront := (isLine_append_semicolon hinit).append_space (isLine_append_semicolon hcondition)
  constructor
  · -- the semicolons are not blank
    intro h
    rw [Text.strip_eq_empty_iff, Text.blankOnly, List.all_eq_true] at h
    exact absurd (h ';' (by simp)) (by decide)
  · rw [Text.strip, String.toList_ofList]
    by_cases hempty : increment = ""
    · -- one more character behind the space would make the text normal
      have hmore := hfront.append_space (isLine_of_collapse (s := ";") (by decide) (by decide))
      refine hmore.isNormal.trim_front ⟨[';'], ?_⟩
      rw [hempty]
      simp
    · exact (hfront.append_space ⟨hempty, hincrement⟩).isNormal.trim_front List.prefix_rfl

theorem isLine_forLabel {init condition increment : String} (hinit : IsNormal init.toList)
    (hcondition : IsNormal condition.toList) (hincrement : IsNormal increment.toList) :
    IsLine (forLabel init condition increment) := by
  unfold forLabel
  split_ifs with hall hrest
  · exact isLine_of_collapse (by decide) (by decide)
  · refine ⟨?_, hcondition⟩
    rintro rfl
    simp_all
  · have h := isLine_strip_clauses hinit hcondition hincrement
    have hspace : "; " = ";" ++ " " := rfl
    simpa only [hspace, String.append_assoc] using h

/-! ## Labels -/

/-- A label without a name in it is a line. -/
theorem isLine_label (hk : n.kind ≠ .functionDef) : IsLine n.label := by
  have hcondition := isLine_orElse (n.isNormal_clause .condition) isLine_missingCondition
  have hstep : ∀ kind : Kind, IsLine (orElse (Text.collapse n.text) ("<" ++ kind.name ++ ">")) := by
    intro kind
    refine isLine_orElse (Text.isNormal_collapse n.text) (isLine_of_collapse ?_ ?_) <;>
      cases kind <;> decide
  unfold label
  cases hkind : n.kind
  case functionDef => exact absurd hkind hk
  case ifStmt =>
    cases n.child? .condition with
    | some condition =>
      exact isLine_orElse (Text.isNormal_collapse condition.text) isLine_missingCondition
    | none => exact isLine_missingCondition
  case forLoop =>
    exact isLine_forLabel (n.isNormal_clause .init) (n.isNormal_clause .condition)
      (n.isNormal_clause .increment)
  case whileLoop => exact hcondition
  case doWhile =>
    have hopen : IsLine "(" := isLine_of_collapse (by decide) (by decide)
    have hclose : IsLine ")" := isLine_of_collapse (by decide) (by decide)
    have hwords : IsLine "do ... while" := isLine_of_collapse (by decide) (by decide)
    have h := hwords.append_space ((hopen.append hcondition).append hclose)
    have hframe : "do ... while (" = "do ... while" ++ " " ++ "(" := rfl
    show IsLine ("do ... while (" ++ _ ++ ")")
    simpa only [hframe, String.append_assoc] using h
  all_goals exact hstep _

theorem label_ne_empty (n : Ast) : n.label ≠ "" := by
  by_cases hk : n.kind = .functionDef
  · rw [label, hk]
    exact fun h => absurd (String.append_eq_empty_iff.1 h).1 (by decide)
  · exact (isLine_label hk).ne_empty

theorem properName?_ne_empty {name : String} (h : n.properName? = some name) : name ≠ "" := by
  obtain ⟨-, hname⟩ := Option.filter_eq_some_iff.1 h
  simpa using hname

/-- A label is normal unless it has the name of a function that is not. -/
theorem isNormal_label_iff (n : Ast) : IsNormal n.label.toList ↔
    ∀ name, n.functionName? = some name → IsNormal name.toList := by
  by_cases hk : n.kind = .functionDef
  · rw [functionName?, if_pos hk, label, hk]
    have hwords : IsLine "Function:" := isLine_of_collapse (by decide) (by decide)
    have hframe : "Function: " = "Function:" ++ " " := rfl
    cases hname : n.properName? with
    | some name =>
      show IsNormal ("Function: " ++ name).toList ↔ _
      constructor
      · rintro h _ ⟨⟩
        have hsplit : ("Function: " ++ name).toList = "Function:".toList ++ ' ' :: name.toList := by
          simp
        rw [hsplit] at h
        exact h.behind_space
      · intro h
        rw [hframe]
        exact (hwords.append_space ⟨properName?_ne_empty hname, h name rfl⟩).isNormal
    | none =>
      show IsNormal ("Function: " ++ anonymousFunction).toList ↔ _
      simp only [reduceCtorEq, false_implies, implies_true, iff_true]
      exact Text.collapse_eq_self_iff.1 (by decide)
  · rw [functionName?, if_neg hk]
    simpa using (isLine_label hk).isNormal

/-- The labels in the listing of a tree are those of the nodes that are drawn. -/
theorem map_label_drawn (n : Ast) : n.drawn.map label = n.listing.map Prod.snd := by
  induction n using Ast.induction with | node n hs =>
  rw [drawn_eq, listing_eq, List.map_append, List.map_append, List.map_flatMap, List.map_flatMap]
  congr 1
  · rw [self]
    cases n.kind.flowKind? <;> rfl
  · exact List.flatMap_congr fun m hm => hs m (mem_children_of_mem_visited hm)

/-- The names of the functions that are drawn. -/
def drawnNames (root : Ast) : List String := root.drawn.filterMap functionName?

theorem forall_drawnNames_iff {root : Ast} {P : String → Prop} :
    (∀ name ∈ root.drawnNames, P name) ↔
      ∀ n ∈ root.drawn, ∀ name, n.functionName? = some name → P name := by
  simp only [drawnNames, List.mem_filterMap]
  constructor
  · exact fun h n hn name hname => h name ⟨n, hn, hname⟩
  · rintro h name ⟨n, hn, hname⟩
    exact h n hn name hname

/-- A blank other than a space is in a label because it is in the name there. -/
theorem mem_label_iff {sep : Char} (hblank : isBlank sep = true) (hspace : sep ≠ ' ') (n : Ast) :
    sep ∈ n.label.toList ↔ ∃ name, n.functionName? = some name ∧ sep ∈ name.toList := by
  cases hname : n.functionName? with
  | none =>
    have hnormal := n.isNormal_label_iff.2 (by simp [hname])
    simp only [reduceCtorEq, false_and, exists_false, iff_false]
    exact fun hmem => hspace (hnormal.spaces sep hmem hblank)
  | some name =>
    have hk : n.kind = .functionDef := by
      by_contra hk
      rw [functionName?, if_neg hk] at hname
      contradiction
    rw [functionName?, if_pos hk] at hname
    have hlabel : n.label = "Function: " ++ name := by
      rw [label, hk]
      show "Function: " ++ n.properName?.getD anonymousFunction = _
      rw [hname]
      rfl
    have hframe : sep ∉ "Function: ".toList := by
      intro hmem
      have hwords : IsNormal "Function: f".toList := Text.collapse_eq_self_iff.1 (by decide)
      exact hspace (hwords.spaces sep (List.mem_append_left ['f'] hmem) hblank)
    rw [hlabel, String.toList_append, List.mem_append]
    constructor
    · exact fun hmem => ⟨name, rfl, hmem.resolve_left hframe⟩
    · rintro ⟨_, ⟨⟩, hmem⟩
      exact .inr hmem

end Ast

namespace Mermaid

/-! ## Blanks in the text -/

section Blanks

variable {sep : Char} (hblank : isBlank sep = true) (hspace : sep ≠ ' ')

include hblank hspace in
/-- Texts whose only blanks are spaces hold no other. -/
theorem count_eq_zero_of_spaces {cs : List Char}
    (h : cs.all (fun c => !isBlank c || c == ' ') = true) : cs.count sep = 0 := by
  refine List.count_eq_zero.2 fun hmem => ?_
  have hsep := List.all_eq_true.1 h sep hmem
  rw [hblank] at hsep
  exact hspace (by simpa using hsep)

theorem isBlank_of_isNumeral {c : Char} (h : isNumeral c = true) : isBlank c = false := by
  rw [isNumeral, Bool.or_eq_true] at h
  rcases h with hdigit | hminus
  · simp only [Char.isDigit, Bool.and_eq_true, decide_eq_true_eq, UInt32.le_iff_toNat_le] at hdigit
    have hlow : 48 ≤ c.toNat := hdigit.1
    have hhigh : c.toNat ≤ 57 := hdigit.2
    simp only [isBlank, Bool.or_eq_false_iff, Bool.and_eq_false_iff, decide_eq_false_iff_not,
      beq_eq_false_iff_ne]
    omega
  · rw [beq_iff_eq.1 hminus]
    decide

/-- A character that is replaced is not blank, nor is what stands in its place. -/
theorem escapeChar_eq_self_or (c : Char) :
    escapeChar c = c ∨ isBlank c = false ∧ isBlank (escapeChar c) = false := by
  unfold escapeChar
  split_ifs with hquote hopen hclose hbar
  · exact .inr (by rw [hquote]; decide)
  · exact .inr (by rcases hopen with rfl | rfl <;> decide)
  · exact .inr (by rcases hclose with rfl | rfl <;> decide)
  · exact .inr (by rw [hbar]; decide)
  · exact .inl rfl

include hblank in
theorem count_nodeName (id : Int) : (nodeName id).toList.count sep = 0 := by
  rw [toList_nodeName]
  refine List.count_eq_zero.2 fun hmem => ?_
  rcases List.mem_cons.1 hmem with rfl | hmem
  · exact absurd hblank (by decide)
  · rw [isBlank_of_isNumeral (isNumeral_of_mem_repr hmem)] at hblank
    exact absurd hblank (by decide)

include hblank in
theorem count_escape (label : List Char) : (escape label).count sep = label.count sep := by
  have hchar : ∀ c, escapeChar c = sep ↔ c = sep := by
    intro c
    rcases escapeChar_eq_self_or c with h | ⟨hc, hescaped⟩
    · rw [h]
    · constructor
      · rintro rfl
        exact absurd (hblank.symm.trans hescaped) (by decide)
      · rintro rfl
        exact absurd (hblank.symm.trans hc) (by decide)
  rw [escape, List.count_eq_countP, List.count_eq_countP, List.countP_map]
  exact List.countP_congr fun c _ => by simp [hchar]

/-- Cutting a label adds at most full stops to it. -/
theorem mem_of_mem_truncate {limit : Int} {label : List Char} {c : Char}
    (h : c ∈ truncate limit label) : c ∈ label ∨ c = '.' := by
  unfold truncate at h
  split_ifs at h with hcut
  · exact .inl h
  · rcases List.mem_append.1 h with h | h
    · exact .inl (List.take_subset _ _ ((List.rdropWhile_prefix isBlank _).subset h))
    · exact .inr (by simpa using h)

include hblank in
/-- A blank that is not in a label is not written. -/
theorem count_labelText_eq_zero {label : String} (limit : Int) (h : sep ∉ label.toList) :
    (labelText limit label).toList.count sep = 0 := by
  rw [labelText, String.toList_ofList, count_escape hblank]
  refine List.count_eq_zero.2 fun hmem => ?_
  rcases mem_of_mem_truncate hmem with hmem | rfl
  · exact h hmem
  · exact absurd hblank (by decide)

include hblank in
/-- Without a limit all of a label is written. -/
theorem count_labelText_zero (label : String) :
    (labelText 0 label).toList.count sep = label.toList.count sep := by
  rw [labelText, String.toList_ofList, count_escape hblank, truncate, if_pos (.inl le_rfl)]

include hblank hspace in
theorem count_itemLine_node (limit : Int) (n : FlowNode) :
    (itemLine limit (.node n)).count sep =
      (labelText limit n.label).toList.count sep + ['\n'].count sep := by
  have hframe := @count_eq_zero_of_spaces sep hblank hspace
  have hindent : "    ".toList.count sep = 0 := hframe (by decide)
  have hopening : n.kind.shape.opening.toList.count sep = 0 := hframe (by cases n.kind <;> decide)
  have hclosing : n.kind.shape.closing.toList.count sep = 0 := hframe (by cases n.kind <;> decide)
  have hquote : ['"'].count sep = 0 := hframe (by decide)
  simp only [itemLine, nodeLine, String.toList_append, List.count_append, hindent, hopening,
    hclosing, count_nodeName hblank]
  rw [show "\"".toList = ['"'] from rfl, hquote]
  omega

include hblank hspace in
theorem count_itemLine_edge (limit : Int) (e : FlowEdge) :
    (itemLine limit (.edge e)).count sep = ['\n'].count sep := by
  have hframe := @count_eq_zero_of_spaces sep hblank hspace
  have hindent : "    ".toList.count sep = 0 := hframe (by decide)
  have harrow : " -->|".toList.count sep = 0 := hframe (by decide)
  have hname : e.label.name.toList.count sep = 0 := hframe (by cases e.label <;> decide)
  have hbar : "| ".toList.count sep = 0 := hframe (by decide)
  simp only [itemLine, edgeLine, String.toList_append, List.count_append, hindent, harrow, hname,
    hbar, count_nodeName hblank]
  omega

include hblank hspace in
/-- A blank other than a space stands in the direction, in a written label, or at the end of a
    line. -/
theorem count_mermaid (chart : Flowchart) (direction : String) (limit : Int) :
    (chart.mermaid direction limit).toList.count sep =
      direction.toList.count sep +
        (chart.nodes.map (fun n => (labelText limit n.label).toList.count sep)).sum +
          (1 + chart.nodes.length + chart.edges.length) * ['\n'].count sep := by
  have hheading : "flowchart ".toList.count sep = 0 :=
    count_eq_zero_of_spaces hblank hspace (by decide)
  have hnodes : (chart.nodes.map (fun n => (itemLine limit (.node n)).count sep)).sum =
      (chart.nodes.map (fun n => (labelText limit n.label).toList.count sep)).sum +
        chart.nodes.length * ['\n'].count sep := by
    simp only [count_itemLine_node hblank hspace, List.sum_map_add, List.map_const',
      List.sum_replicate, smul_eq_mul]
  have hedges : (chart.edges.map (fun e => (itemLine limit (.edge e)).count sep)).sum =
      chart.edges.length * ['\n'].count sep := by
    simp only [count_itemLine_edge hblank hspace, List.map_const', List.sum_replicate, smul_eq_mul]
  rw [toList_mermaid, ← List.singleton_append (x := '\n'), items]
  simp only [String.toList_append, List.count_append, List.flatMap_append, List.flatMap_map,
    List.count_flatMap, Function.comp_def, hheading, hnodes, hedges]
  ring

end Blanks

end Mermaid

open Mermaid

namespace Flowchart

variable {limit : Int} {root : Ast} {chart : Flowchart}

/-- The labels of a flowchart are those of the nodes that are drawn. -/
theorem map_label_nodes (h : (Flowchart.ofAst limit root).outcome = .ok chart) :
    chart.nodes.map (·.label) = root.drawn.map Ast.label := by
  rw [Ast.map_label_drawn, ← (nodes_listed h).1, List.map_map]
  rfl

theorem forall_label_iff (h : (Flowchart.ofAst limit root).outcome = .ok chart)
    (P : String → Prop) : (∀ node ∈ chart.nodes, P node.label) ↔ ∀ n ∈ root.drawn, P n.label := by
  have hnodes := List.forall_mem_map (f := FlowNode.label) (l := chart.nodes) (P := P)
  rw [map_label_nodes h, List.forall_mem_map] at hnodes
  exact hnodes.symm

/-- A blank other than a space is in no label exactly when it is in no name of a function. -/
theorem notMem_labels_iff (h : (Flowchart.ofAst limit root).outcome = .ok chart) {sep : Char}
    (hblank : isBlank sep = true) (hspace : sep ≠ ' ') :
    (∀ node ∈ chart.nodes, sep ∉ node.label.toList) ↔
      ∀ name ∈ root.drawnNames, sep ∉ name.toList := by
  rw [forall_label_iff h (fun label => sep ∉ label.toList), Ast.forall_drawnNames_iff]
  simp only [Ast.mem_label_iff hblank hspace, not_exists, not_and]

/-- Where no blank but a space is in the direction, none is in the text besides the line feeds
    behind the lines, unless a label brings one in. -/
theorem count_mermaid_eq_iff {sep : Char} (hblank : isBlank sep = true) (hspace : sep ≠ ' ')
    {direction : String} (hdirection : sep ∉ direction.toList) (cut : Int) :
    ((chart.mermaid direction cut).toList.count sep =
        if sep = '\n' then 1 + chart.nodes.length + chart.edges.length else 0) ↔
      ∀ node ∈ chart.nodes, (labelText cut node.label).toList.count sep = 0 := by
  have hsum : (chart.nodes.map (fun n => (labelText cut n.label).toList.count sep)).sum = 0 ↔
      ∀ node ∈ chart.nodes, (labelText cut node.label).toList.count sep = 0 := by
    simp [List.sum_eq_zero_iff]
  rw [count_mermaid hblank hspace, List.count_eq_zero.2 hdirection, ← hsum]
  split_ifs with hfeed
  · rw [hfeed, List.count_singleton_self]
    omega
  · rw [List.count_eq_zero.2 (show sep ∉ ['\n'] by simpa using hfeed)]
    omega

/-- No label of a flowchart is empty. All are of one line exactly when the names of the functions
    are, and then the text of the flowchart has one line for the direction and one for each node and
    each edge. Of all blanks but spaces, the text holds just the line feeds behind these lines,
    however the labels are cut, exactly when that blank is in none of the names. -/
theorem labels_collapsed_iff (h : (Flowchart.ofAst limit root).outcome = .ok chart) :
    (∀ node ∈ chart.nodes, node.label ≠ "") ∧
      ((∀ node ∈ chart.nodes, Text.collapse node.label = node.label) ↔
        ∀ name ∈ root.drawnNames, Text.collapse name = name) ∧
      ((∀ name ∈ root.drawnNames, Text.collapse name = name) → ∀ (direction : String) (cut : Int),
        '\n' ∉ direction.toList → (chart.mermaid direction cut).toList.count '\n' =
          1 + chart.nodes.length + chart.edges.length) ∧
      ∀ (sep : Char) (direction : String), isBlank sep = true → sep ≠ ' ' →
        sep ∉ direction.toList →
          ((∀ cut : Int, (chart.mermaid direction cut).toList.count sep =
              if sep = '\n' then 1 + chart.nodes.length + chart.edges.length else 0) ↔
            ∀ name ∈ root.drawnNames, sep ∉ name.toList) := by
  have hlaw : ∀ (sep : Char) (direction : String), isBlank sep = true → sep ≠ ' ' →
      sep ∉ direction.toList →
        ((∀ cut : Int, (chart.mermaid direction cut).toList.count sep =
            if sep = '\n' then 1 + chart.nodes.length + chart.edges.length else 0) ↔
          ∀ name ∈ root.drawnNames, sep ∉ name.toList) := by
    intro sep direction hblank hspace hdirection
    simp only [count_mermaid_eq_iff hblank hspace hdirection]
    rw [← notMem_labels_iff h hblank hspace]
    constructor
    · intro hcount node hnode
      have hzero := hcount 0 node hnode
      rw [count_labelText_zero hblank] at hzero
      exact List.count_eq_zero.1 hzero
    · exact fun hnames cut node hnode => count_labelText_eq_zero hblank cut (hnames node hnode)
  refine ⟨?_, ?_, ?_, hlaw⟩
  · exact (forall_label_iff h (· ≠ "")).2 fun n _ => n.label_ne_empty
  · rw [forall_label_iff h (fun label => Text.collapse label = label), Ast.forall_drawnNames_iff]
    simp only [Text.collapse_eq_self_iff, Ast.isNormal_label_iff]
  · intro hnames direction cut hdirection
    have hfeeds := (hlaw '\n' direction (by decide) (by decide) hdirection).2 fun name hname hmem =>
      absurd ((Text.collapse_eq_self_iff.1 (hnames name hname)).spaces '\n' hmem (by decide))
        (by decide)
    exact hfeeds cut

end Flowchart

/-- The function `f` around the loops `for (int i = 0; ; ) do x = 1; while (i < 9);`, which is
    written over several lines. -/
def Ast.spreadLoops : Ast where
  kind := .functionDef
  name := some "f"
  slots := { body := some 0 }
  children := [
    { kind := .forLoop
      slots := { init := some 0, body := some 1 }
      children := [{ kind := .declaration, text := "int i\n      = 0;" },
        { kind := .doWhile
          slots := { condition := some 1, body := some 0 }
          children := [{ kind := .binaryOp, text := "x\n= 1;" },
            { kind := .other, text := "i\t<\n9 ;" }] }] }]

/-- The clauses that are not there leave no blank behind. -/
theorem Flowchart.labels_collapsed_spreadLoops : ∃ chart,
    (Flowchart.ofAst 3 Ast.spreadLoops).outcome = .ok chart ∧
      chart.nodes.map (·.label) =
        ["Function: f", "int i = 0; ;", "do ... while (i < 9)", "x = 1;"] ∧
      (∀ node ∈ chart.nodes, Text.collapse node.label = node.label) ∧
      (chart.mermaid "TD" 20).toList.count '\n' = 1 + 4 + 5 := by
  have h : (Flowchart.ofAst 3 Ast.spreadLoops).outcome = .ok _ := rfl
  obtain ⟨-, hlabels, hlines, -⟩ := Flowchart.labels_collapsed_iff h
  have hdrawn : Ast.spreadLoops.drawnNames = ["f"] := by cbv
  have hnames : ∀ name ∈ Ast.spreadLoops.drawnNames, Text.collapse name = name := by
    rw [hdrawn]
    decide
  exact ⟨_, h, rfl, hlabels.2 hnames, hlines hnames "TD" 20 (by decide)⟩

/-- The function `A::f` as it is defined with a line break inside its name. -/
def Ast.spreadName : Ast where
  kind := .functionDef
  text := "void A::\n  f() \x7b\x7d"
  name := some "A::\n  f"
  line := 1

/-- The line break in the name is in the label, and the text of one node has three lines. -/
theorem Flowchart.labels_spreadName : ∃ chart,
    (Flowchart.ofAst 10 Ast.spreadName).outcome = .ok chart ∧
      (∃ node ∈ chart.nodes, Text.collapse node.label ≠ node.label) ∧
      (chart.mermaid "TD" 60).toList.count '\n' ≠ 1 + chart.nodes.length + chart.edges.length := by
  refine ⟨_, rfl, ⟨_, List.mem_singleton_self _, ?_⟩, ?_⟩
  · decide
  · decide

end FlowSketch
