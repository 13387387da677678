import FlowSketch.Proofs.Chart.Exits
import FlowSketch.Proofs.Chart.Numbering

/-!
# The border of a statement

The nodes that are made while a statement is visited follow one another in the flowchart. Control
enters them from outside at the entry of the statement's fragment, and leaves them where one of its
exits does; so whatever control passes over, and every function, is closed in.

* `Region.EnteredAt` — edges from outside lead to the entry of a part.
* `Ast.made`, `Ast.Makes` — the nodes that are made during a visit, and their ids.
* `Ast.BorderLaw` — the nodes of a visit, and the edges between them and the rest of the chart.

Results:

* `Region.EnteredAt.trans`: what holds of a part of a part holds of the whole.
* `Stmt.Visit.enteredAt`: every visited statement is entered at its entry.
* `Stmt.Visit.nodes_infix`: the nodes of a visited statement follow one another.
* `Flowchart.borders`: the law holds of every visit.
-/

namespace FlowSketch

namespace Region

variable {r s whole mid part : Region} {start : Int}

/-- Control that comes from outside enters a part at its entry: so does every edge, and so does
    control that enters the whole there. -/
structure EnteredAt (whole part : Region) : Prop where
  entry : ∀ id, whole.entry = some id → part.Owns id → part.entry = some id
  edges : ∀ e ∈ whole.edges, ¬part.Owns e.source → part.Owns e.target →
    part.entry = some e.target

theorem EnteredAt.refl (hr : r.WellFormed) : r.EnteredAt r where
  entry _ hid _ := hid
  edges e he hs _ := absurd (hr.edge_owned e he).1 hs

/-- What is entered at its entry in a part of the whole is so in the whole, if the edges within that
    part are its own. -/
theorem EnteredAt.trans (h₁ : whole.EnteredAt mid)
    (hinner : ∀ e ∈ whole.edges, mid.Owns e.source → mid.Owns e.target → e ∈ mid.edges)
    (h₂ : mid.EnteredAt part) (hin : mid.Inside part) : whole.EnteredAt part where
  entry id hid ho := h₂.entry id (h₁.entry id hid (hin.owns ho)) ho
  edges e he hs ht := by
    by_cases hmid : mid.Owns e.source
    · exact h₂.edges e (hinner e he hmid (hin.owns ht)) hs ht
    · exact h₂.entry _ (h₁.edges e he hmid (hin.owns ht)) ht

/-! ## Direct parts -/

theorem entry_seq {id : Int} (h : (r.seq s).entry = some id) :
    r.entry = some id ∨ s.entry = some id := by
  cases hr : r.entry with
  | none => exact .inr (by simpa [seq, hr] using h)
  | some entry => exact .inl (by simpa [seq, hr] using h)

theorem inner_seq_left (hs : s.WellFormed) (h : s.start = r.stop) :
    ∀ e ∈ (r.seq s).edges, r.Owns e.source → r.Owns e.target → e ∈ r.edges := by
  intro e he hsource htarget
  rcases mem_edges_seq.1 he with he | he | ⟨id, hid, x, -, rfl⟩
  · exact he
  · exact absurd hsource ((hs.edge_owned e he).1.not_before h)
  · exact absurd htarget ((hs.entry_owned id hid).not_before h)

section Seq

variable (hr : r.WellFormed) (hs : s.WellFormed) (h : s.start = r.stop)
include hr hs h

theorem enteredAt_seq_left : (r.seq s).EnteredAt r where
  entry id hid ho := by
    rcases entry_seq hid with hid | hid
    · exact hid
    · exact absurd ho ((hs.entry_owned id hid).not_before h)
  edges e he hsource htarget := by
    rcases mem_edges_seq.1 he with he | he | ⟨id, -, x, hx, rfl⟩
    · exact absurd (hr.edge_owned e he).1 hsource
    · exact absurd htarget ((hs.edge_owned e he).2.not_before h)
    · exact absurd (hr.exit_owned x hx) hsource

theorem enteredAt_seq_right : (r.seq s).EnteredAt s where
  entry id hid ho := by
    rcases entry_seq hid with hid | hid
    · exact absurd ho ((hr.entry_owned id hid).not_behind h)
    · exact hid
  edges e he hsource htarget := by
    rcases mem_edges_seq.1 he with he | he | ⟨id, hid, x, hx, rfl⟩
    · exact absurd htarget ((hr.edge_owned e he).2.not_behind h)
    · exact absurd (hs.edge_owned e he).1 hsource
    · exact hid

end Seq

theorem enteredAt_detached (hr : r.WellFormed) : r.detached.EnteredAt r where
  entry _ hid _ := absurd hid (by simp [detached])
  edges e he hs _ := absurd (hr.edge_owned e he).1 hs

section Branch

variable {label : String} {yes no : Region} (hy : yes.WellFormed) (hn : no.WellFormed)
  (hys : yes.start = start + 1) (hns : no.start = yes.stop)
include hy hn hys hns

theorem enteredAt_branch_yes : (branch start label yes no).EnteredAt yes where
  entry id hid ho := absurd (Option.some.inj hid ▸ ho) (not_owns_header hys)
  edges e he hsource htarget := by
    rcases mem_edges_branch.1 he with he | he | he | he
    · exact absurd (hy.edge_owned e he).1 hsource
    · exact absurd htarget ((hn.edge_owned e he).2.not_before hns)
    · obtain ⟨id, hid, rfl⟩ := mem_into.1 he
      exact hid
    · obtain ⟨id, hid, rfl⟩ := mem_into.1 he
      exact absurd htarget ((hn.entry_owned id hid).not_before hns)

theorem enteredAt_branch_no : (branch start label yes no).EnteredAt no where
  entry id hid ho := absurd (Option.some.inj hid ▸ ho) (not_owns_header_second hys hns)
  edges e he hsource htarget := by
    rcases mem_edges_branch.1 he with he | he | he | he
    · exact absurd htarget ((hy.edge_owned e he).2.not_behind hns)
    · exact absurd (hn.edge_owned e he).1 hsource
    · obtain ⟨id, hid, rfl⟩ := mem_into.1 he
      exact absurd htarget ((hy.entry_owned id hid).not_behind hns)
    · obtain ⟨id, hid, rfl⟩ := mem_into.1 he
      exact hid

end Branch

/-- A do-while loop is itself entered where its body is. -/
theorem enteredAt_loop {form : LoopForm} {label : String} (hr : r.WellFormed)
    (h : r.start = start + 1) : (loop start form label r).EnteredAt r where
  entry id hid ho := by
    have h0 : ¬r.Owns start := not_owns_header h
    simp only [loop, Option.some.injEq] at hid
    cases hre : r.entry with
    | none =>
      simp only [hre, Option.getD_none, ite_self] at hid
      exact absurd (hid ▸ ho) h0
    | some entry =>
      by_cases hform : form = .doWhile
      · simp only [hre, Option.getD_some, if_pos hform] at hid
        rw [hid]
      · rw [if_neg hform] at hid
        exact absurd (hid ▸ ho) h0
  edges e he hsource htarget := by
    have h0 : ¬r.Owns start := not_owns_header h
    rcases List.mem_append.1 he with he | he
    · exact absurd (hr.edge_owned e he).1 hsource
    · rcases mem_loopEdges he with ⟨-, rfl⟩ | ⟨id, hid, rfl⟩ | ⟨x, -, -, ht⟩
      · exact absurd htarget h0
      · exact hid
      · exact absurd (ht ▸ htarget) h0

theorem enteredAt_function {label : String} (hr : r.WellFormed) (h : r.start = start + 1) :
    (function start label r).EnteredAt r where
  entry id hid ho := absurd (Option.some.inj hid ▸ ho) (not_owns_header h)
  edges e he hsource _ := by
    rcases List.mem_append.1 he with he | he
    · exact absurd (hr.edge_owned e he).1 hsource
    · obtain ⟨id, hid, rfl⟩ := mem_into.1 he
      exact hid

end Region

/-! ## Visited statements -/

namespace Stmt

variable {s t : Stmt} {start i : Int}

theorem enteredAt_member (t : Stmt) (i : Int) : (t.member i).EnteredAt (t.region i) := by
  have hr := t.region_wellFormed i
  unfold member
  by_cases hf : t.isFunction = true
  · rw [if_pos hf]
    exact Region.enteredAt_detached hr
  · rw [if_neg hf]
    exact .refl hr

/-- The edges within a visited statement are its own. -/
theorem Visit.inner (h : s.Visit start t i) : ∀ e ∈ (s.region start).edges,
    (t.region i).Owns e.source → (t.region i).Owns e.target → e ∈ (t.region i).edges := by
  intro e he hsource htarget
  rcases h.fate.mem_or_leaves he hsource with hmem | ⟨hout, -⟩
  · exact hmem
  · exact absurd htarget hout

/-- A member of a block is entered where it is joined to the others. -/
theorem enteredAt_block_member (before after : List Stmt) (t : Stmt) (i : Int) :
    ((Stmt.block (before ++ t :: after)).region i).Inside (t.member (i + sizeAll before)) ∧
      ((Stmt.block (before ++ t :: after)).region i).EnteredAt (t.member (i + sizeAll before)) := by
  refine block_induction (P := fun r => r.Inside (t.member (i + sizeAll before)) ∧
    r.EnteredAt (t.member (i + sizeAll before))) ?_ ?_
  · rintro r m hr hm hms rfl
    exact ⟨Region.inside_seq_right hr hms, Region.enteredAt_seq_right hr hm hms⟩
  · rintro r u hr hu hus ⟨hin, hentered⟩
    exact ⟨(Region.inside_seq_left hu hus).trans hin,
      (Region.enteredAt_seq_left hr hu hus).trans (Region.inner_seq_left hu hus) hentered hin⟩

theorem owns_member_iff {id : Int} : (t.member i).Owns id ↔ (t.region i).Owns id := by
  rw [Region.Owns, Region.Owns, start_member, stop_member]

theorem edges_member (t : Stmt) (i : Int) : (t.member i).edges = (t.region i).edges := by
  unfold member
  split_ifs <;> rfl

/-- Hence it is entered at its entry. -/
theorem enteredAt_block (before after : List Stmt) (t : Stmt) (i : Int) :
    ((Stmt.block (before ++ t :: after)).region i).EnteredAt (t.region (i + sizeAll before)) := by
  refine (enteredAt_block_member before after t i).2.trans ?_ (enteredAt_member ..)
    (inside_member ..)
  intro e he hs ht
  rw [owns_member_iff] at hs ht
  rw [edges_member]
  exact Visit.self.member.inner e he hs ht

/-- What is visited in a visited statement is entered at its entry, if it is so in the statement. -/
theorem Visit.enteredAt_trans {u : Stmt} {j : Int} (hst : s.Visit start t i) (htu : t.Visit i u j)
    (h₁ : (s.region start).EnteredAt (t.region i)) (h₂ : (t.region i).EnteredAt (u.region j)) :
    (s.region start).EnteredAt (u.region j) :=
  h₁.trans hst.inner h₂ htu.inside

/-- Every visited statement is entered at its entry. -/
theorem Visit.enteredAt (h : s.Visit start t i) : (s.region start).EnteredAt (t.region i) := by
  induction h with
  | self => exact .refl (s.region_wellFormed start)
  | @member before after t i hv ih =>
    exact hv.enteredAt_trans Visit.self.member ih (enteredAt_block before after t i)
  | @yes label yes no i hv ih =>
    refine hv.enteredAt_trans Visit.self.yes ih ?_
    rw [region]
    exact Region.enteredAt_branch_yes (yes.region_wellFormed _) (no.region_wellFormed _) (by simp)
      (by simp)
  | @no label yes no i hv ih =>
    refine hv.enteredAt_trans Visit.self.no ih ?_
    rw [region]
    exact Region.enteredAt_branch_no (yes.region_wellFormed _) (no.region_wellFormed _) (by simp)
      (by simp)
  | @loopBody form label body i hv ih =>
    refine hv.enteredAt_trans Visit.self.loopBody ih ?_
    rw [region]
    exact Region.enteredAt_loop (body.region_wellFormed _) (by simp)
  | @functionBody label body i hv ih =>
    refine hv.enteredAt_trans Visit.self.functionBody ih ?_
    rw [region]
    exact Region.enteredAt_function (body.region_wellFormed _) (by simp)

/-- No edge leads from outside into a function that is a member of a block. -/
theorem Visit.owns_source_of_function {before after : List Stmt} (hf : t.isFunction = true)
    (h : s.Visit start (.block (before ++ t :: after)) i) {e : FlowEdge}
    (he : e ∈ (s.region start).edges) (ht : (t.region (i + sizeAll before)).Owns e.target) :
    (t.region (i + sizeAll before)).Owns e.source := by
  obtain ⟨hin, hentered⟩ := enteredAt_block_member before after t i
  have hmember := h.enteredAt.trans h.inner hentered hin
  by_contra hs
  have hentry := hmember.edges e he (mt owns_member_iff.1 hs) (owns_member_iff.2 ht)
  rw [Stmt.member, if_pos hf] at hentry
  exact absurd hentry (by simp [Region.detached])

/-- The nodes of a visited statement follow one another. -/
theorem Visit.nodes_infix (h : s.Visit start t i) :
    (t.region i).nodes <:+: (s.region start).nodes := by
  induction h with
  | self => exact List.infix_rfl
  | @member before after t i _ ih =>
    refine List.IsInfix.trans ?_ ih
    rw [nodes_region, nodes_region, listing, listingAll_append, numberFrom_append,
      length_listingAll, listingAll, numberFrom_append]
    exact List.infix_append' ..
  | @yes label yes no i _ ih =>
    rw [region] at ih
    exact ((List.prefix_append ..).isInfix.trans (List.suffix_cons ..).isInfix).trans ih
  | @no label yes no i _ ih =>
    rw [region] at ih
    exact ((List.suffix_append ..).isInfix.trans (List.suffix_cons ..).isInfix).trans ih
  | @loopBody form label body i _ ih =>
    rw [region] at ih
    exact (List.suffix_cons ..).isInfix.trans ih
  | @functionBody label body i _ ih =>
    rw [region] at ih
    exact (List.suffix_cons ..).isInfix.trans ih

end Stmt

/-! ## Flowcharts of trees -/

namespace Ast

/-- The nodes that are made while `n` is visited at `d`: those that the draft has more
    afterwards. -/
def made (n : Ast) (d : Draft) : List FlowNode :=
  (n.program.lay d).1.nodes.drop d.nodes.length

/-- The id is that of a node that is made while `n` is visited at `d`. -/
def Makes (n : Ast) (d : Draft) (id : Int) : Prop := ∃ node ∈ n.made d, node.id = id

/-- The law of the nodes that are made during a visit, and of the edges that cross their border. The
    fragment of the visit is what laying out `n` at `d` returns. -/
structure BorderLaw (chart : Flowchart) (n : Ast) (d : Draft) : Prop where
  /-- The nodes follow one another in the chart. -/
  contiguous : n.made d <:+: chart.nodes
  /-- Their ids count up from the first that was free. -/
  ids : (n.made d).map (·.id) =
    (List.range (n.made d).length).map (fun k : Nat => d.nextId + (k : Int))
  /-- An edge from outside leads to the entry of the fragment. -/
  enters : ∀ e ∈ chart.edges, ¬n.Makes d e.source → n.Makes d e.target →
    (n.program.lay d).2.entry = some e.target
  /-- An edge to the outside starts where an exit of the fragment does. -/
  leaves : ∀ e ∈ chart.edges, n.Makes d e.source → ¬n.Makes d e.target →
    ∃ x ∈ (n.program.lay d).2.exits, x.source = e.source
  /-- No edge crosses the border when the fragment has no entry. -/
  closed : (n.program.lay d).2.entry = none →
    ∀ e ∈ chart.edges, n.Makes d e.source ↔ n.Makes d e.target
  /-- No edge leaves a function. -/
  function : n.kind = .functionDef → ∀ e ∈ chart.edges, n.Makes d e.source → n.Makes d e.target

variable {root n : Ast} {d : Draft}

theorem made_eq (hd : d.WellFormed) (n : Ast) :
    n.made d = (n.program.region d.nextId).nodes := by
  rw [made, n.program.laysRegion d hd]
  exact List.drop_left

theorem makes_iff (hd : d.WellFormed) (n : Ast) {id : Int} :
    n.Makes d id ↔ (n.program.region d.nextId).Owns id := by
  rw [Makes, made_eq hd]
  constructor
  · rintro ⟨node, hnode, rfl⟩
    exact (n.program.region_wellFormed d.nextId).node_owned node hnode
  · exact Stmt.exists_node_of_owns

/-- The law holds of every visited node. -/
theorem Visit.borderLaw (h : root.Visit n d) {chart : Flowchart}
    (hnodes : chart.nodes = (root.program.region 0).nodes)
    (hedges : chart.edges = (root.program.region 0).edges) : BorderLaw chart n d := by
  obtain ⟨hd, hv⟩ := h.toStmt
  have hr := n.program.region_wellFormed d.nextId
  have hpart : (n.program.lay d).2 = (n.program.region d.nextId).toFragment := by
    rw [n.program.laysRegion d hd]
  have hleaves : ∀ e ∈ chart.edges, n.Makes d e.source → ¬n.Makes d e.target →
      ∃ x ∈ (n.program.lay d).2.exits, x.source = e.source := by
    intro e he hs ht
    rw [hedges] at he
    rw [makes_iff hd] at hs ht
    rw [hpart]
    rcases hv.fate.mem_or_leaves he hs with hmem | ⟨-, hx⟩
    · exact absurd (hr.edge_owned e hmem).2 ht
    · exact hx
  have henters : ∀ e ∈ chart.edges, ¬n.Makes d e.source → n.Makes d e.target →
      (n.program.lay d).2.entry = some e.target := by
    intro e he hs ht
    rw [hedges] at he
    rw [makes_iff hd] at hs ht
    rw [hpart]
    exact hv.enteredAt.edges e he hs ht
  refine ⟨?_, ?_, henters, hleaves, ?_, ?_⟩
  · rw [made_eq hd, hnodes]
    exact hv.nodes_infix
  · rw [made_eq hd, Stmt.nodes_region, map_id_numberFrom, length_numberFrom]
  · intro hnone e he
    have hexits : (n.program.lay d).2.exits = [] := by
      rw [hpart] at hnone ⊢
      exact hr.exits_nil hnone
    constructor
    · intro hs
      by_contra ht
      obtain ⟨x, hx, -⟩ := hleaves e he hs ht
      rw [hexits] at hx
      exact List.not_mem_nil hx
    · intro ht
      by_contra hs
      have := henters e he hs ht
      rw [hnone] at this
      exact absurd this (by simp)
  · intro hk e he hs
    by_contra ht
    obtain ⟨x, hx, -⟩ := hleaves e he hs ht
    rw [hpart, program_functionDef hk, Stmt.exits_function] at hx
    exact List.not_mem_nil hx

end Ast

/-- In a flowchart the nodes of every visit follow one another. Edges enter them from outside at the
    entry of the fragment that the visit gives, and leave them where one of its exits does. -/
theorem Flowchart.borders {limit : Int} {root : Ast} {chart : Flowchart}
    (h : (Flowchart.ofAst limit root).outcome = .ok chart) :
    ∀ n d, root.Visit n d → Ast.BorderLaw chart n d := by
  obtain ⟨malformed, rfl⟩ := Flowchart.eq_ofProgram_of_ofAst h
  obtain ⟨hnodes, hedges⟩ := Flowchart.ofProgram_eq root.program malformed
  intro n d hv
  exact hv.borderLaw hnodes hedges

theorem Ast.exists_visit_idleLoop : ∃ d, idleFunction.Visit idleLoop d :=
  ⟨_, .member (.body .root rfl rfl) (rfl : members _ = [] ++ idleLoop :: _)⟩

/-- The do-while loop is entered at the branch that is its body, not at its header. -/
theorem Flowchart.borders_idleLoop : ∃ chart d,
    (Flowchart.ofAst 3 Ast.idleFunction).outcome = .ok chart ∧
      Ast.idleFunction.Visit Ast.idleLoop d ∧ Ast.BorderLaw chart Ast.idleLoop d := by
  obtain ⟨chart, h⟩ : ∃ chart, (Flowchart.ofAst 3 Ast.idleFunction).outcome = .ok chart := ⟨_, rfl⟩
  obtain ⟨d, hv⟩ := Ast.exists_visit_idleLoop
  exact ⟨chart, d, h, hv, Flowchart.borders h _ _ hv⟩

end FlowSketch
