import FlowSketch.Proofs.Chart.Border
import FlowSketch.Proofs.Chart.Walk

/-!
# The order of a flowchart

Nodes are numbered in the order of the program text, and control goes down the text except where a
loop begins anew: an edge leads to a node with a greater id, or back to the header of a loop that
its source lies in. So there is no way round in a flowchart but through the header of a loop.

* `Stmt.Ordered` — an edge leads onward, or back to the header of a visited loop.
* `Ast.ClosesLoop` — an edge leads back to the header of a loop of the tree.

Results:

* `Walk.ascends`, `Walk.round`: a walk that comes by no header goes down the text, and never round.
* `Stmt.Visit.ordered`: the edges that leave the node of a visited statement are ordered.
* `Stmt.ordered`: so is every edge of a region.
* `Flowchart.edges_ordered`: so is every edge of a flowchart, and every cycle has a loop header.
-/

namespace FlowSketch

/-! ## Walks that ascend -/

namespace Walk

variable {edges : List FlowEdge} {u v : Int} {w : List Int}

theorem start_mem (hw : Walk edges u w v) : u ∈ w := by
  cases hw with
  | single => exact List.mem_singleton_self _
  | cons => exact List.mem_cons_self ..

section

variable {P : Int → Prop} (h : ∀ e ∈ edges, e.source < e.target ∨ P e.target)

include h

/-- Where every edge leads to a greater id or to an exception, a walk that comes by no exception is
    over at once or ends at a greater id. -/
theorem ascends (hw : Walk edges u w v) : (∃ id ∈ w, P id) ∨ (w = [u] ∧ u = v) ∨ u < v := by
  induction hw with
  | single u => exact .inr (.inl ⟨rfl, rfl⟩)
  | @cons u a v w hstep hw ih =>
    obtain ⟨e, he, rfl, rfl⟩ := hstep
    rcases h e he with hlt | hp
    · rcases ih with ⟨id, hid, hp⟩ | ⟨-, rfl⟩ | hav
      · exact .inl ⟨id, List.mem_cons_of_mem _ hid, hp⟩
      · exact .inr (.inr hlt)
      · exact .inr (.inr (Int.lt_trans hlt hav))
    · exact .inl ⟨e.target, List.mem_cons_of_mem _ hw.start_mem, hp⟩

/-- So a walk that comes back to where it starts comes by an exception or is over at once. -/
theorem round (hw : Walk edges u w u) : (∃ id ∈ w, P id) ∨ w = [u] := by
  rcases ascends h hw with hp | ⟨hw, -⟩ | hlt
  · exact .inl hp
  · exact .inr hw
  · exact absurd hlt (Int.lt_irrefl u)

end

end Walk

/-! ## Edges of regions -/

namespace Stmt

variable {s t : Stmt} {start i : Int} {node : FlowNode} {e : FlowEdge}

/-- How an edge stands to the order of the program text. -/
inductive Ordered (s : Stmt) (start : Int) (e : FlowEdge) : Prop
  /-- It leads to what stands further down. -/
  | onward (lt : e.source < e.target) (label : e.label ≠ .loop)
  /-- It leads back to the header of a visited loop that its source lies in. A side of a branch
      keeps its label on the way. -/
  | back (stop : Int) (isLoop : s.Loops start e.target stop) (le : e.target ≤ e.source)
    (lt : e.source < stop) (label : e.label = .loop ∨
      ((e.label = .yes ∨ e.label = .no) ∧ (s.region start).isBranch e.source = true))

/-- The node that a statement draws for itself is the first of its region. -/
theorem node?_mem (h : t.node? i = some node) : node.id = i ∧ node ∈ (t.region i).nodes := by
  cases t with
  | block stmts => simp [node?] at h
  | _ =>
    obtain rfl := Option.some.inj h
    exact ⟨rfl, List.mem_cons_self ..⟩

theorem Visit.node_mem (h : s.Visit start t i) (ht : t.node? i = some node) :
    node ∈ (s.region start).nodes :=
  h.nodes_infix.subset (node?_mem ht).2

theorem mem_outEdges {r : Region} (he : e ∈ r.edges) : e ∈ r.outEdges e.source :=
  List.mem_filter.2 ⟨he, beq_self_eq_true _⟩

theorem into_onward {r : Region} {label : EdgeLabel} (hr : r.WellFormed) (h : i < r.start)
    (he : e ∈ r.into i label) : i < e.target ∧ e.label = label := by
  obtain ⟨id, hid, rfl⟩ := Region.mem_into.1 he
  have := (hr.entry_owned id hid).start_le
  exact ⟨by show i < id; omega, rfl⟩

/-- Of the edges that a statement has at its own node, only that of a loop with nothing to enter
    does not lead onward. -/
theorem ownEdge_cases (ht : t.node? e.source = some node)
    (he : e ∈ (t.region e.source).edges) : (e.source < e.target ∧ e.label ≠ .loop) ∨
      (e.target = e.source ∧ e.label = .loop ∧ ∃ form label body, t = .loop form label body) := by
  have hout := mem_outEdges he
  cases t with
  | step action label => simp [region, Region.step] at he
  | block stmts => simp [node?] at ht
  | branch label yes no =>
    rw [outEdges_branch, List.mem_append] at hout
    rcases hout with hout | hout
    · obtain ⟨hlt, hl⟩ := into_onward (yes.region_wellFormed _) (by rw [region_start]; omega) hout
      exact .inl ⟨hlt, by simp [hl]⟩
    · obtain ⟨hlt, hl⟩ := into_onward (no.region_wellFormed _) (by rw [region_start]; omega) hout
      exact .inl ⟨hlt, by simp [hl]⟩
  | loop form label body =>
    rw [outEdges_loop, List.mem_singleton] at hout
    cases hb : (body.region (e.source + 1)).entry with
    | none =>
      rw [hb] at hout
      exact .inr ⟨by rw [hout]; rfl, by rw [hout]; rfl, form, label, body, rfl⟩
    | some entry =>
      have := ((body.region_wellFormed (e.source + 1)).entry_owned entry hb).start_le
      rw [region_start] at this
      rw [hb] at hout
      refine .inl ⟨?_, by rw [hout]; simp [loopEdge]⟩
      rw [hout]
      show e.source < entry
      omega
  | function label body =>
    rw [region] at he
    rcases List.mem_append.1 he with he | he
    · have := ((body.region_wellFormed (e.source + 1)).edge_owned e he).1.start_le
      rw [region_start] at this
      omega
    · obtain ⟨hlt, hl⟩ := into_onward (body.region_wellFormed _) (by rw [region_start]; omega) he
      exact .inl ⟨hlt, by simp [hl]⟩

/-- The edges that leave the node of a visited statement are its own, or its exits have become them:
    they lead on to what comes next, or back to a header around it. -/
theorem Visit.ordered (h : s.Visit start t e.source) (ht : t.node? e.source = some node)
    (he : e ∈ (s.region start).edges) : s.Ordered start e := by
  have hr := t.region_wellFormed e.source
  have howns : (t.region e.source).Owns e.source := by
    obtain ⟨hid, hmem⟩ := node?_mem ht
    rw [← hid]
    exact hid ▸ hr.node_owned node hmem
  have hlt := howns.lt_stop
  have hle := howns.start_le
  rcases h.fate.edge_cases he howns with hown | ⟨x, hx, hxs, ⟨hl, hstop⟩ |
    ⟨hl, hstart, stop, hloop, hstop⟩⟩
  · rcases ownEdge_cases ht hown with ⟨hlt', hl⟩ | ⟨htarget, hl, form, label, body, rfl⟩
    · exact .onward hlt' hl
    · refine .back (e.source + (Stmt.loop form label body).size) ⟨form, label, body, ?_, ?_⟩ ?_ ?_
        (.inl hl)
      · rwa [htarget]
      · rw [htarget]
      · rw [htarget]
      · rwa [region_stop] at hlt
  · refine .onward (by omega) ?_
    rw [hl]
    rcases hr.exit_label x hx with hx | hx | hx <;> simp [hx]
  · refine .back stop hloop (by omega) (by omega) ?_
    rcases hl with hl | hl
    · exact .inl hl
    · rcases Region.backLabel_eq (t.region e.source).toDraft x with hb | ⟨hb, hside, hbranch⟩
      · exact .inl (hl.trans hb)
      · refine .inr ⟨?_, ?_⟩
        · rwa [hl, hb]
        · rw [hxs] at hbranch
          rw [h.inside.isBranch_eq _ howns]
          exact hbranch

/-- Every edge of a region is ordered, for it leaves the node of a visited statement. -/
theorem ordered (he : e ∈ (s.region start).edges) : s.Ordered start e := by
  obtain ⟨node, hmem, hid⟩ :=
    exists_node_of_owns ((s.region_wellFormed start).edge_owned e he).1
  obtain ⟨t, j, hv, ht⟩ := exists_visit_of_mem_nodes hmem
  obtain rfl : j = e.source := (node?_mem ht).1.symm.trans hid
  exact hv.ordered ht he

end Stmt

/-! ## Edges of flowcharts -/

namespace Ast

variable {root : Ast} {e : FlowEdge}

/-- The edge leads back to the header of a visited loop, from a node that is made while the loop is
    visited. It is marked as going back, or it is a side of a branch. -/
structure ClosesLoop (root : Ast) (chart : Flowchart) (e : FlowEdge) : Prop where
  loop : ∃ n d, root.Visit n d ∧ n.kind.isLoop = true ∧ e.target = d.nextId ∧ n.Makes d e.source
  header : ∃ node ∈ chart.nodes, node.id = e.target ∧ node.kind.isLoop = true
  label : e.label = .loop ∨ ((e.label = .yes ∨ e.label = .no) ∧
    ∃ node ∈ chart.nodes, node.id = e.source ∧ node.kind = .branch)

theorem exists_branch_of_isBranch {d : Draft} {id : Int} (h : d.isBranch id = true) :
    ∃ node ∈ d.nodes, node.id = id ∧ node.kind = .branch := by
  unfold Draft.isBranch at h
  obtain ⟨node, hmem, hnode⟩ := List.any_eq_true.1 h
  rw [Bool.and_eq_true, beq_iff_eq, beq_iff_eq] at hnode
  exact ⟨node, hmem, hnode⟩

/-- An edge of the flowchart of a tree leads onward or closes a loop of the tree. -/
theorem ordered_cases {chart : Flowchart} (hnodes : chart.nodes = (root.program.region 0).nodes)
    (h : root.program.Ordered 0 e) : (e.source < e.target ∧ e.label ≠ .loop) ∨
      (e.target ≤ e.source ∧ root.ClosesLoop chart e) := by
  rcases h with ⟨hlt, hl⟩ | ⟨stop, ⟨form, label, body, hv, rfl⟩, hle, hlt, hl⟩
  · exact .inl ⟨hlt, hl⟩
  · obtain ⟨n, d, hn, hid, hp⟩ := hv.exists_ast rfl
    obtain ⟨hk, -, -⟩ := reads_of_program hp
    refine .inr ⟨hle, ⟨n, d, hn, isLoop_of_loopForm? hk, hid.symm, ?_⟩, ?_, ?_⟩
    · rw [makes_iff hn.toStmt.1, Region.Owns, Stmt.region_start, Stmt.region_stop, hid, hp]
      exact ⟨hle, hlt⟩
    · refine ⟨⟨e.target, form.flowKind, label⟩, ?_, rfl, by cases form <;> rfl⟩
      rw [hnodes]
      exact hv.node_mem rfl
    · rcases hl with hl | ⟨hl, hbranch⟩
      · exact .inl hl
      · refine .inr ⟨hl, ?_⟩
        rw [hnodes]
        exact exists_branch_of_isBranch hbranch

end Ast

namespace Flowchart

variable {limit : Int} {root : Ast} {chart : Flowchart}

theorem edge_cases (h : (Flowchart.ofAst limit root).outcome = .ok chart) {e : FlowEdge}
    (he : e ∈ chart.edges) : (e.source < e.target ∧ e.label ≠ .loop) ∨
      (e.target ≤ e.source ∧ root.ClosesLoop chart e) := by
  obtain ⟨malformed, rfl⟩ := Flowchart.eq_ofProgram_of_ofAst h
  obtain ⟨hnodes, hedges⟩ := Flowchart.ofProgram_eq root.program malformed
  rw [hedges] at he
  exact Ast.ordered_cases hnodes (Stmt.ordered he)

/-- Every edge of a flowchart leads to a greater id, or back to the header of a loop that its source
    is made in. Those labelled `next` and `body` lead onward and those labelled `loop` do not. Every
    cycle comes by the header of a loop, and where no loop is visited there is none. -/
theorem edges_ordered (h : (Flowchart.ofAst limit root).outcome = .ok chart) :
    (∀ e ∈ chart.edges, e.source < e.target ∨ root.ClosesLoop chart e) ∧
      (∀ e ∈ chart.edges, e.label = .next ∨ e.label = .body → e.source < e.target) ∧
      (∀ e ∈ chart.edges, e.label = .loop → e.target ≤ e.source) ∧
      (∀ u w, Walk chart.edges u w u → 2 ≤ w.length →
        ∃ node ∈ chart.nodes, node.id ∈ w ∧ node.kind.isLoop = true) ∧
      ((∀ n d, root.Visit n d → n.kind.isLoop = false) →
        ∀ u w, Walk chart.edges u w u → w = [u]) := by
  have hforward : ∀ e ∈ chart.edges, e.source < e.target ∨ root.ClosesLoop chart e := by
    intro e he
    exact (edge_cases h he).imp And.left And.right
  refine ⟨hforward, ?_, ?_, ?_, ?_⟩
  · intro e he hl
    rcases edge_cases h he with ⟨hlt, -⟩ | ⟨-, hclose⟩
    · exact hlt
    · rcases hclose.label with hl' | ⟨hl' | hl', -⟩ <;> simp [hl'] at hl
  · intro e he hl
    rcases edge_cases h he with ⟨-, hne⟩ | ⟨hle, -⟩
    · exact absurd hl hne
    · exact hle
  · intro u w hw hlen
    have hround := hw.round
      (P := fun id => ∃ node ∈ chart.nodes, node.id = id ∧ node.kind.isLoop = true)
      (fun e he => (hforward e he).imp_right Ast.ClosesLoop.header)
    rcases hround with ⟨id, hid, node, hmem, rfl, hk⟩ | rfl
    · exact ⟨node, hmem, hid, hk⟩
    · simp at hlen
  · intro hnone u w hw
    have hlt : ∀ e ∈ chart.edges, e.source < e.target ∨ False := by
      intro e he
      rcases hforward e he with hlt | hclose
      · exact .inl hlt
      · obtain ⟨n, d, hv, hk, -⟩ := hclose.loop
        simp [hnone n d hv] at hk
    rcases hw.round (P := fun _ => False) hlt with ⟨-, -, hfalse⟩ | hw
    · exact hfalse.elim
    · exact hw

end Flowchart

/-- The body of the loop goes round by its header. -/
theorem Flowchart.edges_ordered_idleLoop : ∃ chart,
    (Flowchart.ofAst 1 Ast.idleLoop).outcome = .ok chart ∧ Walk chart.edges 0 [0, 1, 0] 0 ∧
      ∃ node ∈ chart.nodes, node.id ∈ [0, 1, 0] ∧ node.kind.isLoop = true := by
  have h : (Flowchart.ofAst 1 Ast.idleLoop).outcome =
      .ok ⟨[⟨0, .whileLoop, "do ... while (c)"⟩, ⟨1, .branch, "c"⟩],
        [⟨0, 1, .body⟩, ⟨1, 0, .yes⟩, ⟨1, 0, .no⟩, ⟨1, 0, .loop⟩], some 0, []⟩ := rfl
  have hw : Walk [⟨0, 1, .body⟩, ⟨1, 0, .yes⟩, ⟨1, 0, .no⟩, ⟨1, 0, .loop⟩] 0 [0, 1, 0] 0 :=
    .cons ⟨⟨0, 1, .body⟩, by simp, rfl, rfl⟩ (.cons ⟨⟨1, 0, .yes⟩, by simp, rfl, rfl⟩ (.single 0))
  exact ⟨_, h, hw, (Flowchart.edges_ordered h).2.2.2.1 0 [0, 1, 0] hw (by decide)⟩

end FlowSketch
