import FlowSketch.Proofs.Chart.Fate

/-!
# Every exit is used once

An exit of a visited statement is either terminal, that is still open in the fragment of the root
or in the body of a function, or exactly one edge of the flowchart leaves by it. What leaves each
node of the chart follows from its kind.

* `Ast.Terminal` — the exits that are left open.
* `Ast.InLoop` — the headers of the loops around a visited node.
* `Ast.OutgoingLaw` — the edges that leave the node of a visited node, by its kind.

Results:

* `Stmt.Visit.settled`: the exits of a visited statement are all terminal, or all lead somewhere.
* `Flowchart.outgoing`: every node of a flowchart is made by a visit, and the law holds of it.
-/

namespace FlowSketch

/-- One edge if the exit is in use, none if it is terminal. -/
def OneUnless (terminal : Prop) (edges : List FlowEdge) : Prop :=
  (terminal ∧ edges = []) ∨ (¬terminal ∧ ∃ e, edges = [e])

/-- The edges of a draft that leave a node. -/
def Draft.outEdges (d : Draft) (id : Int) : List FlowEdge :=
  d.edges.filter (fun e => e.source == id)

namespace Stmt

variable {s t : Stmt} {start i : Int}

/-- The exit is open in the end: of the whole statement, or of the body of a visited function. -/
def Terminal (s : Stmt) (start : Int) (x : Exit) : Prop :=
  x ∈ (s.region start).exits ∨ s.Ends start x

/-- An exit by which an edge leaves is not terminal. -/
theorem not_terminal_of_mem {e : FlowEdge} {x : Exit} (he : e ∈ (s.region start).edges)
    (hs : e.source = x.source) (hl : e.label = x.label ∨ (e.label = .loop ∧ e.target ≠ e.source)) :
    ¬s.Terminal start x := by
  have key : ∀ r : Region, r.WellFormed → x ∈ r.exits → e ∉ r.edges := by
    intro r hr hx hmem
    obtain ⟨hne, hloop⟩ := hr.fresh x hx e hmem hs
    rcases hl with hl | ⟨hl, ht⟩
    · exact hne hl
    · exact ht (hloop hl)
  rintro (hx | ⟨label, body, j, hv, hx⟩)
  · exact key _ (s.region_wellFormed start) hx he
  · have hb := body.region_wellFormed (j + 1)
    apply key _ hb hx
    rw [← hv.edgesFrom_functionBody, Region.mem_edgesFrom]
    refine ⟨he, ?_⟩
    rw [hs]
    exact hb.exit_owned x hx

/-- What has become of the exits of a visited statement in the end. -/
inductive Settled (s : Stmt) (start : Int) (part : Region) : Prop
  | terminal (edges : (s.region start).edgesFrom part = part.edges)
    (isTerminal : ∀ x ∈ part.exits, s.Terminal start x)
  | sequenced (target : Int) (le : part.stop ≤ target)
    (edges : (s.region start).edgesFrom part = part.edges ++ part.exits.map (·.to target))
    (inUse : ∀ x ∈ part.exits, ¬s.Terminal start x)
  | closed (header stop : Int) (isLoop : s.Loops start header stop) (lt : header < part.start)
    (le : part.stop ≤ stop) (last : List FlowEdge) (isLast : part.IsLast header last)
    (edges : (s.region start).edgesFrom part = part.edges ++ (part.backEdges header ++ last))
    (inUse : ∀ x ∈ part.exits, ¬s.Terminal start x)

/-- The exits of a visited statement are all terminal, or all of them lead somewhere. -/
theorem Visit.settled (h : s.Visit start t i) : s.Settled start (t.region i) := by
  have hr := t.region_wellFormed i
  rcases h.fate with ⟨he, hx⟩ | ⟨he, hx, hends⟩ | ⟨target, hle, he, hx⟩ |
    ⟨header, stop, hloop, hlt, hle, last, hlast, he, hx⟩
  · refine .terminal he ?_
    intro x hxm
    exact .inl (Region.mem_exits_of_exitsOf hx hxm).1
  · refine .terminal he ?_
    intro x hxm
    exact .inr (hends x hxm)
  · refine .sequenced target hle he ?_
    intro x hxm
    have hmem : x.to target ∈ (s.region start).edgesFrom (t.region i) := by
      rw [he, List.mem_append]
      exact .inr (List.mem_map_of_mem hxm)
    exact not_terminal_of_mem (Region.mem_edgesFrom.1 hmem).1 rfl (.inl rfl)
  · refine .closed header stop hloop hlt hle last hlast he ?_
    intro x hxm
    have hmem : (⟨x.source, header, (t.region i).backLabel x⟩ : FlowEdge) ∈
        (s.region start).edgesFrom (t.region i) := by
      rw [he, List.mem_append, List.mem_append]
      exact .inr (.inl (List.mem_map.2 ⟨x, hxm, rfl⟩))
    refine not_terminal_of_mem (Region.mem_edgesFrom.1 hmem).1 rfl ?_
    rcases Region.backLabel_eq (t.region i).toDraft x with hl | ⟨hl, -⟩
    · refine .inr ⟨hl, ?_⟩
      have := (hr.exit_owned x hxm).start_le
      show header ≠ x.source
      omega
    · exact .inl hl

end Stmt

/-! ## What leaves a node -/

/-- The exits of a region at a node. -/
def Region.exitsAt (r : Region) (id : Int) : List Exit := r.exits.filter (fun x => x.source == id)

namespace Stmt

variable {s t : Stmt} {start i : Int}

/-- A visited loop with that header lies around a part. -/
def InLoop (s : Stmt) (start : Int) (part : Region) (header : Int) : Prop :=
  ∃ stop, s.Loops start header stop ∧ header < part.start ∧ part.stop ≤ stop

/-- What has become of the exits at one node of a visited statement: `tail` are their edges. -/
inductive SettledAt (s : Stmt) (start : Int) (part : Region) (id : Int) (tail : List FlowEdge) :
    Prop
  | terminal (eq : tail = []) (isTerminal : ∀ x ∈ part.exitsAt id, s.Terminal start x)
  | sequenced (target : Int) (eq : tail = (part.exitsAt id).map (·.to target))
    (inUse : ∀ x ∈ part.exitsAt id, ¬s.Terminal start x)
  | closed (header : Int) (inLoop : s.InLoop start part header) (last : List FlowEdge)
    (isLast : last = [] ∨
      ((∃ x, x ∈ part.exitsAt id) ∧ (∀ x ∈ part.exitsAt id, part.backLabel x ≠ .loop) ∧
        last = [⟨id, header, .loop⟩]))
    (eq : tail = (part.exitsAt id).map (fun x => ⟨x.source, header, part.backLabel x⟩) ++ last)
    (inUse : ∀ x ∈ part.exitsAt id, ¬s.Terminal start x)

/-- The edges that leave a node of a visited statement are those of the statement and those that
    its exits there have become. -/
theorem Visit.outEdges_eq (h : s.Visit start t i) {id : Int} (hid : (t.region i).Owns id) :
    ∃ tail, (s.region start).outEdges id = (t.region i).outEdges id ++ tail ∧
      s.SettledAt start (t.region i) id tail := by
  have hout : (s.region start).outEdges id =
      ((s.region start).edgesFrom (t.region i)).filter (fun e => e.source == id) := by
    unfold Draft.outEdges Region.edgesFrom
    rw [List.filter_filter]
    apply List.filter_congr
    intro e _
    rw [eq_comm, Bool.and_eq_left_iff_imp, beq_iff_eq]
    rintro rfl
    simpa using hid
  have hat : ∀ x ∈ (t.region i).exitsAt id, x ∈ (t.region i).exits := by
    intro x hx
    exact (List.mem_filter.1 hx).1
  rw [hout]
  rcases h.settled with ⟨he, hx⟩ | ⟨target, hle, he, hx⟩ |
    ⟨header, stop, hloop, hlt, hle, last, hlast, he, hx⟩
  · exact ⟨[], by rw [he, List.append_nil]; rfl, .terminal rfl (fun x hxm => hx x (hat x hxm))⟩
  · refine ⟨_, by rw [he, List.filter_append]; rfl, .sequenced target ?_
      (fun x hxm => hx x (hat x hxm))⟩
    rw [List.filter_map]
    rfl
  · refine ⟨_, by rw [he, List.filter_append]; rfl, .closed header ⟨stop, hloop, hlt, hle⟩
      (last.filter (fun e => e.source == id)) ?_ ?_ (fun x hxm => hx x (hat x hxm))⟩
    · rcases hlast with rfl | ⟨x, hxm, hlabel, rfl⟩
      · exact .inl rfl
      · by_cases hs : x.source = id
        · refine .inr ⟨⟨x, ?_⟩, fun y hy => hlabel y (hat y hy), ?_⟩
          · rw [Region.exitsAt, List.mem_filter]
            exact ⟨hxm, by simpa using hs⟩
          · rw [List.filter_cons_of_pos (by simpa using hs), List.filter_nil, hs]
        · refine .inl ?_
          rw [List.filter_cons_of_neg (by simpa using hs), List.filter_nil]
    · rw [List.filter_append, Region.backEdges, List.filter_map]
      rfl

section SettledAt

variable {part : Region} {id : Int} {tail : List FlowEdge} {x : Exit}

/-- Nothing more leaves a node without exits. -/
theorem SettledAt.nil (h : s.SettledAt start part id tail) (hx : part.exitsAt id = []) :
    tail = [] := by
  rcases h with ⟨eq, -⟩ | ⟨target, eq, -⟩ | ⟨header, -, last, hlast, eq, -⟩
  · exact eq
  · rw [eq, hx, List.map_nil]
  · rcases hlast with rfl | ⟨⟨x, hxm⟩, -⟩
    · rw [eq, hx, List.map_nil, List.nil_append]
    · rw [hx] at hxm
      simp at hxm

/-- One edge leaves a node that is no branch and has one exit. It keeps the label of the exit or
    goes back to a header around the node. -/
theorem SettledAt.single (h : s.SettledAt start part id tail) (hx : part.exitsAt id = [x])
    (hb : part.backLabel x = .loop) :
    OneUnless (s.Terminal start x) tail ∧
      ∀ e ∈ tail, e.label = x.label ∨ (e.label = .loop ∧ s.InLoop start part e.target) := by
  rcases h with ⟨eq, ht⟩ | ⟨target, eq, ht⟩ | ⟨header, hin, last, hlast, eq, ht⟩
  all_goals rw [hx] at ht
  · rw [eq]
    exact ⟨.inl ⟨ht x (List.mem_singleton_self x), rfl⟩, by simp⟩
  · rw [eq, hx, List.map_singleton]
    refine ⟨.inr ⟨ht x (List.mem_singleton_self x), _, rfl⟩, ?_⟩
    intro e he
    rw [List.mem_singleton.1 he]
    exact .inl rfl
  · have hl : last = [] := by
      rcases hlast with hl | ⟨-, hlabel, -⟩
      · exact hl
      · exact absurd hb (hlabel x (by rw [hx]; exact List.mem_singleton_self x))
    rw [eq, hx, hl, List.append_nil, List.map_singleton]
    refine ⟨.inr ⟨ht x (List.mem_singleton_self x), _, rfl⟩, ?_⟩
    intro e he
    rw [List.mem_singleton.1 he]
    exact .inr ⟨hb, hin⟩

/-- At a branch every exit keeps its label, and at most one more edge goes back. -/
theorem SettledAt.branch (h : s.SettledAt start part id tail)
    (hb : ∀ x ∈ part.exitsAt id, part.backLabel x = x.label) :
    (tail = [] ∧ ∀ x ∈ part.exitsAt id, s.Terminal start x) ∨
      ∃ target last, tail = (part.exitsAt id).map (·.to target) ++ last ∧
        (last = [] ∨ last = [⟨id, target, .loop⟩]) ∧
        ∀ x ∈ part.exitsAt id, ¬s.Terminal start x := by
  rcases h with ⟨eq, ht⟩ | ⟨target, eq, ht⟩ | ⟨header, hin, last, hlast, eq, ht⟩
  · exact .inl ⟨eq, ht⟩
  · exact .inr ⟨target, [], by rw [eq, List.append_nil], .inl rfl, ht⟩
  · refine .inr ⟨header, last, ?_, ?_, ht⟩
    · rw [eq]
      congr 1
      apply List.map_congr_left
      intro x hx
      rw [hb x hx]
      rfl
    · rcases hlast with hl | ⟨-, -, hl⟩
      · exact .inl hl
      · exact .inr hl

end SettledAt

/-! ## The law for each form of statement -/

theorem outEdges_eq_nil {r : Region} (hr : r.WellFormed) {id : Int} (h : ¬r.Owns id) :
    r.edges.filter (fun e => e.source == id) = [] := by
  rw [List.filter_eq_nil_iff]
  intro e he hs
  rw [beq_iff_eq] at hs
  exact h (hs ▸ (hr.edge_owned e he).1)

theorem exitsAt_eq_nil {r : Region} (hr : r.WellFormed) {id : Int} (h : ¬r.Owns id) :
    r.exits.filter (fun x => x.source == id) = [] := by
  rw [List.filter_eq_nil_iff]
  intro x hx hs
  rw [beq_iff_eq] at hs
  exact h (hs ▸ hr.exit_owned x hx)

theorem not_owns_of_lt (t : Stmt) {i j : Int} (h : i < j) : ¬(t.region j).Owns i := by
  intro ho
  have := ho.start_le
  rw [region_start] at this
  omega

/-- One edge leaves a step, unless its exit is terminal. -/
theorem Visit.out_step {action : Action} {label : String}
    (h : s.Visit start (.step action label) i) :
    OneUnless (s.Terminal start ⟨i, .next⟩) ((s.region start).outEdges i) ∧
      ∀ e ∈ (s.region start).outEdges i, e.label = .next ∨
        (e.label = .loop ∧ s.InLoop start (Region.step i action label) e.target) := by
  have ho : ((Stmt.step action label).region i).Owns i := (Region.owns_step ..).2 rfl
  obtain ⟨tail, he, htail⟩ := h.outEdges_eq ho
  have hnil : ((Stmt.step action label).region i).outEdges i = [] := rfl
  rw [he, hnil, List.nil_append]
  refine htail.single ?_ ?_
  · simp [region, Region.exitsAt, Region.step]
  · simp [Draft.backLabel]

/-- The edge between the header of a loop and its body, or the header and itself. -/
def loopEdge (header : Int) (entry : Option Int) : FlowEdge :=
  match entry with
  | some entry => ⟨header, entry, .body⟩
  | none => ⟨header, header, .loop⟩

theorem outEdges_loop (form : LoopForm) (label : String) (body : Stmt) (i : Int) :
    ((Stmt.loop form label body).region i).outEdges i =
      [loopEdge i (body.region (i + 1)).entry] := by
  have hb := body.region_wellFormed (i + 1)
  have hi : ¬(body.region (i + 1)).Owns i := body.not_owns_of_lt (by omega)
  rw [region, Region.loop, Draft.outEdges, List.filter_append, outEdges_eq_nil hb hi]
  unfold Region.loopEdges loopEdge
  cases hbe : (body.region (i + 1)).entry with
  | none => simp
  | some entry =>
    -- what goes back starts in the body
    simp only []
    rw [List.filter_cons_of_pos (by simp), List.filter_eq_nil_iff.2, List.nil_append]
    intro e hmem hs
    rw [beq_iff_eq] at hs
    exact hi (hs ▸ hb.back_owned e hmem)

/-- Besides the edge into its body, or to itself, one edge leaves the header of a loop, unless the
    exit there is terminal. -/
theorem Visit.out_loop {form : LoopForm} {label : String} {body : Stmt}
    (h : s.Visit start (.loop form label body) i) :
    ∃ tail, (s.region start).outEdges i = loopEdge i (body.region (i + 1)).entry :: tail ∧
      OneUnless (s.Terminal start ⟨i, .no⟩) tail ∧
      ∀ e ∈ tail, e.label = .no ∨
        (e.label = .loop ∧ s.InLoop start ((Stmt.loop form label body).region i) e.target) := by
  have hb := body.region_wellFormed (i + 1)
  have hi : ¬(body.region (i + 1)).Owns i := body.not_owns_of_lt (by omega)
  have ho : ((Stmt.loop form label body).region i).Owns i := by
    rw [region]
    exact (Region.owns_loop (by simp)).2 (.inl rfl)
  obtain ⟨tail, he, htail⟩ := h.outEdges_eq ho
  rw [outEdges_loop] at he
  refine ⟨tail, he, htail.single ?_ ?_⟩
  · simp [region, Region.exitsAt, Region.loop]
  · have : ((Stmt.loop form label body).region i).isBranch i = false := by
      rw [region, Region.isBranch_loop, Region.isBranch_eq_false_of_not_owns hb hi]
    simp [Draft.backLabel, this]

/-- Only the edge into its body leaves a function. -/
theorem Visit.out_function {label : String} {body : Stmt}
    (h : s.Visit start (.function label body) i) :
    (s.region start).outEdges i = (body.region (i + 1)).into i .next := by
  have hb := body.region_wellFormed (i + 1)
  have hi : ¬(body.region (i + 1)).Owns i := body.not_owns_of_lt (by omega)
  have ho : ((Stmt.function label body).region i).Owns i := by
    rw [region]
    exact (Region.owns_function (by simp)).2 (.inl rfl)
  obtain ⟨tail, he, htail⟩ := h.outEdges_eq ho
  rw [he, htail.nil (by rw [Region.exitsAt, exits_function, List.filter_nil]), List.append_nil,
    region, Region.function, Draft.outEdges, List.filter_append, outEdges_eq_nil hb hi,
    List.nil_append, List.filter_eq_self]
  intro e hmem
  obtain ⟨id, -, rfl⟩ := Region.mem_into.1 hmem
  exact beq_self_eq_true i

theorem exitsFrom_at {r : Region} (hr : r.WellFormed) (h : ¬r.Owns i) (label : EdgeLabel) :
    (r.exitsFrom i label).filter (fun x => x.source == i) =
      r.entry.elim [⟨i, label⟩] (fun _ => []) := by
  unfold Region.exitsFrom
  cases r.entry with
  | some id => exact exitsAt_eq_nil hr h
  | none => simp

section Branch

variable (label : String) (yes no : Stmt) (i : Int)

/-- A branch has its own edges into those of its sides that can be entered. -/
theorem outEdges_branch : ((Stmt.branch label yes no).region i).outEdges i =
    (yes.region (i + 1)).into i .yes ++ (no.region (i + 1 + yes.size)).into i .no := by
  rw [region, Region.branch, Draft.outEdges, List.filter_append, List.filter_append,
    List.filter_append, outEdges_eq_nil (yes.region_wellFormed _) (yes.not_owns_of_lt (by omega)),
    outEdges_eq_nil (no.region_wellFormed _) (no.not_owns_of_lt (by omega)), List.nil_append,
    List.nil_append, ← List.filter_append, List.filter_eq_self]
  intro e he
  rcases List.mem_append.1 he with he | he
  all_goals
    obtain ⟨id, -, rfl⟩ := Region.mem_into.1 he
    exact beq_self_eq_true i

/-- A branch has exits of its own for the other sides. -/
theorem exitsAt_branch : ((Stmt.branch label yes no).region i).exitsAt i =
    (yes.region (i + 1)).entry.elim [⟨i, .yes⟩] (fun _ => []) ++
      (no.region (i + 1 + yes.size)).entry.elim [⟨i, .no⟩] (fun _ => []) := by
  rw [region, Region.exitsAt, Region.branch, List.filter_append,
    exitsFrom_at (yes.region_wellFormed _) (yes.not_owns_of_lt (by omega)),
    exitsFrom_at (no.region_wellFormed _) (no.not_owns_of_lt (by omega))]

/-- The exits at a branch keep their labels on the way back to a header. -/
theorem backLabel_branch : ∀ x ∈ ((Stmt.branch label yes no).region i).exitsAt i,
    ((Stmt.branch label yes no).region i).backLabel x = x.label := by
  intro x hx
  have helim : ∀ (entry : Option Int) (y : Exit), x ∈ entry.elim [y] (fun _ => []) → x = y := by
    intro entry y hxy
    cases entry <;> simp_all
  rw [region]
  rw [exitsAt_branch, List.mem_append] at hx
  rcases hx with hx | hx
  · rw [helim _ _ hx]
    exact Region.backLabel_branch_self rfl (.inl rfl)
  · rw [helim _ _ hx]
    exact Region.backLabel_branch_self rfl (.inr rfl)

end Branch

/-- One edge for each side leaves a branch, unless the exit for that side is terminal, and at most
    one more edge, which goes back to a header. -/
theorem Visit.out_branch {label : String} {yes no : Stmt}
    (h : s.Visit start (.branch label yes no) i) :
    OneUnless (s.Terminal start ⟨i, .yes⟩)
        (((s.region start).outEdges i).filter (fun e => e.label = .yes)) ∧
      OneUnless (s.Terminal start ⟨i, .no⟩)
        (((s.region start).outEdges i).filter (fun e => e.label = .no)) ∧
      (((s.region start).outEdges i).filter (fun e => e.label ≠ .yes ∧ e.label ≠ .no)).length ≤ 1 ∧
      ∀ e ∈ (s.region start).outEdges i, e.label = .yes ∨ e.label = .no ∨ e.label = .loop := by
  have ho : ((Stmt.branch label yes no).region i).Owns i := by
    rw [region]
    exact (Region.owns_branch (by simp) (by simp)).2 (.inl rfl)
  obtain ⟨tail, he, htail⟩ := h.outEdges_eq ho
  -- an edge into a side shows that the exit for that side is in use
  have hinto : ∀ entry side, ⟨i, entry, side⟩ ∈ ((Stmt.branch label yes no).region i).outEdges i →
      ¬s.Terminal start ⟨i, side⟩ := by
    intro entry side hmem
    have : (⟨i, entry, side⟩ : FlowEdge) ∈ (s.region start).outEdges i := by
      rw [he]
      exact List.mem_append_left _ hmem
    exact not_terminal_of_mem (List.mem_filter.1 this).1 rfl (.inl rfl)
  rw [he, outEdges_branch]
  rw [outEdges_branch] at hinto
  unfold Region.into at *
  -- what the exits at the branch have become depends on which sides can be entered
  rcases htail.branch (backLabel_branch label yes no i) with ⟨rfl, ht⟩ |
    ⟨target, last, rfl, hlast, ht⟩
  · rw [exitsAt_branch] at ht
    cases hye : (yes.region (i + 1)).entry <;>
      cases hne : (no.region (i + 1 + yes.size)).entry <;> simp_all [OneUnless]
  · rw [exitsAt_branch] at ht ⊢
    rcases hlast with rfl | rfl <;> cases hye : (yes.region (i + 1)).entry <;>
      cases hne : (no.region (i + 1 + yes.size)).entry <;> simp_all [OneUnless, Exit.to]

end Stmt

/-! ## Flowcharts of trees -/

namespace Ast

/-- The fragment of what a loop or function governs. -/
def bodyFragment (n : Ast) (d : Draft) : Fragment := (n.bodyProgram.lay (n.begun d)).2

/-- The exit is still open in the fragment of the root or in that of the body of some function. -/
def Terminal (root : Ast) (x : Exit) : Prop :=
  x ∈ (root.program.lay {}).2.exits ∨
    ∃ n d, root.Visit n d ∧ n.kind = .functionDef ∧ x ∈ (n.bodyFragment d).exits

/-- The id is that of the header of a loop around the node visited at `d`: the header is made
    before, and the node is made before the visit of the loop is over. -/
def InLoop (root : Ast) (d : Draft) (header : Int) : Prop :=
  ∃ m e, root.Visit m e ∧ m.kind.isLoop ∧ header = e.nextId ∧ e.nextId < d.nextId ∧
    d.nextId < (m.program.lay e).1.nextId

/-- The law of the edges that leave the node of a visited node. -/
structure OutgoingLaw (root : Ast) (chart : Flowchart) (n : Ast) (d : Draft) : Prop where
  /-- One edge for each side leaves a branch, and at most one more, which goes back. -/
  branch : n.kind = .ifStmt →
    OneUnless (root.Terminal ⟨d.nextId, .yes⟩)
        ((chart.outEdges d.nextId).filter (fun e => e.label = .yes)) ∧
      OneUnless (root.Terminal ⟨d.nextId, .no⟩)
        ((chart.outEdges d.nextId).filter (fun e => e.label = .no)) ∧
      ((chart.outEdges d.nextId).filter (fun e => e.label ≠ .yes ∧ e.label ≠ .no)).length ≤ 1 ∧
      ∀ e ∈ chart.outEdges d.nextId, e.label = .yes ∨ e.label = .no ∨ e.label = .loop
  /-- The edge into the body, or to itself, leaves a header, and one by which the loop is left. -/
  loop : n.kind.isLoop → ∃ tail,
    chart.outEdges d.nextId = Stmt.loopEdge d.nextId (n.bodyFragment d).entry :: tail ∧
      OneUnless (root.Terminal ⟨d.nextId, .no⟩) tail ∧
      ∀ e ∈ tail, e.label = .no ∨ (e.label = .loop ∧ root.InLoop d e.target)
  /-- One edge leaves a step. -/
  step : n.kind.isStep → OneUnless (root.Terminal ⟨d.nextId, .next⟩) (chart.outEdges d.nextId) ∧
    ∀ e ∈ chart.outEdges d.nextId, e.label = .next ∨ e.label = .loop
  /-- The edge into its body leaves a function, if there is anything to enter. -/
  function : n.kind = .functionDef → chart.outEdges d.nextId =
    ((n.bodyFragment d).entry.map (fun entry => ⟨d.nextId, entry, .next⟩)).toList

variable {root n : Ast} {d : Draft}

theorem bodyFragment_eq {kind : FlowKind} (hd : d.WellFormed) (h : n.kind.flowKind? = some kind) :
    n.bodyFragment d = (n.bodyProgram.region (d.nextId + 1)).toFragment := by
  rw [bodyFragment, begun, h]
  exact congrArg Prod.snd (n.bodyProgram.laysRegion.behind hd kind n.label)

theorem rootFragment_eq (root : Ast) :
    (root.program.lay {}).2 = (root.program.region 0).toFragment :=
  congrArg Prod.snd (root.program.laysRegion {} .empty)

theorem terminal_iff {x : Exit} : root.Terminal x ↔ root.program.Terminal 0 x := by
  unfold Terminal Stmt.Terminal
  rw [rootFragment_eq]
  apply or_congr Iff.rfl
  constructor
  · rintro ⟨n, d, hv, hk, hx⟩
    obtain ⟨hd, hp⟩ := hv.toStmt
    rw [bodyFragment_eq hd (by rw [hk, Kind.flowKind?])] at hx
    rw [program_functionDef hk] at hp
    exact ⟨_, _, _, hp, hx⟩
  · rintro ⟨label, body, i, hp, hx⟩
    obtain ⟨n, d, hv, rfl, hn⟩ := hp.exists_ast rfl
    obtain ⟨hk, -, rfl⟩ := reads_of_program hn
    refine ⟨n, d, hv, hk, ?_⟩
    rwa [bodyFragment_eq hv.toStmt.1 (by rw [hk, Kind.flowKind?])]

theorem isLoop_of_loopForm? {kind : Kind} {form : LoopForm} (h : kind.loopForm? = some form) :
    kind.isLoop = true := by
  cases kind <;> simp_all [Kind.loopForm?, Kind.isLoop]

theorem exists_loopForm? {kind : Kind} (h : kind.isLoop = true) :
    ∃ form, kind.loopForm? = some form := by
  cases kind <;> simp_all [Kind.loopForm?, Kind.isLoop]

theorem inLoop_of_stmt {part : Region} {header : Int} (hp : part.Owns d.nextId)
    (h : root.program.InLoop 0 part header) : root.InLoop d header := by
  obtain ⟨stop, ⟨form, label, body, hv, rfl⟩, hlt, hle⟩ := h
  obtain ⟨m, e, hm, rfl, hprog⟩ := hv.exists_ast rfl
  obtain ⟨hk, -, -⟩ := reads_of_program hprog
  refine ⟨m, e, hm, isLoop_of_loopForm? hk, rfl, ?_, ?_⟩
  · have := hp.start_le
    omega
  · have := hp.lt_stop
    rw [(hm.toStmt.1.lay m.program).2, hprog]
    omega

/-- The law holds of every visited node. -/
theorem Visit.outgoingLaw (h : root.Visit n d) {chart : Flowchart}
    (hc : chart.edges = (root.program.region 0).edges) : root.OutgoingLaw chart n d := by
  obtain ⟨hd, hv⟩ := h.toStmt
  have hout : ∀ id, chart.outEdges id = (root.program.region 0).outEdges id := by
    intro id
    rw [Flowchart.outEdges, Draft.outEdges, hc]
  constructor
  · intro hk
    rw [program_ifStmt hk] at hv
    rw [terminal_iff, terminal_iff, hout]
    exact hv.out_branch
  · intro hk
    obtain ⟨form, hl⟩ := exists_loopForm? hk
    rw [program_loop hl] at hv
    obtain ⟨tail, he, hone, hlabels⟩ := hv.out_loop
    rw [terminal_iff, hout, bodyFragment_eq hd (flowKind?_of_loop hl).1]
    refine ⟨tail, he, hone, ?_⟩
    intro e hmem
    rcases hlabels e hmem with hno | ⟨hloop, hin⟩
    · exact .inl hno
    · refine .inr ⟨hloop, inLoop_of_stmt ?_ hin⟩
      rw [Stmt.region]
      exact (Region.owns_loop (by simp)).2 (.inl rfl)
  · intro hk
    rw [program_step hk] at hv
    rw [terminal_iff, hout]
    obtain ⟨hone, hlabels⟩ := hv.out_step
    refine ⟨hone, ?_⟩
    intro e hmem
    rcases hlabels e hmem with hnext | ⟨hloop, -⟩
    · exact .inl hnext
    · exact .inr hloop
  · intro hk
    rw [program_functionDef hk] at hv
    rw [hout, hv.out_function, bodyFragment_eq hd (by rw [hk, Kind.flowKind?]), Region.into]
    cases (n.bodyProgram.region (d.nextId + 1)).entry <;> rfl

end Ast

/-- Every node of a flowchart is made by the visit of a node, and the law of the edges that leave
    it holds of every visited node. -/
theorem Flowchart.outgoing {limit : Int} {root : Ast} {chart : Flowchart}
    (h : (Flowchart.ofAst limit root).outcome = .ok chart) :
    (∀ node ∈ chart.nodes, ∃ n d, root.Visit n d ∧ n.kind.flowKind? = some node.kind ∧
        node.id = d.nextId ∧ node.label = n.label) ∧
      ∀ n d, root.Visit n d → root.OutgoingLaw chart n d := by
  obtain ⟨malformed, rfl⟩ := Flowchart.eq_ofProgram_of_ofAst h
  obtain ⟨hnodes, hedges⟩ := Flowchart.ofProgram_eq root.program malformed
  constructor
  · intro node hmem
    rw [hnodes] at hmem
    obtain ⟨t, i, hv, ht⟩ := Stmt.exists_visit_of_mem_nodes hmem
    obtain ⟨n, d, hn, rfl, rfl⟩ := hv.exists_ast ht
    rw [Ast.node?_program, Option.map_eq_some_iff] at ht
    obtain ⟨kind, hkind, rfl⟩ := ht
    exact ⟨n, d, hn, hkind, rfl, rfl⟩
  · intro n d hv
    exact hv.outgoingLaw hedges

/-! ## An example -/

namespace Ast

/-- The branch `if (c);`, with nothing on either side. -/
def idleBranch : Ast where
  kind := .ifStmt
  slots := { condition := some 0 }
  children := [{ kind := .other, text := "c" }]

/-- The loop `do if (c); while (c);`, whose body is left by its test alone. -/
def idleLoop : Ast where
  kind := .doWhile
  slots := { condition := some 0, body := some 1 }
  children := [{ kind := .other, text := "c" }, idleBranch]

/-- The function `void f() { do if (c); while (c); void g() {} return; }`. -/
def idleFunction : Ast where
  kind := .functionDef
  name := some "f"
  slots := { body := some 0 }
  children := [{ kind := .compoundBlock, children := [idleLoop,
    { kind := .functionDef, name := some "g" }, { kind := .returnStmt, text := "return;" }] }]

theorem exists_visit_idleBranch : ∃ d, idleFunction.Visit idleBranch d :=
  ⟨_, .body (.member (.body .root rfl rfl) (rfl : members _ = [] ++ idleLoop :: _)) rfl rfl⟩

end Ast

/-- Both sides of the branch lead back to the header around it. -/
theorem Flowchart.outgoing_idleBranch : ∃ chart d,
    (Flowchart.ofAst 3 Ast.idleFunction).outcome = .ok chart ∧
      Ast.idleFunction.Visit Ast.idleBranch d ∧
      Ast.idleFunction.OutgoingLaw chart Ast.idleBranch d := by
  obtain ⟨chart, h⟩ : ∃ chart, (Flowchart.ofAst 3 Ast.idleFunction).outcome = .ok chart := ⟨_, rfl⟩
  obtain ⟨d, hv⟩ := Ast.exists_visit_idleBranch
  exact ⟨chart, d, h, hv, (Flowchart.outgoing h).2 _ _ hv⟩

end FlowSketch
