import FlowSketch.Proofs.Chart.Numbering
import FlowSketch.Proofs.Chart.Visit

/-!
# The listing of a tree

Every statement that control flows through is drawn once, where the program text has it. The
listing of a tree is what a reader finds who goes through these statements from top to bottom; the
nodes of the flowchart are the listing, numbered from zero.

* `Ast.visited`, `Ast.listing` — the nodes that are visited from a node, and what is drawn of them.

Results:

* `Ast.listing_program`: the listing of a tree is that of its program.
* `Draft.edges_nodup_lay`: no edge is made twice.
* `Flowchart.nodes_listed`: the nodes of a flowchart are the listing of the tree, each found by its
  position, and every edge joins two of them and is found once at either.
-/

namespace FlowSketch

/-! ## The listing of a tree -/

namespace Ast

/-- The body, or all children when there is no body. -/
def bodyOrChildren (n : Ast) : List Ast :=
  match n.child? .body with
  | some body => [body]
  | none => n.children

/-- The nodes that are visited from a node: the children of a block, the body of an `else` or
    function, or its children when it has no body, the body and the `else` of a branch, and the body
    of a loop. -/
def visited (n : Ast) : List Ast :=
  match n.kind with
  | .compoundBlock => n.children
  | .elseClause | .functionDef => n.bodyOrChildren
  | .ifStmt => (n.child? .body).toList ++ (n.child? .elseBranch).toList
  | .forLoop | .whileLoop | .doWhile => (n.child? .body).toList
  | _ => []

theorem mem_children_of_mem_slot {n m : Ast} {slot : Slot} (h : m ∈ (n.child? slot).toList) :
    m ∈ n.children :=
  mem_children_of_child? (Option.mem_toList.1 h)

theorem mem_children_of_mem_bodyOrChildren {n m : Ast} (h : m ∈ n.bodyOrChildren) :
    m ∈ n.children := by
  unfold bodyOrChildren at h
  cases hb : n.child? .body with
  | some body =>
    rw [hb] at h
    exact List.mem_singleton.1 h ▸ mem_children_of_child? hb
  | none => rwa [hb] at h

theorem mem_children_of_mem_visited {n m : Ast} (h : m ∈ n.visited) : m ∈ n.children := by
  unfold visited at h
  cases hk : n.kind <;> simp only [hk] at h
  case compoundBlock => exact h
  case elseClause => exact mem_children_of_mem_bodyOrChildren h
  case functionDef => exact mem_children_of_mem_bodyOrChildren h
  case ifStmt => exact (List.mem_append.1 h).elim mem_children_of_mem_slot mem_children_of_mem_slot
  case forLoop => exact mem_children_of_mem_slot h
  case whileLoop => exact mem_children_of_mem_slot h
  case doWhile => exact mem_children_of_mem_slot h
  all_goals simp at h

theorem visited_of_step {n : Ast} (h : n.kind.isStep = true) : n.visited = [] := by
  cases hk : n.kind <;> simp_all [Kind.isStep, visited]

theorem visited_of_sequence {n : Ast} (h : n.kind = .compoundBlock ∨ n.kind = .elseClause) :
    n.visited = n.members := by
  rcases h with hk | hk <;> cases hb : n.child? .body <;>
    simp [visited, bodyOrChildren, members, hk, hb]

theorem visited_of_ifStmt {n : Ast} (h : n.kind = .ifStmt) :
    n.visited = (n.child? .body).toList ++ (n.child? .elseBranch).toList := by
  rw [visited, h]

theorem visited_of_loop {n : Ast} {form : LoopForm} (h : n.kind.loopForm? = some form) :
    n.visited = (n.child? .body).toList := by
  cases hk : n.kind <;> simp_all [Kind.loopForm?, visited]

theorem visited_of_functionDef {n : Ast} (h : n.kind = .functionDef) :
    n.visited = n.bodyOrChildren := by
  rw [visited, h]

/-- The kinds and labels of what is drawn of a tree, in pre-order: one node for each visited node
    that is neither a block nor an `else`. -/
def listing (n : Ast) : List (FlowKind × String) :=
  (n.kind.flowKind?.map (fun kind => (kind, n.label))).toList ++
    n.visited.attach.flatMap (fun m => m.1.listing)
termination_by sizeOf n
decreasing_by exact sizeOf_lt_of_mem_children (mem_children_of_mem_visited m.2)

theorem listing_eq (n : Ast) : n.listing =
    (n.kind.flowKind?.map (fun kind => (kind, n.label))).toList ++ n.visited.flatMap listing := by
  rw [listing, List.flatMap_subtype (g := listing) (by simp), List.unattach_attach]

theorem listing_members {n : Ast} (hs : ∀ m ∈ n.children, m.program.listing = m.listing) :
    (Stmt.block (n.members.map program)).listing = n.members.flatMap listing := by
  rw [Stmt.listing, Stmt.listingAll_map]
  apply List.flatMap_congr
  intro m hm
  exact hs m (mem_children_of_mem_members hm)

theorem listing_slotProgram {n : Ast} (hs : ∀ m ∈ n.children, m.program.listing = m.listing)
    (slot : Slot) : (n.slotProgram slot).listing = (n.child? slot).toList.flatMap listing := by
  unfold slotProgram
  cases hc : n.child? slot with
  | none => rfl
  | some child => simp [hs child (mem_children_of_child? hc)]

/-- The listing of a tree is that of its program. -/
theorem listing_program (n : Ast) : n.program.listing = n.listing := by
  induction n using Ast.induction with | node n hs =>
  rw [listing_eq]
  rcases n.kind_cases with hk | hk | hk | ⟨form, hk⟩ | hk
  · rw [program_step hk, visited_of_step hk]
    cases h : n.kind <;> simp_all [Kind.isStep, Kind.flowKind?, Kind.loopForm?, Stmt.listing]
  · have hkind : n.kind.flowKind? = none := by
      rcases hk with hk | hk <;> rw [hk] <;> rfl
    rw [program_sequence hk, listing_members hs, visited_of_sequence hk, hkind]
    rfl
  · rw [program_ifStmt hk, Stmt.listing, listing_slotProgram hs, listing_slotProgram hs,
      visited_of_ifStmt hk, List.flatMap_append, hk]
    rfl
  · rw [program_loop hk, Stmt.listing, bodyProgram_of_loop hk, listing_slotProgram hs,
      visited_of_loop hk, (flowKind?_of_loop hk).1]
    rfl
  · have hbody : n.bodyProgram.listing = n.visited.flatMap listing := by
      cases hb : n.child? .body with
      | some body =>
        rw [bodyProgram_of_child hb, hs body (mem_children_of_child? hb)]
        simp [visited, bodyOrChildren, hk, hb]
      | none =>
        have hblock : n.bodyProgram = .block (n.members.map program) := by simp [bodyProgram, hb]
        rw [hblock, listing_members hs]
        simp [visited, bodyOrChildren, members, hk, hb]
    rw [program_functionDef hk, Stmt.listing, hbody, hk]
    rfl

end Ast

/-! ## Edges -/

namespace Draft

variable {d : Draft}

theorem edges_nodup_addEdge (h : d.edges.Nodup) (source target : Int) (label : EdgeLabel) :
    (d.addEdge source target label).edges.Nodup := by
  unfold addEdge
  by_cases hmem : d.edges.contains ⟨source, target, label⟩
  · rwa [if_pos hmem]
  · rw [if_neg hmem]
    refine List.nodup_append.2 ⟨h, List.nodup_singleton _, ?_⟩
    intro e he e' he'
    rw [List.mem_singleton.1 he']
    rintro rfl
    exact hmem (List.contains_iff_mem.2 he)

theorem edges_nodup_addEdges {α : Type} (f : α → FlowEdge) (as : List α) (h : d.edges.Nodup) :
    (as.foldl (fun d a => d.addEdge (f a).source (f a).target (f a).label) d).edges.Nodup := by
  induction as generalizing d with
  | nil => exact h
  | cons a as ih => exact ih (edges_nodup_addEdge h ..)

theorem edges_nodup_connect (h : d.edges.Nodup) (exits : List Exit) (target : Int) :
    (d.connect exits target).edges.Nodup :=
  edges_nodup_addEdges (fun x : Exit => x.to target) exits h

theorem edges_nodup_attach (h : d.edges.Nodup) (side : Fragment) (branch : Int)
    (label : EdgeLabel) : (side.attach d branch label).1.edges.Nodup := by
  unfold Fragment.attach
  cases side.entry with
  | some entry => exact edges_nodup_addEdge h ..
  | none => exact h

theorem edges_nodup_closeLoop (h : d.edges.Nodup) (header : Int) (exits : List Exit) :
    (d.closeLoop header exits).edges.Nodup := by
  have hclosed := edges_nodup_addEdges
    (fun x : Exit => (⟨x.source, header, d.backLabel x⟩ : FlowEdge)) exits h
  unfold closeLoop
  by_cases hany : exits.any (fun x => decide (d.backLabel x = .loop))
  · rw [if_pos hany]
    exact hclosed
  · rw [if_neg hany]
    cases exits.getLast? with
    | some x => exact edges_nodup_addEdge hclosed ..
    | none => exact hclosed

theorem edges_nodup_layAll {stmts : List Stmt}
    (hs : ∀ s ∈ stmts, ∀ d : Draft, d.edges.Nodup → (s.lay d).1.edges.Nodup)
    (h : d.edges.Nodup) (before : Fragment) : (layAll stmts d before).1.edges.Nodup := by
  induction stmts generalizing d before with
  | nil =>
    rw [layAll]
    exact h
  | cons s stmts ih =>
    have hs' := fun t ht => hs t (List.mem_cons_of_mem s ht)
    have hlay := hs s (List.mem_cons_self ..) d h
    rw [layAll]
    simp only []
    split
    · exact ih hs' (edges_nodup_connect hlay ..) _
    · exact ih hs' hlay _

theorem edges_nodup_addNode (h : d.edges.Nodup) (kind : FlowKind) (label : String) :
    (d.addNode kind label).edges.Nodup := h

/-- Laying out a statement makes no edge twice. -/
theorem edges_nodup_lay (s : Stmt) (h : d.edges.Nodup) : (s.lay d).1.edges.Nodup := by
  induction s using Stmt.induction generalizing d with
  | step action label => exact edges_nodup_addNode h ..
  | block stmts ih =>
    rw [Stmt.lay]
    exact edges_nodup_layAll (fun s hs d => ih s hs) h _
  | branch label yes no ihy ihn =>
    rw [Stmt.lay]
    have hyes := ihy (edges_nodup_addNode h .branch label)
    exact edges_nodup_attach (ihn (edges_nodup_attach hyes ..)) ..
  | loop form label body ih =>
    have hbody := ih (edges_nodup_addNode h form.flowKind label)
    rw [Stmt.lay]
    simp only []
    split
    · exact edges_nodup_addEdge hbody ..
    · exact edges_nodup_closeLoop (edges_nodup_addEdge hbody ..) ..
  | function label body ih =>
    have hbody := ih (edges_nodup_addNode h .function label)
    rw [Stmt.lay]
    simp only []
    split
    · exact edges_nodup_addEdge hbody ..
    · exact hbody

end Draft

/-! ## Flowcharts of trees -/

namespace Flowchart

variable {chart : Flowchart} {figures : List (FlowKind × String)}

/-- Where the nodes are numbered from zero, the node of an id is the one at that position. -/
theorem node?_of_numbered (h : chart.nodes = numberFrom 0 figures) (id : Int) :
    chart.node? id = if 0 ≤ id then chart.nodes[id.toNat]? else none := by
  unfold node?
  rw [h, find?_numberFrom, Int.sub_zero]

/-- Where no edge is listed twice, each is found once at either of its ends. -/
theorem count_edges (h : chart.edges.Nodup) {e : FlowEdge} (he : e ∈ chart.edges) :
    (chart.outEdges e.source).count e = 1 ∧ (chart.inEdges e.target).count e = 1 := by
  constructor
  · apply List.count_eq_one_of_mem (h.filter _)
    exact List.mem_filter.2 ⟨he, beq_self_eq_true _⟩
  · apply List.count_eq_one_of_mem (h.filter _)
    exact List.mem_filter.2 ⟨he, beq_self_eq_true _⟩

/-- The nodes of the flowchart of a program are its listing, numbered from zero. -/
theorem nodes_ofProgram (program : Stmt) (malformed : List Malformed) :
    (ofProgram program malformed).nodes = numberFrom 0 program.listing := by
  rw [(ofProgram_eq program malformed).1, program.nodes_region]

/-- The edges of the flowchart of a program join nodes of it. -/
theorem edge_of_mem_ofProgram {program : Stmt} {malformed : List Malformed} {e : FlowEdge}
    (he : e ∈ (ofProgram program malformed).edges) :
    (0 ≤ e.source ∧ e.source < (ofProgram program malformed).nodes.length) ∧
      0 ≤ e.target ∧ e.target < (ofProgram program malformed).nodes.length := by
  obtain ⟨hnodes, hedges⟩ := ofProgram_eq program malformed
  rw [hedges] at he
  have hstop : (program.region 0).stop = (ofProgram program malformed).nodes.length := by
    rw [hnodes, Region.stop, Stmt.region_start, Int.zero_add]
  obtain ⟨hs, ht⟩ := (program.region_wellFormed 0).edge_owned e he
  rw [Region.Owns, Stmt.region_start, hstop] at hs ht
  exact ⟨hs, ht⟩

/-- The nodes of a flowchart are the listing of the tree, with the ids from zero, and it starts at
    the first of them if there is any. Both ends of every edge are among them. The node of an id is
    the one at that position, and an edge is found once where it starts and once where it ends. -/
theorem nodes_listed {limit : Int} {root : Ast} {chart : Flowchart}
    (h : (Flowchart.ofAst limit root).outcome = .ok chart) :
    chart.nodes.map (fun node => (node.kind, node.label)) = root.listing ∧
      chart.nodes.map (·.id) = (List.range chart.nodes.length).map (fun k : Nat => (k : Int)) ∧
      chart.entry = (if chart.nodes = [] then none else some 0) ∧
      (∀ e ∈ chart.edges, (0 ≤ e.source ∧ e.source < chart.nodes.length) ∧
        0 ≤ e.target ∧ e.target < chart.nodes.length) ∧
      (∀ id, (∃ node, chart.node? id = some node) ↔ 0 ≤ id ∧ id < chart.nodes.length) ∧
      (∀ (k : Nat) (hk : k < chart.nodes.length), chart.node? k = some chart.nodes[k]) ∧
      ∀ e ∈ chart.edges, (chart.outEdges e.source).count e = 1 ∧
        (chart.inEdges e.target).count e = 1 := by
  obtain ⟨malformed, rfl⟩ := Flowchart.eq_ofProgram_of_ofAst h
  have hnodes := nodes_ofProgram root.program malformed
  have hnode := node?_of_numbered hnodes
  refine ⟨?_, ?_, ?_, fun e he => edge_of_mem_ofProgram he, ?_, ?_, ?_⟩
  · rw [hnodes, map_figure_numberFrom, Ast.listing_program]
  · rw [hnodes, map_id_numberFrom, length_numberFrom]
    simp
  · have hentry : (ofProgram root.program malformed).entry =
        (ofProgram root.program malformed).nodes.head?.map (·.id) := rfl
    rw [hentry, hnodes]
    cases root.program.listing with
    | nil => rfl
    | cons figure figures => simp [numberFrom_cons]
  · intro id
    rw [hnode]
    by_cases hid : 0 ≤ id
    · rw [if_pos hid, ← Option.isSome_iff_exists, isSome_getElem?]
      omega
    · simp [hid]
  · intro k hk
    rw [hnode, if_pos (Int.natCast_nonneg k), Int.toNat_natCast, List.getElem?_eq_getElem hk]
  · intro e he
    exact count_edges (Draft.edges_nodup_lay root.program List.nodup_nil) he

end Flowchart

/-- The function `void f() { if (c); else { for (;;); return; } switch (x) { return; } }` as a
    lenient reader gives it: neither the function nor its `else` has a body slot. -/
def Ast.looseFunction : Ast where
  kind := .functionDef
  name := some "f"
  children := [
    { kind := .ifStmt
      slots := { condition := some 0, elseBranch := some 1 }
      children := [{ kind := .other, text := "c" },
        { kind := .elseClause
          children := [{ kind := .forLoop }, { kind := .returnStmt, text := "return;" }] }] },
    { kind := .switchStmt, text := "switch (x)", children := [{ kind := .returnStmt }] }]

/-- What stands in the `else` is listed, what stands in the `switch` is not. -/
theorem Flowchart.nodes_listed_looseFunction : ∃ chart,
    (Flowchart.ofAst 3 Ast.looseFunction).outcome = .ok chart ∧
      chart.nodes.map (fun node => (node.kind, node.label)) = Ast.looseFunction.listing ∧
      chart.node? 4 = some ⟨4, .other, "switch (x)"⟩ ∧ chart.node? 5 = none := by
  refine ⟨⟨[⟨0, .function, "Function: f"⟩, ⟨1, .branch, "c"⟩, ⟨2, .forLoop, "for (;;)"⟩,
    ⟨3, .returns, "return;"⟩, ⟨4, .other, "switch (x)"⟩], [⟨2, 2, .loop⟩, ⟨2, 3, .no⟩, ⟨1, 2, .no⟩,
    ⟨1, 4, .yes⟩, ⟨3, 4, .next⟩, ⟨0, 1, .next⟩], some 0, []⟩, by rfl, ?_, rfl, rfl⟩
  have h : (Flowchart.ofAst 3 Ast.looseFunction).outcome = .ok _ := rfl
  exact (Flowchart.nodes_listed h).1

end FlowSketch
