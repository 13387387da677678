import FlowSketch.Proofs.Chart.Depth

/-!
# What is drawn of a tree

Every node of a flowchart stands for a node of the tree: for a visited node that is neither a block
nor an `else`, in pre-order. The malformed nodes on the chart are those of them that lack something,
in the same order.

* `Ast.drawn` — the nodes of a tree that are drawn.
* `Ast.notes` — what each of them lacks; `Ast.lacksAt` finds it by the id of the flow node.

Results:

* `Ast.length_notes`: as many nodes are drawn as the program has.
* `Ast.Visit.getElem?_drawn`: a visited node is drawn at the place that its id says.
* `Ast.outlineAt_eq`: an outline records the drawn nodes that lack something.
* `Flowchart.outcome_eq_ok_iff`: so does a flowchart.
-/

namespace FlowSketch

namespace Ast

/-- The node itself, if it is drawn. -/
def self (n : Ast) : List Ast := n.kind.flowKind?.toList.map (fun _ => n)

/-- The nodes that are drawn of a tree, in pre-order: the visited ones that are neither blocks nor
    `else` clauses. -/
def drawn (n : Ast) : List Ast := n.self ++ n.visited.attach.flatMap (fun m => m.1.drawn)
termination_by sizeOf n
decreasing_by exact sizeOf_lt_of_mem_children (mem_children_of_mem_visited m.2)

/-- What the nodes that are drawn lack, one by one. -/
def notes (n : Ast) : List (Option Malformed) := n.drawn.map malformed?

theorem drawn_eq (n : Ast) : n.drawn = n.self ++ n.visited.flatMap drawn := by
  rw [drawn, List.flatMap_subtype (g := drawn) (by simp), List.unattach_attach]

theorem notes_eq (n : Ast) : n.notes = n.self.map malformed? ++ n.visited.flatMap notes := by
  rw [notes, drawn_eq, List.map_append, List.map_flatMap]
  rfl

theorem self_of_flowKind? {n : Ast} (h : n.kind.flowKind?.isSome) : n.self = [n] := by
  obtain ⟨kind, hk⟩ := Option.isSome_iff_exists.1 h
  rw [self, hk]
  rfl

/-- What is drawn is what is listed. -/
theorem length_drawn (n : Ast) : n.drawn.length = n.program.size := by
  rw [← Stmt.length_listing, listing_program]
  induction n using Ast.induction with | node n hs =>
  have hself : n.self.length =
      (n.kind.flowKind?.map (fun kind => (kind, n.label))).toList.length := by
    rw [self]
    cases n.kind.flowKind? <;> rfl
  rw [drawn_eq, listing_eq, List.length_append, List.length_append, hself, List.length_flatMap,
    List.length_flatMap]
  congr 2
  apply List.map_congr_left
  intro m hm
  exact hs m (mem_children_of_mem_visited hm)

/-- As many nodes are drawn as the program has. -/
theorem length_notes (n : Ast) : n.notes.length = n.program.size := by
  rw [notes, List.length_map, length_drawn]

theorem length_drawnAll (ns : List Ast) :
    (ns.flatMap drawn).length = Stmt.sizeAll (ns.map program) := by
  induction ns with
  | nil => rfl
  | cons n ns ih =>
    rw [List.flatMap_cons, List.length_append, length_drawn, ih, List.map_cons, Stmt.sizeAll]

/-! ## Visits -/

variable {root n m : Ast} {d : Draft}

theorem nextId_begun_eq (n : Ast) (d : Draft) : (n.begun d).nextId = d.nextId + n.self.length := by
  unfold begun self
  cases n.kind.flowKind? with
  | none => simp
  | some kind => simp [Draft.addNode_eq_grow, Draft.nextId_grow]

theorem visited_of_members (h : n.members ≠ []) : n.visited = n.members := by
  cases hk : n.kind <;> cases hb : n.child? .body <;>
    simp_all [members, visited, bodyOrChildren]

/-- The body of a branch, loop or function is visited before anything else there. -/
theorem visited_of_body (hk : n.kind.governs = true) (hm : n.child? .body = some m) :
    ∃ rest, n.visited = m :: rest := by
  cases h : n.kind <;> simp_all [Kind.governs, visited, bodyOrChildren]

/-- What is drawn during a visit is a part of what is drawn of the tree, and begins at the id that
    is free then. -/
theorem Visit.drawn_infix (h : root.Visit n d) :
    ∃ before after, root.drawn = before ++ n.drawn ++ after ∧ d.nextId = before.length := by
  induction h with
  | root => exact ⟨[], [], by simp, rfl⟩
  | @member n m d front back hv hm ih =>
    obtain ⟨before, after, heq, hid⟩ := ih
    have hvisited := visited_of_members (n := n) (by simp [hm])
    have hnext := ((wellFormed_begun hv.toStmt.1 n).layAll (front.map program)).2
    rw [nextId_begun_eq, ← length_drawnAll] at hnext
    refine ⟨before ++ n.self ++ front.flatMap drawn, back.flatMap drawn ++ after, ?_, ?_⟩
    · rw [heq, drawn_eq n, hvisited, hm, List.flatMap_append, List.flatMap_cons]
      simp only [List.append_assoc]
    · rw [hnext, hid, List.length_append, List.length_append]
      push_cast
      rfl
  | @body n m d hv hk hm ih =>
    obtain ⟨before, after, heq, hid⟩ := ih
    obtain ⟨rest, hvisited⟩ := visited_of_body hk hm
    refine ⟨before ++ n.self, rest.flatMap drawn ++ after, ?_, ?_⟩
    · rw [heq, drawn_eq n, hvisited, List.flatMap_cons]
      simp only [List.append_assoc]
    · rw [nextId_begun_eq, hid, List.length_append]
      push_cast
      rfl
  | @elseBranch n m d hv hk hm ih =>
    obtain ⟨before, after, heq, hid⟩ := ih
    have hself : n.self = [n] := self_of_flowKind? (by rw [hk]; rfl)
    have hbody : ((n.child? .body).toList.flatMap drawn).length = (n.slotProgram .body).size := by
      unfold slotProgram
      cases n.child? .body with
      | none => rfl
      | some body => simp [length_drawn]
    refine ⟨before ++ n.self ++ (n.child? .body).toList.flatMap drawn, after, ?_, ?_⟩
    · rw [heq, drawn_eq n, visited_of_ifStmt hk, hm, List.flatMap_append]
      simp
    · rw [(wellFormed_halfway hv.toStmt.1 hk).2, hid, List.length_append, List.length_append, hself,
        hbody]
      push_cast
      rfl

/-- A visited node is drawn at the place that its id says. -/
theorem Visit.getElem?_drawn (h : root.Visit n d) (hk : n.kind.flowKind?.isSome) :
    root.drawn[d.nextId.toNat]? = some n := by
  obtain ⟨before, after, heq, hid⟩ := h.drawn_infix
  rw [heq, hid, Int.toNat_natCast, drawn_eq, self_of_flowKind? hk]
  simp

/-- What the node lacks that the flow node of that id stands for. -/
def lacksAt (root : Ast) (id : Int) : Option Malformed := root.notes[id.toNat]?.join

theorem Visit.lacksAt_eq (h : root.Visit n d) (hk : n.kind.flowKind?.isSome) :
    root.lacksAt d.nextId = n.malformed? := by
  rw [lacksAt, notes, List.getElem?_map, h.getElem?_drawn hk]
  rfl

/-! ## Events -/

/-- The event that records what a node lacks, if it lacks anything. -/
def event? (n : Ast) : Option Event := n.malformed?.map Event.malformedNode

/-- What is recorded during the visit of a tree. -/
def events (n : Ast) : List Event := n.drawn.filterMap event?

theorem noteDefect_eq (n : Ast) : n.noteDefect = ⟨n.event?.toList, .ok ()⟩ := by
  unfold noteDefect event?
  cases n.malformed? <;> rfl

theorem events_eq (n : Ast) : n.events = n.event?.toList ++ n.visited.flatMap events := by
  rw [events, drawn_eq, List.filterMap_append, List.filterMap_flatMap]
  congr 1
  cases hk : n.kind.flowKind? with
  | some kind =>
    rw [self_of_flowKind? (by rw [hk]; rfl)]
    cases hr : n.event? <;> simp [hr]
  | none =>
    have hsequence : n.kind = .compoundBlock ∨ n.kind = .elseClause := by
      cases h : n.kind <;> simp_all [Kind.flowKind?, Kind.loopForm?]
    have hdefect : n.defect? = none := by
      rcases hsequence with h | h <;> rw [defect?, h]
    rw [self, hk, event?, malformed?, hdefect]
    rfl

theorem each_eq {visit : Ast → Report Failure Stmt} {ns : List Ast}
    (hv : ∀ m ∈ ns, visit m = ⟨m.events, .ok m.program⟩) :
    Report.each visit ns = ⟨ns.flatMap events, .ok (ns.map program)⟩ := by
  induction ns with
  | nil => rfl
  | cons n ns ih =>
    rw [Report.each, hv n List.mem_cons_self, ih (fun m hm => hv m (List.mem_cons_of_mem n hm))]
    show (⟨n.events ++ (ns.flatMap events ++ []), _⟩ : Report Failure (List Stmt)) = _
    rw [List.append_nil]
    rfl

/-- An outline that keeps to its budget gives the program of the tree, and records the drawn nodes
    that lack something. -/
theorem outlineAt_eq (limit : Int) {budget : Nat} (depth : Nat) {n : Ast}
    (h : n.reaches budget = false) :
    n.outlineAt limit budget depth = ⟨n.events, .ok n.program⟩ := by
  induction budget generalizing depth n with
  | zero => exact absurd h (by simp [reaches])
  | succ budget ih =>
    have hv : ∀ m ∈ n.visited, outlineAt limit budget (depth + 1) m =
        ⟨m.events, .ok m.program⟩ := by
      intro m hm
      rw [reaches, List.any_eq_false] at h
      exact ih (depth + 1) (by simpa using h m hm)
    rw [outlineAt_succ, noteDefect_eq, each_eq hv, events_eq, program_eq_assemble]
    show (⟨n.event?.toList ++ (n.visited.flatMap events ++ []), _⟩ : Report Failure Stmt) = _
    rw [List.append_nil]
    rfl

theorem malformed?_events (n : Ast) :
    n.events.filterMap Event.malformed? = n.notes.filterMap id := by
  rw [events, notes, List.filterMap_filterMap, List.filterMap_map]
  apply List.filterMap_congr
  intro m _
  rw [event?]
  cases h : m.malformed? <;> simp [h, Event.malformed?]

end Ast

/-- A flowchart is drawn when the first level beyond the limit is not reached, and then it is the
    layout of the program with the drawn nodes that lack something. -/
theorem Flowchart.outcome_eq_ok_iff {limit : Int} {root : Ast} {chart : Flowchart} :
    (Flowchart.ofAst limit root).outcome = .ok chart ↔
      root.reaches (limit + 1).toNat = false ∧
        chart = ofProgram root.program (root.notes.filterMap id) := by
  rw [outcome_ofAst]
  by_cases h : root.reaches (limit + 1).toNat = true
  · simp [h]
  · have hreaches : root.reaches (limit + 1).toNat = false := by simpa using h
    rw [if_neg h, Ast.outline, Ast.outlineAt_eq limit 0 hreaches, Ast.malformed?_events,
      Except.ok.injEq]
    exact ⟨fun heq => ⟨hreaches, heq.symm⟩, fun heq => heq.2.symm⟩

end FlowSketch
